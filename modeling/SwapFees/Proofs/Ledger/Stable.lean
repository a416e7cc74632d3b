import SwapFees.Proofs.Ledger.Coins
import SwapFees.Proofs.Reachable

namespace SwapFees

namespace Ledger

/-- Each change of which payments consist keeps `P`. -/
structure Stable (P : Ledger → Prop) : Prop where
  issued : ∀ {l : Ledger} (n : Amount), P l → P { l with issuance := n }
  setFree : ∀ {l : Ledger} (who : AccountId) (n : Amount), P l → P (l.setFree who n)
  takeHolding : ∀ {l l' : Ledger} {id : AssetId} {t : Token} {who : AccountId} {b n m : Amount},
    l.tokens.get? id = some t → t.holdings.get? who = some b → n ≤ b →
      l.takeHolding id t who b n = (m, l') → P l → P l'
  increase : ∀ {l l' : Ledger} {id : AssetId} {who : AccountId} {n : Amount},
    l.increase id who n = .ok l' → P l → P l'
  setSupply : ∀ {l : Ledger} (id : AssetId) (n : Amount), P l → P (l.setSupply id n)

structure StableUnder (i : Option AssetId) (P : Ledger → Prop) : Prop where
  issued : i = none → ∀ {l : Ledger} (n : Amount), P l → P { l with issuance := n }
  setFree : i = none → ∀ {l : Ledger} (who : AccountId) (n : Amount), P l → P (l.setFree who n)
  takeHolding : ∀ {l l' : Ledger} {id : AssetId} {t : Token} {who : AccountId} {b n m : Amount},
    i = some id → l.tokens.get? id = some t → t.holdings.get? who = some b → n ≤ b →
      l.takeHolding id t who b n = (m, l') → P l → P l'
  increase : ∀ {l l' : Ledger} {id : AssetId} {who : AccountId} {n : Amount},
    i = some id → l.increase id who n = .ok l' → P l → P l'
  setSupply : ∀ {l : Ledger} {id : AssetId} (n : Amount), i = some id → P l → P (l.setSupply id n)

namespace StableUnder

variable {P : Ledger → Prop} {l l' : Ledger} {who source dest : AccountId} {c : Coin} {n : Amount}
  {p : Preservation} (hP : StableUnder c.asset.id? P)
include hP

theorem burn (hb : l.burn who c = .ok (n, l')) (h : P l) : P l' := by
  unfold Ledger.burn at hb
  split at hb
  · rename_i hid
    rcases hn : l.burnNative who c.amount with _ | l₁
    · rw [hn] at hb
      cases hb
    · rw [hn] at hb
      cases hb
      obtain ⟨-, issuance, -, rfl⟩ := burnNative_ok hn
      exact hP.issued hid _ (hP.setFree hid _ _ h)
  · rename_i id hid
    rcases burnToken_ok hb with ⟨-, -, rfl⟩ | ⟨t, b, l₁, ht, hheld, hle, htake, rfl⟩
    · exact h
    · exact hP.setSupply _ hid (hP.takeHolding hid ht hheld hle htake h)

theorem mint (hm : l.mint who c = .ok l') (h : P l) : P l' := by
  unfold Ledger.mint at hm
  split at hm
  · rename_i hid
    obtain ⟨issuance, total, -, -, -, rfl⟩ := mintNative_ok hm
    exact hP.issued hid _ (hP.setFree hid _ _ h)
  · rename_i id hid
    obtain ⟨supply, l₁, -, hi, rfl⟩ := mintToken_ok hm
    exact hP.setSupply _ hid (hP.increase hid hi h)

theorem transfer (ht : l.transfer source dest c p = .ok l') (h : P l) : P l' := by
  by_cases hne : source = dest
  · subst hne
    exact transfer_self ht ▸ h
  unfold Ledger.transfer at ht
  split at ht
  · rename_i hid
    obtain ⟨-, -, -, l₁, hl₁, e⟩ := transferNative_ok ht
    rw [if_neg hne] at e
    subst e hl₁
    exact hP.setFree hid _ _ (hP.setFree hid _ _ h)
  · rename_i id hid
    obtain ⟨t, b, m, l₁, t', hget, hheld, hle, -, -, -, htake, e⟩ := transferToken_ok ht
    rw [if_neg hne] at e
    have hpaid := hP.takeHolding hid hget hheld hle htake h
    -- What does not arrive changes nothing more.
    rcases hi : l₁.increase _ dest c.amount with _ | l₂
    · rw [hi] at e
      exact e ▸ hpaid
    · rw [hi] at e
      exact e ▸ hP.increase hid hi hpaid

end StableUnder

namespace Stable

variable {P : Ledger → Prop} (hP : Stable P) {l l' : Ledger} {who source dest : AccountId}
  {c : Coin} {n : Amount} {p : Preservation}
include hP

theorem under (i : Option AssetId) : StableUnder i P where
  issued _ := hP.issued
  setFree _ := hP.setFree
  takeHolding _ := hP.takeHolding
  increase _ := hP.increase
  setSupply n _ := hP.setSupply _ n

theorem burn (hb : l.burn who c = .ok (n, l')) (h : P l) : P l' := (hP.under _).burn hb h

theorem mint (hm : l.mint who c = .ok l') (h : P l) : P l' := (hP.under _).mint hm h

theorem transfer (ht : l.transfer source dest c p = .ok l') (h : P l) : P l' :=
  (hP.under _).transfer ht h

theorem exchange {tokenIn tokenOut : Coin} (hx : l.Exchanges who tokenIn tokenOut l') (h : P l) :
    P l' := by
  obtain ⟨n, l₁, hb, hm⟩ := hx
  split at hm
  · exact hm ▸ hP.burn hb h
  · exact hP.mint hm (hP.burn hb h)

end Stable

end Ledger

theorem Ledger.Stable.step {P : Ledger → Prop} (hP : Ledger.Stable P) {s : Settings}
    {growing : Prop} {c c' : Chain} (h : Step s growing c c') (hc : P c.ledger) : P c'.ledger := by
  cases h with
  | move h =>
    cases h with
    | pay hs hd h => exact hP.transfer h hc
    | burn hw h => exact hP.burn h hc
    | debit hw h => exact hP.burn h hc
    | trade hw ht hx => exact hP.exchange hx hc
    | announce e => exact hc
    | remember last => exact hc
  | _ => exact hc

/-- A stable property of the first ledger holds of every ledger that genesis leads to. -/
theorem Genesis.Reaches.ledger {P : Ledger → Prop} (hP : Ledger.Stable P) {g : Genesis}
    {s : Settings} {w : World} (h : g.Reaches s w)
    (hbuild : ∀ c, g.build s = .ok c → P c.ledger) : P w.chain.ledger := by
  obtain ⟨c, ops, hb, rfl⟩ := h
  exact World.replay_keeps_of_steps (P := fun c => P c.ledger) (fun _ _ _ => trivial) hP.step _
    (hbuild c hb)

end SwapFees
