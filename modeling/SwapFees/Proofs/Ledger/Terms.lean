import SwapFees.Proofs.Ledger.Stable

namespace SwapFees

/-- Whether holding the token keeps an account alive, and whether it is frozen. -/
def Token.terms (t : Token) : Bool × Bool := (t.sufficient, t.frozen)

namespace Ledger

def terms? (l : Ledger) (id : AssetId) : Option (Bool × Bool) := (l.tokens.get? id).map Token.terms

/-- All tokens are sufficient and no account leans on its provider. -/
structure Unleaned (l : Ledger) : Prop where
  sufficient : ∀ id t, l.tokens.get? id = some t → t.sufficient = true
  consumers : ∀ who, (l.account who).consumers = 0

variable {l l' : Ledger} {who source dest : AccountId} {c : Coin} {id : AssetId} {t : Token}
  {n m b : Amount} {p : Preservation}

theorem terms?_some (ht : l.tokens.get? id = some t) :
    l.terms? id = some (t.sufficient, t.frozen) := by
  rw [terms?, ht]
  rfl

theorem terms?_congr (e : l'.tokens = l.tokens) (j : AssetId) : l'.terms? j = l.terms? j := by
  rw [terms?, e, terms?]

theorem terms?_insert {t' : Token} (ht : l.tokens.get? id = some t)
    (e : l'.tokens = l.tokens.insert id t') (hterms : t'.terms = t.terms) (j : AssetId) :
    l'.terms? j = l.terms? j := by
  unfold terms?
  by_cases hj : id = j
  · rw [e, ← hj, SortedMap.get?_insert_self, ht, Option.map_some, Option.map_some, hterms]
  · rw [e, SortedMap.get?_insert_of_ne _ _ hj]

theorem terms?_setSupply (l : Ledger) (id : AssetId) (n : Amount) (j : AssetId) :
    (l.setSupply id n).terms? j = l.terms? j := by
  unfold setSupply
  split
  · rfl
  · rename_i t ht
    exact terms?_insert ht (tokens_putToken id { t with supply := n }) rfl j

theorem terms?_increase (h : l.increase id who n = .ok l') (j : AssetId) :
    l'.terms? j = l.terms? j := by
  obtain ⟨-, -, rfl | ⟨t, hs, ht, e⟩⟩ := receives_increase h
  · rfl
  · exact terms?_insert ht e rfl j

theorem terms?_burn (h : l.burn who c = .ok (n, l')) (j : AssetId) : l'.terms? j = l.terms? j := by
  unfold burn at h
  split at h
  · rcases hb : l.burnNative who c.amount with _ | l₁
    · rw [hb] at h
      cases h
    · rw [hb] at h
      cases h
      obtain ⟨-, issuance, -, rfl⟩ := burnNative_ok hb
      exact terms?_congr tokens_setFree j
  · rcases burnToken_ok h with ⟨-, -, rfl⟩ | ⟨t, b, l₁, ht, hb, hle, htake, rfl⟩
    · rfl
    · obtain ⟨-, -, -, hs, e⟩ := takeHolding_ok ht hb hle htake
      exact (terms?_setSupply l₁ _ _ j).trans (terms?_insert ht e rfl j)

theorem terms?_mint (h : l.mint who c = .ok l') (j : AssetId) : l'.terms? j = l.terms? j := by
  unfold mint at h
  split at h
  · obtain ⟨issuance, total, -, -, -, rfl⟩ := mintNative_ok h
    exact terms?_congr tokens_setFree j
  · obtain ⟨supply, l₁, -, hi, rfl⟩ := mintToken_ok h
    exact (terms?_setSupply l₁ _ _ j).trans (terms?_increase hi j)

theorem terms?_transfer (h : l.transfer source dest c p = .ok l') (j : AssetId) :
    l'.terms? j = l.terms? j := by
  by_cases hne : source = dest
  · subst hne
    rw [transfer_self h]
  unfold transfer at h
  split at h
  · obtain ⟨-, -, -, l₁, hl₁, e⟩ := transferNative_ok h
    rw [if_neg hne] at e
    subst e hl₁
    exact terms?_congr (tokens_setFree.trans tokens_setFree) j
  · obtain ⟨t, b, m, l₁, t', ht, hb, hle, -, -, -, htake, e⟩ := transferToken_ok h
    rw [if_neg hne] at e
    obtain ⟨-, -, -, hs, e₁⟩ := takeHolding_ok ht hb hle htake
    have hpaid : l₁.terms? j = l.terms? j := terms?_insert ht e₁ rfl j
    rcases hi : l₁.increase _ dest c.amount with _ | l₂
    · rw [hi] at e
      exact e ▸ hpaid
    · rw [hi] at e
      exact e ▸ (terms?_increase hi j).trans hpaid

theorem terms?_exchange {tokenIn tokenOut : Coin} (h : l.Exchanges who tokenIn tokenOut l')
    (j : AssetId) : l'.terms? j = l.terms? j := by
  obtain ⟨n, l₁, hb, hm⟩ := h
  split at hm
  · exact hm ▸ terms?_burn hb j
  · exact (terms?_mint hm j).trans (terms?_burn hb j)

namespace Unleaned

theorem congr (h : l.Unleaned) (hterms : ∀ j, l'.terms? j = l.terms? j)
    (ha : ∀ q, (l'.account q).consumers = 0) : l'.Unleaned where
  sufficient id t ht := by
    have hterm := hterms id
    rw [terms?_some ht] at hterm
    obtain ⟨t', ht', e⟩ := Option.map_eq_some_iff.1 hterm.symm
    exact (Prod.mk.inj e).1 ▸ h.sufficient id t' ht'
  consumers := ha

theorem consumers_putAccount (h : l.Unleaned) {a : Account} (ha : a.consumers = 0) (q : AccountId) :
    ((l.putAccount who a).account q).consumers = 0 := by
  by_cases hq : q = who
  · rw [hq, account_putAccount_self]
    split
    · rfl
    · exact ha
  · rw [account_putAccount_of_ne a hq]
    exact h.consumers q

theorem consumers_setFree (h : l.Unleaned) (n : Amount) (q : AccountId) :
    ((l.setFree who n).account q).consumers = 0 := by
  have hkeep : ((l.account who).keeping l.minBalance n).consumers = 0 := by
    unfold Account.keeping
    dsimp only
    split
    · exact h.consumers who
    · exact h.consumers who
  rw [setFree_eq]
  exact h.consumers_putAccount hkeep q

theorem setFree (h : l.Unleaned) (who : AccountId) (n : Amount) : (l.setFree who n).Unleaned :=
  h.congr (terms?_congr tokens_setFree) (h.consumers_setFree n)

theorem takeHolding (h : l.Unleaned) (ht : l.tokens.get? id = some t)
    (hb : t.holdings.get? who = some b) (hn : n ≤ b)
    (htake : l.takeHolding id t who b n = (m, l')) : l'.Unleaned := by
  obtain ⟨-, -, -, hs, e⟩ := takeHolding_ok ht hb hn htake
  refine h.congr (fun j => terms?_insert ht e rfl j) fun q => ?_
  unfold Ledger.takeHolding at htake
  dsimp only at htake
  split at htake
  · obtain ⟨-, rfl⟩ := Prod.mk.inj htake
    change ((l.giveReference t who).account q).consumers = 0
    unfold giveReference
    refine h.consumers_putAccount ?_ q
    rw [if_pos (h.sufficient id t ht)]
    exact h.consumers who
  · obtain ⟨-, rfl⟩ := Prod.mk.inj htake
    exact h.consumers q

theorem increase (h : l.Unleaned) (hi : l.increase id who n = .ok l') : l'.Unleaned := by
  refine h.congr (terms?_increase hi) fun q => ?_
  rcases increase_ok hi with ⟨-, rfl⟩ | ⟨t, hcheck, rfl⟩
  · exact h.consumers q
  · obtain ⟨ht, -⟩ := checkIncrease_ok hcheck
    unfold addHolding
    split
    · exact h.consumers q
    · change ((l.takeReference t who).account q).consumers = 0
      unfold takeReference
      refine h.consumers_putAccount ?_ q
      rw [if_pos (h.sufficient id t ht)]
      exact h.consumers who

theorem putToken (h : l.Unleaned) (ht : t.sufficient = true) (id : AssetId) :
    (l.putToken id t).Unleaned := by
  refine ⟨fun j t' hj => ?_, h.consumers⟩
  rw [tokens_putToken, SortedMap.get?_insert] at hj
  split at hj
  · cases hj
    exact ht
  · exact h.sufficient j t' hj

theorem addProvider (h : l.Unleaned) (who : AccountId) : (l.addProvider who).Unleaned :=
  h.congr (terms?_congr (tokens_putAccount _)) (h.consumers_putAccount (h.consumers who))

theorem setSupply (h : l.Unleaned) (id : AssetId) (n : Amount) : (l.setSupply id n).Unleaned := by
  refine h.congr (terms?_setSupply l id n) fun q => ?_
  unfold Ledger.setSupply
  split
  · exact h.consumers q
  · exact h.consumers q

end Unleaned

theorem stable_unleaned : Stable Unleaned where
  issued _ h := ⟨h.sufficient, h.consumers⟩
  setFree who n h := h.setFree who n
  takeHolding ht hb hn htake h := h.takeHolding ht hb hn htake
  increase hi h := h.increase hi
  setSupply id n h := h.setSupply id n

end Ledger

namespace Genesis

open Ledger

variable {g : Genesis} {s : Settings}

theorem unleaned_endow {minBalance : Amount} {balances : List (AccountId × Amount)} {l : Ledger}
    (h : endow minBalance balances = .ok l) : l.Unleaned := by
  unfold endow at h
  split at h
  · cases h
  · split at h
    · cases h
    · split at h
      · cases h
        refine ⟨nofun, fun who => ?_⟩
        unfold account
        dsimp only
        cases ha : (SortedMap.ofList (balances.map fun e =>
          (e.1, ({ providers := 1, free := e.2 } : Account)))).get? who with
        | none => rfl
        | some a =>
          obtain ⟨e, -, hea⟩ := List.mem_map.1 (SortedMap.mem_of_get?_ofList ha)
          obtain ⟨-, rfl⟩ := Prod.mk.inj hea
          rfl
      · cases h

/-- Sufficient tokens stay so, and no account ever leans on its provider. -/
theorem Reaches.unleaned {w : World} (h : g.Reaches s w)
    (ht : ∀ e ∈ g.tokens, e.2.sufficient = true) : w.chain.ledger.Unleaned := by
  apply h.ledger stable_unleaned
  intro c hb
  obtain ⟨l₁, l₂, l₃, h₁, h₂, h₃, hledger⟩ := ledger_build hb
  have hdefined : l₂.Unleaned := define_keeps h₂ (fun e he l hl => hl.putToken (ht e he) e.1)
    (unleaned_endow h₁)
  have hheld : l₃.Unleaned := hold_keeps h₃ stable_unleaned.mint hdefined
  rw [hledger]
  exact hheld.addProvider s.feeAccount

end Genesis

end SwapFees
