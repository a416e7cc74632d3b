import SwapFees.Proofs.Ledger.Stable

namespace SwapFees

def Token.Kept (t : Token) : Prop := ∀ who b, t.holdings.get? who = some b → t.minBalance ≤ b

namespace Token

variable {t : Token} {who : AccountId} {n : Amount}

theorem Kept.insert (h : t.Kept) (hn : t.minBalance ≤ n) :
    ({ t with holdings := t.holdings.insert who n } : Token).Kept := by
  intro q b hb
  rw [SortedMap.get?_insert] at hb
  split at hb
  · cases hb
    exact hn
  · exact h q b hb

theorem Kept.erase (h : t.Kept) (who : AccountId) :
    ({ t with holdings := t.holdings.erase who } : Token).Kept := by
  intro q b hb
  rw [SortedMap.get?_erase] at hb
  split at hb
  · cases hb
  · exact h q b hb

end Token

namespace Ledger

def Kept (l : Ledger) : Prop := ∀ id t, l.tokens.get? id = some t → t.Kept

variable {l l' : Ledger} {who : AccountId} {c : Coin} {id : AssetId} {t : Token} {n : Amount}

theorem Kept.congr (h : l.Kept) (e : l'.tokens = l.tokens) : l'.Kept := by
  unfold Kept
  rwa [e]

theorem Kept.putToken (h : l.Kept) (ht : t.Kept) (id : AssetId) : (l.putToken id t).Kept := by
  intro j u hu
  rw [tokens_putToken, SortedMap.get?_insert] at hu
  split at hu
  · cases hu
    exact ht
  · exact h j u hu

theorem Kept.setSupply (h : l.Kept) (id : AssetId) (n : Amount) : (l.setSupply id n).Kept := by
  unfold Ledger.setSupply
  split
  · exact h
  · rename_i t ht
    have hk : ({ t with supply := n } : Token).Kept := h id t ht
    exact h.putToken hk id

theorem Kept.takeHolding (h : l.Kept) (ht : l.tokens.get? id = some t) (who : AccountId)
    (b n : Amount) : (l.takeHolding id t who b n).2.Kept := by
  unfold Ledger.takeHolding
  dsimp only
  split
  · exact (h.congr tokens_giveReference).putToken ((h id t ht).erase who) id
  · rename_i hrest
    exact h.putToken ((h id t ht).insert (Nat.le_of_not_lt hrest)) id

theorem minBalance_le_of_checkIncrease {minted : Bool}
    (h : l.checkIncrease id who n minted = .ok t) (hnone : t.holdings.get? who = none) :
    t.minBalance ≤ n := by
  have ht := (checkIncrease_ok h).1
  unfold checkIncrease at h
  rw [ht] at h
  dsimp only at h
  split at h
  · cases h
  · rw [hnone] at h
    dsimp only at h
    split at h
    · cases h
    · rename_i hmin
      exact Nat.le_of_not_lt hmin

theorem Kept.increase (h : l.Kept) (hi : l.increase id who n = .ok l') : l'.Kept := by
  rcases increase_ok hi with ⟨-, rfl⟩ | ⟨t, hcheck, rfl⟩
  · exact h
  · obtain ⟨ht, hroom, -⟩ := checkIncrease_ok hcheck
    unfold addHolding
    split
    · rename_i b hb
      refine h.putToken ((h id t ht).insert ?_) id
      rw [holding_eq ht hb] at hroom
      have hsum : (b.addSat n).toNat = b.toNat + n.toNat := Word.toNat_saturate_of_lt hroom
      rw [Word.le_def, hsum]
      exact Nat.le_trans (h id t ht who b hb) (Nat.le_add_right _ _)
    · rename_i hnone
      have hmin := minBalance_le_of_checkIncrease hcheck hnone
      exact (h.congr tokens_takeReference).putToken ((h id t ht).insert hmin) id

theorem stable_kept : Stable Kept where
  issued _ h := h
  setFree _ _ h := h.congr tokens_setFree
  takeHolding {l l' id t who b n m} ht _ _ htake h := by
    have hrest := h.takeHolding ht who b n
    rwa [htake] at hrest
  increase hi h := h.increase hi
  setSupply id n h := h.setSupply id n

theorem Kept.burn (h : l.Kept) (hb : l.burn who c = .ok (n, l')) : l'.Kept := stable_kept.burn hb h

theorem Kept.transfer {source dest : AccountId} {p : Preservation} (h : l.Kept)
    (ht : l.transfer source dest c p = .ok l') : l'.Kept :=
  stable_kept.transfer ht h

theorem Kept.holds (h : l.Kept) (ha : l.Anchored who) (j : Option AssetId) :
    l.holds who j = 0 ∨ l.least j ≤ l.holds who j := by
  cases j with
  | none =>
    unfold Anchored Account.Anchored at ha
    split at ha
    · rename_i hmin
      exact .inr hmin
    · exact .inl (Word.toNat_eq_zero.2 ha)
  | some id =>
    cases hh : l.holding? id who with
    | none =>
      refine .inl ?_
      rw [holds_some, holding, hh]
      exact Word.toNat_zero
    | some b =>
      obtain ⟨t, ht, hb⟩ := Option.bind_eq_some_iff.1 hh
      rw [least_some ht, holds_some, holding_eq ht hb]
      exact .inr (h id t ht who b hb)

/-- The coin is all that is held, or leaves what may be kept. -/
def Spares (l : Ledger) (who : AccountId) (c : Coin) : Prop :=
  l.holds who c.asset.id? = c.amount.toNat ∨
    c.amount.toNat + l.least c.asset.id? ≤ l.holds who c.asset.id?

theorem Spares.burn (h : l.Spares who c) (ha : l.Anchored who)
    (hb : l.burn who c = .ok (n, l')) : n = c.amount :=
  ((burn_effect hb).2 ha).2 h

/-- Who has a coin more than before can spare it. -/
theorem Kept.spares (h : l.Kept) (ha : l.Anchored who) (hleast : ∀ j, l'.least j = l.least j)
    (hgain : l'.holds who c.asset.id? = l.holds who c.asset.id? + c.amount.toNat) :
    l'.Spares who c := by
  unfold Spares
  rw [hgain, hleast]
  rcases h.holds ha c.asset.id? with hz | hmin
  · exact .inl (by omega)
  · exact .inr (by omega)

end Ledger

theorem Step.kept {s : Settings} {growing : Prop} {c c' : Chain} (h : Step s growing c c')
    (hk : c.ledger.Kept) : c'.ledger.Kept :=
  Ledger.stable_kept.step h hk

theorem Genesis.kept_build {g : Genesis} {s : Settings} {c : Chain} (h : g.build s = .ok c)
    (ht : ∀ e ∈ g.tokens, e.2.Kept) : c.ledger.Kept := by
  obtain ⟨l₁, l₂, l₃, h₁, h₂, h₃, hledger⟩ := ledger_build h
  have hfirst : l₁.Kept := by
    unfold endow at h₁
    split at h₁
    · cases h₁
    · split at h₁
      · cases h₁
      · split at h₁
        · cases h₁
          exact fun id t h => by cases h
        · cases h₁
  have hdefined : l₂.Kept := define_keeps h₂ (fun e he _ hk => hk.putToken (ht e he) _) hfirst
  have hheld : l₃.Kept := hold_keeps h₃ Ledger.stable_kept.mint hdefined
  rw [hledger]
  exact hheld.congr (Ledger.tokens_putAccount _)

end SwapFees
