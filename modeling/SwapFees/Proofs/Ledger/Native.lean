import SwapFees.Proofs.Ledger.Balance

namespace SwapFees

/-- The account with a balance of `n`, or with nothing if that is too small to be kept. -/
def Account.keeping (min : Amount) (a : Account) (n : Amount) : Account :=
  let held := min ≤ a.free
  if min ≤ n then { a with free := n, providers := if held then a.providers else a.providers + 1 }
  else { a with free := 0, providers := if held then a.providers - 1 else a.providers }

theorem Account.free_keeping (min : Amount) (a : Account) (n : Amount) :
    (a.keeping min n).free = if min ≤ n then n else 0 := by
  unfold keeping
  dsimp only
  split <;> rfl

theorem Account.Anchored.keeping {min : Amount} {a : Account} (h : a.Anchored min) (n : Amount) :
    (a.keeping min n).Anchored min := by
  unfold Account.keeping
  dsimp only
  by_cases hn : min ≤ n
  · rw [if_pos hn]
    unfold Anchored at h ⊢
    rw [if_pos hn]
    split
    · rename_i hheld
      rwa [if_pos hheld] at h
    · exact Nat.succ_pos _
  · rw [if_neg hn]
    unfold Anchored
    have hz : ¬ min ≤ (0 : Amount) := fun h0 => hn (Nat.le_trans h0 (by rw [Word.toNat_zero]; omega))
    rw [if_neg hz]

namespace Ledger

variable {l l' : Ledger} {who : AccountId} {n m : Amount}

theorem setFree_eq (l : Ledger) (who : AccountId) (n : Amount) :
    l.setFree who n =
      { l.putAccount who ((l.account who).keeping l.minBalance n) with
        issuance := if l.minBalance ≤ n then l.issuance else l.issuance.subSat n } := by
  unfold setFree Account.keeping
  dsimp only
  by_cases hn : l.minBalance ≤ n
  · simp only [if_pos hn]
    rw [← issuance_putAccount]
  · simp only [if_neg hn]

@[simp] theorem tokens_setFree : (l.setFree who n).tokens = l.tokens := by
  rw [setFree_eq]
  exact tokens_putAccount _

theorem Only.withIssuance {i : Option AssetId} (h : l.Only i who l') (n : Amount) :
    l.Only i who { l' with issuance := n } where
  least j := by
    rw [← h.least j]
    cases j <;> rfl
  others q hq := by
    obtain ⟨hl, ha, hh⟩ := h.others q hq
    refine ⟨fun j => ?_, ha, hh⟩
    rw [← hl j]
    cases j <;> rfl
  rest ha j hj := by
    rw [← h.rest ha j hj]
    cases j <;> rfl
  anchored := h.anchored

theorem only_setFree (l : Ledger) (who : AccountId) (n : Amount) :
    l.Only none who (l.setFree who n) := by
  rw [setFree_eq]
  apply Only.withIssuance
  refine ⟨least_putAccount _, fun q hq => sameFor_putAccount _ hq, fun _ j hj => ?_, fun ha => ?_⟩
  · cases j with
    | none => exact absurd rfl hj
    | some id => simp [holds, holding]
  · exact (free_putAccount (ha.keeping n)).2

theorem free_setFree (ha : l.Anchored who) (n : Amount) :
    (l.setFree who n).free who = if l.minBalance ≤ n then n else 0 := by
  rw [setFree_eq, ← Account.free_keeping l.minBalance (l.account who) n]
  exact (free_putAccount (ha.keeping n)).1

theorem pays_setFree (ha : l.Anchored who) (hn : n ≤ l.free who) :
    l.Pays who none n.toNat (l.setFree who ((l.free who).subSat n)) := by
  refine ⟨hn, ?_⟩
  rw [holds_none, holds_none, least_none, free_setFree ha]
  split
  · exact .inl rfl
  · rename_i h
    exact .inr ⟨Nat.lt_of_not_le h, Word.toNat_zero⟩

theorem reducible_le (l : Ledger) (who : AccountId) (p : Preservation) :
    l.reducible who p ≤ l.free who := by
  unfold reducible
  dsimp only
  split <;> split
  · exact Nat.sub_le _ _
  · exact Nat.le_refl _
  · exact Nat.sub_le _ _
  · exact Nat.le_refl _
  · exact Nat.sub_le _ _
  · exact Nat.le_refl _

theorem account_setFree_of_kept (ha : l.Anchored who)
    (hkept : l.minBalance.toNat + n.toNat ≤ (l.free who).toNat) :
    (l.setFree who ((l.free who).subSat n)).account who =
      { l.account who with free := (l.free who).subSat n } := by
  have hheld : l.minBalance ≤ (l.account who).free := Nat.le_of_add_right_le hkept
  have hrest : l.minBalance ≤ (l.free who).subSat n := Nat.le_sub_of_add_le hkept
  have hproviders : 0 < (l.account who).providers := by
    unfold Anchored Account.Anchored at ha
    rwa [if_pos hheld] at ha
  have halive : ¬ ((l.account who).providers = 0 ∧ (l.account who).sufficients = 0) := fun h =>
    absurd h.1 (Nat.ne_of_gt hproviders)
  rw [setFree_eq]
  unfold Account.keeping
  rw [if_pos hrest]
  dsimp only
  simp only [hheld, if_true]
  exact (account_putAccount_self _).trans (if_neg halive)

theorem reducible_expendable (l : Ledger) (who : AccountId) :
    l.reducible who .expendable =
      if l.free who = 0 ∨ (l.account who).canDropProvider = true then l.free who
      else (l.free who).subSat l.minBalance := by
  have hfree : (l.account who).free = l.free who := rfl
  unfold reducible
  dsimp only
  rw [hfree]
  by_cases hz : l.free who = 0
  · simp [hz]
  · cases (l.account who).canDropProvider <;> simp [hz]

theorem le_reducible_of_kept (hmin : l'.minBalance = l.minBalance)
    (hsame : l'.account who = { l.account who with free := (l.free who).subSat n })
    (hm : n.toNat + m.toNat ≤ (l.reducible who .expendable).toNat) :
    m ≤ l'.reducible who .expendable := by
  have hfree : l'.free who = (l.free who).subSat n := congrArg Account.free hsame
  have hdrop : (l'.account who).canDropProvider = (l.account who).canDropProvider := by
    rw [hsame]
    rfl
  have hle : n.toNat + m.toNat ≤ (l.free who).toNat := Nat.le_trans hm (l.reducible_le who _)
  rw [reducible_expendable] at hm
  rw [Word.le_def, reducible_expendable, hmin, hfree, hdrop]
  split
  · rw [Word.toNat_subSat]
    omega
  · rename_i hpart
    -- Something is left, so there was something before.
    have hpart' : ¬ (l.free who = 0 ∨ (l.account who).canDropProvider = true) := fun h => by
      refine hpart (h.imp_left fun hz => ?_)
      rw [hz]
      exact Word.ext (by simp)
    rw [if_neg hpart', Word.toNat_subSat] at hm
    rw [Word.toNat_subSat, Word.toNat_subSat]
    omega

theorem burnNative_ok (h : l.burnNative who n = .ok l') :
    n ≤ l.free who ∧ ∃ issuance : Amount,
      issuance = (l.setFree who ((l.free who).subSat n)).issuance.subSat n ∧
      l' = { l.setFree who ((l.free who).subSat n) with issuance } := by
  unfold burnNative at h
  split at h
  · cases h
  · rename_i hn
    cases h
    exact ⟨Nat.le_trans (Nat.le_of_not_lt hn) (l.reducible_le who .expendable), _, rfl, rfl⟩

theorem mintNative_ok (h : l.mintNative who n = .ok l') :
    ∃ issuance total : Amount, issuance.toNat = l.issuance.toNat + n.toNat ∧
      total.toNat = (l.free who).toNat + n.toNat ∧ l.minBalance ≤ total ∧
      l' = { l.setFree who total with issuance } := by
  unfold mintNative at h
  split at h
  · rename_i issuance total hi ht
    split at h
    · cases h
    · rename_i hm
      cases h
      exact ⟨issuance, total, Word.add?_eq_some.1 hi, Word.add?_eq_some.1 ht, Nat.le_of_not_lt hm, rfl⟩
  · cases h

theorem checkDeposit_ok (h : l.checkDeposit who n = .ok ()) (hn : n ≠ 0) :
    (l.free who).toNat + n.toNat < 2 ^ (128 : Nat) ∧
      l.minBalance.toNat ≤ (l.free who).toNat + n.toNat := by
  unfold checkDeposit at h
  rw [if_neg hn] at h
  split at h
  · cases h
  · rename_i total ht
    have htotal := Word.add?_eq_some.1 ht
    split at h
    · cases h
    · rename_i hm
      have hm := Nat.le_of_not_lt hm
      have := total.isLt
      omega

variable {source dest : AccountId} {p : Preservation}

theorem transferNative_ok (h : l.transferNative source dest n p = .ok l') :
    n ≤ l.free source ∧
      (p ≠ .expendable → l.minBalance.toNat ≤ (l.free source).toNat - n.toNat) ∧
      l.checkDeposit dest n = .ok () ∧
      ∃ l₁, l₁ = l.setFree source ((l.free source).subSat n) ∧
        l' = if source = dest then l else l₁.setFree dest ((l₁.free dest).addSat n) := by
  unfold transferNative at h
  split at h
  · cases h
  split at h
  · cases h
  rename_i hfree
  split at h
  · cases h
  split at h
  · cases h
  rename_i hkeep
  split at h
  · cases h
  rename_i hdeposit
  refine ⟨Nat.le_of_not_lt hfree, fun hp => ?_, hdeposit, _, rfl, ?_⟩
  · exact Nat.le_of_not_lt fun hlt => hkeep ⟨hlt, hp⟩
  · split at h
    · rename_i e
      cases h
      rw [if_pos e]
    · rename_i e
      cases h
      rw [if_neg e]

theorem transferNative_effect (hne : source ≠ dest)
    (h : l.transferNative source dest n p = .ok l') :
    ∃ l₁, l.Only none source l₁ ∧ l₁.Only none dest l' ∧
      (l.Anchored source → l.Pays source none n.toNat l₁) ∧
      (p ≠ .expendable → l.least none ≤ l.holds source none - n.toNat) ∧
      (l.Anchored dest → n ≠ 0 → l'.holds dest none = l.holds dest none + n.toNat) := by
  obtain ⟨hle, hkeep, hcheck, l₁, hl₁, e⟩ := transferNative_ok h
  rw [if_neg hne] at e
  subst e
  -- The receiver is read after the sender was charged, which does not concern it.
  have hpaid := only_setFree l source ((l.free source).subSat n)
  rw [← hl₁] at hpaid
  have hsame := hpaid.others dest hne.symm
  have hfree : l₁.free dest = l.free dest := congrArg Account.free hsame.account
  refine ⟨l₁, hpaid, only_setFree _ _ _, fun ha => hl₁ ▸ pays_setFree ha hle, hkeep, fun ha hn => ?_⟩
  obtain ⟨hfits, hmin⟩ := checkDeposit_ok hcheck hn
  have hsum : ((l.free dest).addSat n).toNat = (l.free dest).toNat + n.toNat :=
    Word.toNat_saturate_of_lt hfits
  have hleast : l₁.minBalance ≤ (l.free dest).addSat n := by
    rw [minBalance_eq hpaid.least, Word.le_def, hsum]
    exact hmin
  rw [holds_none, free_setFree (hsame.anchored ha), hfree, if_pos hleast, holds_none, hsum]

end Ledger

end SwapFees
