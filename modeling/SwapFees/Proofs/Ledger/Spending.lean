import SwapFees.Proofs.Ledger.Issued

namespace SwapFees.Ledger

/-- What may be taken of a balance that need not survive. -/
def spendable (l : Ledger) (who : AccountId) : Option AssetId → Amount
  | none => l.reducible who .expendable
  | some id => l.reducibleToken id who

/-- What is kept under a number is not frozen. -/
def Live (l : Ledger) (i : Option AssetId) : Prop :=
  ∀ id ∈ i, ∀ t ∈ l.tokens.get? id, t.frozen = false

instance (l : Ledger) (i : Option AssetId) : Decidable (l.Live i) :=
  inferInstanceAs (Decidable (∀ id ∈ i, ∀ t ∈ l.tokens.get? id, t.frozen = false))

variable {l l' : Ledger} {who source dest : AccountId} {i : Option AssetId} {id : AssetId}
  {t : Token} {n m b : Amount} {c : Coin} {p : Preservation}

theorem reducibleToken_le (l : Ledger) (id : AssetId) (who : AccountId) :
    (l.reducibleToken id who).toNat ≤ l.holds who (some id) ∧
      (l.reducibleToken id who).toNat ≤ l.issued (some id) := by
  by_cases hz : l.reducibleToken id who = 0
  · rw [Word.toNat_eq_zero.2 hz]
    exact ⟨Nat.zero_le _, Nat.zero_le _⟩
  · obtain ⟨t, b, ht, hb, -, hheld, hsupply⟩ := (le_reducibleToken_iff hz).1 (Nat.le_refl _)
    rw [holds_some, holding_eq ht hb, issued_some ht]
    exact ⟨hheld, hsupply⟩

theorem spendable_le (l : Ledger) (who : AccountId) (i : Option AssetId) :
    (l.spendable who i).toNat ≤ l.holds who i := by
  cases i with
  | none => exact l.reducible_le who .expendable
  | some id => exact (l.reducibleToken_le id who).1

theorem spendable_le_issued (hc : l.Covered) (who : AccountId) (i : Option AssetId) :
    (l.spendable who i).toNat ≤ l.issued i := by
  cases i with
  | none =>
    exact Nat.le_trans (l.spendable_le who none)
      (Nat.le_trans (l.free_le_circulating who) (hc none))
  | some id => exact (l.reducibleToken_le id who).2

theorem le_spendable (hlive : l.Live i) (hissued : n.toNat ≤ l.issued i)
    (hkept : l.least i + n.toNat ≤ l.holds who i) : n ≤ l.spendable who i := by
  cases i with
  | none =>
    rw [least_none, holds_none] at hkept
    have hfree : (l.account who).free = l.free who := rfl
    change n.toNat ≤ (l.reducible who .expendable).toNat
    unfold reducible
    dsimp only
    split
    · rw [Word.toNat_subSat, hfree]
      omega
    · rw [hfree]
      omega
  | some id =>
    by_cases hn : n = 0
    · rw [hn, Word.le_def, Word.toNat_zero]
      exact Nat.zero_le _
    have hpos : n.toNat ≠ 0 := fun e => hn (Word.toNat_eq_zero.1 e)
    rw [holds_some] at hkept
    cases hh : l.holding? id who with
    | none =>
      have hz : (l.holding id who).toNat = 0 := by
        rw [holding, hh]
        exact Word.toNat_zero
      omega
    | some b =>
      obtain ⟨t, ht, hb⟩ := Option.bind_eq_some_iff.1 hh
      rw [holding_eq ht hb] at hkept
      rw [issued_some ht] at hissued
      exact (le_reducibleToken_iff hn).2 ⟨t, b, ht, hb, hlive id rfl t ht, by
        rw [Word.le_def]
        omega, hissued⟩

theorem burn_isOk_iff :
    (l.burn who c).isOk = true ↔ c.amount ≤ l.spendable who c.asset.id? := by
  unfold burn spendable
  cases c.asset.id? with
  | none =>
    unfold burnNative
    dsimp only
    split
    · rename_i hlt
      exact ⟨nofun, fun hle => absurd hlt (Nat.not_lt.2 hle)⟩
    · rename_i hlt
      exact ⟨fun _ => Nat.le_of_not_lt hlt, fun _ => rfl⟩
  | some id =>
    unfold burnToken
    dsimp only
    split
    · rename_i hlt
      exact ⟨nofun, fun hle => absurd hlt (Nat.not_lt.2 hle)⟩
    · rename_i hlt
      refine ⟨fun _ => Nat.le_of_not_lt hlt, fun hle => ?_⟩
      split
      · rfl
      · rename_i hn
        obtain ⟨t, b, ht, -⟩ := (le_reducibleToken_iff hn).1 hle
        rw [ht]
        rfl

theorem keep_iff {min : Amount} (hle : n ≤ b) :
    ¬ (b.subSat n < min ∧ p ≠ .expendable) ↔ p = .expendable ∨ min.toNat + n.toNat ≤ b.toNat := by
  have hle : n.toNat ≤ b.toNat := hle
  have hrest : b.subSat n < min ↔ ¬ min.toNat + n.toNat ≤ b.toNat := by
    rw [Word.lt_def, Word.toNat_subSat]
    omega
  rw [hrest]
  by_cases hp : p = .expendable <;> simp [hp]

theorem transferNative_isOk_iff (hissued : n ≤ l.issuance) :
    (l.transferNative source dest n p).isOk = true ↔
      n ≤ l.reducible source .expendable ∧
        (p = .expendable ∨ l.minBalance.toNat + n.toNat ≤ (l.free source).toNat) ∧
        (l.checkDeposit dest n).isOk = true := by
  have hissued : ¬ l.issuance < n := Nat.not_lt.2 hissued
  unfold transferNative
  rw [if_neg hissued]
  by_cases hred : n ≤ l.reducible source .expendable
  · have hfree : n ≤ l.free source := Nat.le_trans hred (l.reducible_le source .expendable)
    have hfree' : ¬ l.free source < n := Nat.not_lt.2 hfree
    have hred' : ¬ l.reducible source .expendable < n := Nat.not_lt.2 hred
    rw [if_neg hfree', if_neg hred', ← keep_iff hfree]
    split
    · rename_i hkeep
      exact ⟨nofun, fun h => absurd hkeep h.2.1⟩
    · rename_i hkeep
      cases l.checkDeposit dest n with
      | error e => exact ⟨nofun, fun h => nomatch h.2.2⟩
      | ok u =>
        refine ⟨fun _ => ⟨hred, hkeep, rfl⟩, fun _ => ?_⟩
        dsimp only
        split <;> rfl
  · have hred' : l.reducible source .expendable < n := Nat.lt_of_not_le hred
    refine ⟨fun h => ?_, fun h => absurd h.1 hred⟩
    split at h
    · cases h
    · cases h

theorem transferToken_isOk_iff (hn : n ≠ 0) :
    (l.transferToken id source dest n p).isOk = true ↔
      n ≤ l.reducibleToken id source ∧
        (p = .expendable ∨ l.least (some id) + n.toNat ≤ l.holds source (some id)) ∧
        (l.checkIncrease id dest n false).isOk = true := by
  constructor
  · intro h
    rcases hrun : l.transferToken id source dest n p with _ | l'
    · rw [hrun] at h
      cases h
    · obtain ⟨t, b, m, l₁, t', ht, hb, hle, hfrozen, hkeep, hcheck, -⟩ := transferToken_ok hrun
      have hsupply : n ≤ t.supply := Nat.le_of_not_lt fun hlt => by
        have hlt : t.supply < n := hlt
        simp [transferToken, ht, hlt] at hrun
      rw [least_some ht, holds_some, holding_eq ht hb, ← keep_iff hle, hcheck]
      refine ⟨(le_reducibleToken_iff hn).2 ⟨t, b, ht, hb, hfrozen, hle, hsupply⟩, ?_, rfl⟩
      rintro ⟨hlt, hp⟩
      exact absurd (hkeep hp) (Nat.not_le.2 hlt)
  · rintro ⟨hred, hkeep, hcheck⟩
    obtain ⟨t, b, ht, hb, hfrozen, hle, hsupply⟩ := (le_reducibleToken_iff hn).1 hred
    rw [least_some ht, holds_some, holding_eq ht hb, ← keep_iff hle] at hkeep
    have hle' : ¬ b < n := Nat.not_lt.2 hle
    have hsupply' : ¬ t.supply < n := Nat.not_lt.2 hsupply
    unfold transferToken
    simp only [ht, hb, hsupply', hfrozen, hle', hkeep, if_false, Bool.false_eq_true]
    split
    · rename_i e he
      rw [he] at hcheck
      cases hcheck
    · split <;> rfl

/-- A coin is transferred exactly when its sender may spend it, keeps the minimum if it must, and
the receiver can take it. -/
theorem transfer_isOk_iff (hn : c.amount ≠ 0) (hissued : c.amount.toNat ≤ l.issued c.asset.id?) :
    (l.transfer source dest c p).isOk = true ↔
      c.amount ≤ l.spendable source c.asset.id? ∧
        (p = .expendable ∨
          l.least c.asset.id? + c.amount.toNat ≤ l.holds source c.asset.id?) ∧
        l.canReceive dest c = true := by
  unfold transfer canReceive spendable
  cases hid : c.asset.id? with
  | none =>
    rw [hid] at hissued
    exact transferNative_isOk_iff hissued
  | some id => exact transferToken_isOk_iff hn

theorem transfer_drops (hne : source ≠ dest) (h : l.transfer source dest c p = .ok l')
    (ha : l.Anchored source)
    (hdrop : ¬ l.least c.asset.id? + c.amount.toNat ≤ l.holds source c.asset.id?) :
    l'.holds source c.asset.id? = 0 := by
  unfold transfer at h
  split at h
  · rename_i hid
    rw [hid] at hdrop ⊢
    obtain ⟨hle, -, -, l₁, hl₁, e⟩ := transferNative_ok h
    rw [if_neg hne] at e
    have hrest : ¬ l.minBalance ≤ (l.free source).subSat c.amount := by
      have hle : c.amount.toNat ≤ (l.free source).toNat := hle
      rw [least_none, holds_none] at hdrop
      rw [Word.le_def, Word.toNat_subSat]
      omega
    have hfree := free_setFree ha ((l.free source).subSat c.amount)
    rw [if_neg hrest, ← hl₁] at hfree
    rw [e, ((only_setFree l₁ dest _).others source hne).holds, holds_none, hfree]
    exact Word.toNat_zero
  · rename_i id hid
    rw [hid] at hdrop ⊢
    obtain ⟨t, b, m, l₁, t', ht, hb, hle, -, -, -, htake, e⟩ := transferToken_ok h
    rw [if_neg hne] at e
    have hrest : b.subSat c.amount < t.minBalance := by
      have hle : c.amount.toNat ≤ b.toNat := hle
      rw [least_some ht, holds_some, holding_eq ht hb] at hdrop
      rw [Word.lt_def, Word.toNat_subSat]
      omega
    have hnone : l₁.holds source (some id) = 0 := by
      have hheld : (l.takeHolding id t source b c.amount).2.holds source (some id) = _ :=
        holds_takeHolding
      rwa [if_pos hrest, htake] at hheld
    rcases hi : l₁.increase id dest c.amount with _ | l₂
    · rw [hi] at e
      exact e ▸ hnone
    · rw [hi] at e
      exact e ▸ (((receives_increase hi).1.others source hne).holds _).trans hnone

/-- Who keeps the minimum may still spend what the transfer left of what could be spent before. -/
theorem transfer_leaves (hne : source ≠ dest) (h : l.transfer source dest c p = .ok l')
    (ha : l.Anchored source)
    (hkept : l.least c.asset.id? + c.amount.toNat ≤ l.holds source c.asset.id?)
    (hm : c.amount.toNat + m.toNat ≤ (l.spendable source c.asset.id?).toNat) :
    m ≤ l'.spendable source c.asset.id? := by
  have hleast := transfer_least h
  unfold transfer at h
  split at h
  · rename_i hid
    rw [hid] at hkept hm ⊢
    obtain ⟨-, -, -, l₁, hl₁, e⟩ := transferNative_ok h
    rw [if_neg hne] at e
    have hsame : l'.account source = l₁.account source :=
      e ▸ ((only_setFree l₁ dest _).others source hne).account
    rw [hl₁, account_setFree_of_kept ha hkept] at hsame
    exact le_reducible_of_kept (minBalance_eq hleast) hsame hm
  · rename_i id hid
    rw [hid] at hkept hm ⊢
    obtain ⟨t, b, k, l₁, t', ht, hb, -, -, -, -, htake, e⟩ := transferToken_ok h
    rw [if_neg hne] at e
    rw [least_some ht, holds_some, holding_eq ht hb] at hkept
    have hrest : ¬ b.subSat c.amount < t.minBalance := by
      rw [Word.lt_def, Word.toNat_subSat]
      omega
    have hleft := le_reducibleToken_of_kept ht hm hb
    rw [takeHolding_of_kept hrest] at htake
    rw [(Prod.mk.inj htake).2] at hleft
    change m ≤ l'.reducibleToken id source
    rcases hi : l₁.increase id dest c.amount with _ | l₂
    · rw [hi] at e
      exact e ▸ hleft
    · rw [hi] at e
      have e : l' = l₂ := e
      rwa [e, reducibleToken_increase hi hne]

/-- Once part of what could be spent was transferred, the rest can be burned exactly when the
minimum stayed behind. -/
theorem burn_after_transfer (hne : source ≠ dest) (h : l.transfer source dest c p = .ok l')
    (ha : l.Anchored source) (hm : m ≠ 0)
    (hsum : c.amount.toNat + m.toNat ≤ (l.spendable source c.asset.id?).toNat) :
    (l'.burn source (c.withAmount m)).isOk = true ↔
      l.least c.asset.id? + c.amount.toNat ≤ l.holds source c.asset.id? := by
  rw [burn_isOk_iff]
  constructor
  · intro hle
    refine Decidable.byContradiction fun hdrop => ?_
    have hnone := transfer_drops hne h ha hdrop
    have hspend := l'.spendable_le source c.asset.id?
    have hle : m.toNat ≤ (l'.spendable source c.asset.id?).toNat := hle
    exact hm (Word.toNat_eq_zero.1 (by omega))
  · intro hkept
    have hleft := transfer_leaves hne h ha hkept hsum
    exact hleft

end SwapFees.Ledger
