import SwapFees.Ledger.Coins

namespace SwapFees

/-- A balance of at least the minimum keeps the account alive, and no smaller one is kept. -/
def Account.Anchored (min : Amount) (a : Account) : Prop :=
  if min ≤ a.free then 0 < a.providers else a.free = 0

instance (min : Amount) (a : Account) : Decidable (a.Anchored min) :=
  inferInstanceAs (Decidable (if min ≤ a.free then 0 < a.providers else a.free = 0))

theorem Account.Anchored.congr {min : Amount} {a b : Account} (h : a.Anchored min)
    (hf : b.free = a.free) (hp : b.providers = a.providers) : b.Anchored min := by
  unfold Anchored at h ⊢
  rwa [hf, hp]

namespace Ledger

/-- What `who` holds under a number; the native currency has none. -/
def holds (l : Ledger) (who : AccountId) : Option AssetId → Nat
  | none => (l.free who).toNat
  | some id => (l.holding id who).toNat

theorem toNat_balance (l : Ledger) (who : AccountId) (a : Asset) :
    (l.balance who a).toNat = l.holds who a.id? := by
  unfold balance
  cases a.id? <;> rfl

/-- The least balance kept under a number. -/
def least (l : Ledger) : Option AssetId → Nat
  | none => l.minBalance.toNat
  | some id => ((l.tokens.get? id).map fun t => t.minBalance.toNat).getD 0

@[simp] theorem holds_none (l : Ledger) (who : AccountId) : l.holds who none = (l.free who).toNat := rfl

@[simp] theorem holds_some (l : Ledger) (who : AccountId) (id : AssetId) :
    l.holds who (some id) = (l.holding id who).toNat := rfl

@[simp] theorem least_none (l : Ledger) : l.least none = l.minBalance.toNat := rfl

def Anchored (l : Ledger) (who : AccountId) : Prop := (l.account who).Anchored l.minBalance

instance (l : Ledger) (who : AccountId) : Decidable (l.Anchored who) :=
  inferInstanceAs (Decidable (Account.Anchored _ _))

/-- The two ledgers tell `who` the same. -/
structure SameFor (who : AccountId) (l l' : Ledger) : Prop where
  least : ∀ j, l'.least j = l.least j
  account : l'.account who = l.account who
  holding : ∀ id, l'.holding? id who = l.holding? id who

/-- Nothing but what `who` holds under `i` differs. That an account not anchored might vanish is
left open. -/
structure Only (l : Ledger) (i : Option AssetId) (who : AccountId) (l' : Ledger) : Prop where
  least : ∀ j, l'.least j = l.least j
  others : ∀ q, q ≠ who → SameFor q l l'
  rest : l.Anchored who → ∀ j, j ≠ i → l'.holds who j = l.holds who j
  anchored : l.Anchored who → l'.Anchored who

/-- `n` of what `who` holds under `i` is taken, and with it perhaps a rest too small to be kept. -/
def Pays (l : Ledger) (who : AccountId) (i : Option AssetId) (n : Nat) (l' : Ledger) : Prop :=
  n ≤ l.holds who i ∧
    (l'.holds who i = l.holds who i - n ∨ l.holds who i - n < l.least i ∧ l'.holds who i = 0)

/-- `who` paid `n` under `i`, and holds the same as before under any other number. -/
structure Charged (l : Ledger) (who : AccountId) (i : Option AssetId) (n : Nat) (l' : Ledger) :
    Prop where
  least : ∀ j, l'.least j = l.least j
  anchored : l'.Anchored who
  pays : l.Pays who i n l'
  rest : ∀ j, j ≠ i → l'.holds who j = l.holds who j

/-- `who` received `n` under `i`, and holds the same as before under any other number. -/
structure Credited (l : Ledger) (who : AccountId) (i : Option AssetId) (n : Nat) (l' : Ledger) :
    Prop where
  least : ∀ j, l'.least j = l.least j
  anchored : l'.Anchored who
  holds : l'.holds who i = l.holds who i + n
  rest : ∀ j, j ≠ i → l'.holds who j = l.holds who j

variable {l l' l'' : Ledger} {who : AccountId} {i : Option AssetId} {n m : Nat}

theorem minBalance_eq (h : ∀ j, l'.least j = l.least j) : l'.minBalance = l.minBalance :=
  Word.ext (h none)

namespace SameFor

theorem refl (who : AccountId) (l : Ledger) : SameFor who l l := ⟨fun _ => rfl, rfl, fun _ => rfl⟩

theorem trans (h : SameFor who l l') (h' : SameFor who l' l'') : SameFor who l l'' where
  least j := (h'.least j).trans (h.least j)
  account := h'.account.trans h.account
  holding id := (h'.holding id).trans (h.holding id)

theorem holds (h : SameFor who l l') (j : Option AssetId) : l'.holds who j = l.holds who j := by
  cases j with
  | none => exact congrArg (fun a => a.free.toNat) h.account
  | some id => exact congrArg (fun o => (o.getD 0).toNat) (h.holding id)

theorem anchored (h : SameFor who l l') (ha : l.Anchored who) : l'.Anchored who := by
  unfold Anchored at ha ⊢
  rwa [h.account, minBalance_eq h.least]

end SameFor

namespace Only

theorem refl (l : Ledger) (i : Option AssetId) (who : AccountId) : l.Only i who l where
  least _ := rfl
  others q _ := .refl q l
  rest _ _ _ := rfl
  anchored h := h

theorem trans (h : l.Only i who l') (h' : l'.Only i who l'') : l.Only i who l'' where
  least j := (h'.least j).trans (h.least j)
  others q hq := (h.others q hq).trans (h'.others q hq)
  rest ha j hj := (h'.rest (h.anchored ha) j hj).trans (h.rest ha j hj)
  anchored ha := h'.anchored (h.anchored ha)

end Only

theorem Only.anchored_at (h : l.Only i who l') {q : AccountId} (ha : l.Anchored q) :
    l'.Anchored q := by
  by_cases hq : q = who
  · rw [hq] at ha ⊢
    exact h.anchored ha
  · exact (h.others q hq).anchored ha

namespace Pays

/-- Two payments are one: the second cannot take anything of a rest that is gone. -/
theorem trans (h : l.Pays who i n l') (h' : l'.Pays who i m l'') (hl : l'.least i = l.least i) :
    l.Pays who i (n + m) l'' := by
  obtain ⟨hn, h⟩ := h
  obtain ⟨hm, h'⟩ := h'
  rw [hl] at h'
  unfold Pays
  omega

theorem holds_eq (h : l.Pays who i n l') (hrest : l.holds who i = n ∨ n + l.least i ≤ l.holds who i) :
    l'.holds who i + n = l.holds who i := by
  obtain ⟨hn, h⟩ := h
  omega

end Pays

namespace Charged

theorem zero (ha : l.Anchored who) (i : Option AssetId) : l.Charged who i 0 l where
  least _ := rfl
  anchored := ha
  pays := ⟨Nat.zero_le _, .inl rfl⟩
  rest _ _ := rfl

theorem trans (h : l.Charged who i n l') (h' : l'.Charged who i m l'') :
    l.Charged who i (n + m) l'' where
  least j := (h'.least j).trans (h.least j)
  anchored := h'.anchored
  pays := h.pays.trans h'.pays (h.least i)
  rest j hj := (h'.rest j hj).trans (h.rest j hj)

theorem sameFor (h : l.Charged who i n l') (h' : SameFor who l' l'') : l.Charged who i n l'' where
  least j := (h'.least j).trans (h.least j)
  anchored := h'.anchored h.anchored
  pays := by
    unfold Pays
    rw [h'.holds i]
    exact h.pays
  rest j hj := (h'.holds j).trans (h.rest j hj)

end Charged

namespace Credited

theorem zero (ha : l.Anchored who) (i : Option AssetId) : l.Credited who i 0 l where
  least _ := rfl
  anchored := ha
  holds := rfl
  rest _ _ := rfl

theorem sameFor (h : l.Credited who i n l') (h' : SameFor who l' l'') :
    l.Credited who i n l'' where
  least j := (h'.least j).trans (h.least j)
  anchored := h'.anchored h.anchored
  holds := (h'.holds i).trans h.holds
  rest j hj := (h'.holds j).trans (h.rest j hj)

theorem same (h : l.Credited who i 0 l') (j : Option AssetId) : l'.holds who j = l.holds who j := by
  by_cases hj : j = i
  · rw [hj]
    exact h.holds
  · exact h.rest j hj

theorem after {j : Option AssetId} (h : l.Credited who i 0 l') (h' : l'.Credited who j n l'') :
    l.Credited who j n l'' where
  least k := (h'.least k).trans (h.least k)
  anchored := h'.anchored
  holds := h.same j ▸ h'.holds
  rest k hk := (h'.rest k hk).trans (h.same k)

/-- Passing on what was received leaves everything as it was, as long as it may be kept. -/
theorem spend (h : l.Credited who i n l') (h' : l'.Charged who i n l'')
    (hkept : l.holds who i = 0 ∨ l.least i ≤ l.holds who i) : l.Credited who i 0 l'' where
  least j := (h'.least j).trans (h.least j)
  anchored := h'.anchored
  holds := by
    have hheld := h.holds
    have hleast := h.least i
    have := h'.pays.holds_eq (by omega)
    omega
  rest j hj := (h'.rest j hj).trans (h.rest j hj)

end Credited

theorem Only.charged (h : l.Only i who l') (ha : l.Anchored who) (hp : l.Pays who i n l') :
    l.Charged who i n l' :=
  ⟨h.least, h.anchored ha, hp, h.rest ha⟩

theorem Only.credited (h : l.Only i who l') (ha : l.Anchored who)
    (hh : l'.holds who i = l.holds who i + n) : l.Credited who i n l' :=
  ⟨h.least, h.anchored ha, hh, h.rest ha⟩

@[simp] theorem least_putAccount (a : Account) (j : Option AssetId) :
    (l.putAccount who a).least j = l.least j := by
  unfold putAccount
  split <;> cases j <;> rfl

@[simp] theorem tokens_putAccount (a : Account) : (l.putAccount who a).tokens = l.tokens := by
  unfold putAccount
  split <;> rfl

@[simp] theorem minBalance_putAccount (a : Account) :
    (l.putAccount who a).minBalance = l.minBalance := by
  unfold putAccount
  split <;> rfl

@[simp] theorem issuance_putAccount (a : Account) : (l.putAccount who a).issuance = l.issuance := by
  unfold putAccount
  split <;> rfl

theorem account_putAccount_self (a : Account) :
    (l.putAccount who a).account who = if a.providers = 0 ∧ a.sufficients = 0 then {} else a := by
  unfold putAccount account
  split <;> simp

theorem account_putAccount_of_ne (a : Account) {q : AccountId} (hq : q ≠ who) :
    (l.putAccount who a).account q = l.account q := by
  unfold putAccount account
  split
  · simp [SortedMap.get?_erase_of_ne _ hq.symm]
  · simp [SortedMap.get?_insert_of_ne _ _ hq.symm]

@[simp] theorem holding?_putAccount (a : Account) (id : AssetId) (q : AccountId) :
    (l.putAccount who a).holding? id q = l.holding? id q := by
  simp [holding?]

theorem sameFor_putAccount (a : Account) {q : AccountId} (hq : q ≠ who) :
    SameFor q l (l.putAccount who a) where
  least _ := least_putAccount a _
  account := account_putAccount_of_ne a hq
  holding _ := holding?_putAccount a _ _

/-- An anchored account stays what it was put to, except that an empty one may go. -/
theorem free_putAccount {a : Account} (h : a.Anchored l.minBalance) :
    (l.putAccount who a).free who = a.free ∧ (l.putAccount who a).Anchored who := by
  unfold free Anchored
  rw [account_putAccount_self, minBalance_putAccount]
  split
  · rename_i hz
    unfold Account.Anchored at h ⊢
    split at h
    · omega
    · rename_i hlt
      rw [h] at hlt
      exact ⟨h.symm, by rw [if_neg hlt]⟩
  · exact ⟨rfl, h⟩

theorem only_putAccount {a : Account} (hf : a.free = l.free who)
    (hp : a.providers = (l.account who).providers) (i : Option AssetId) :
    l.Only i who (l.putAccount who a) where
  least _ := least_putAccount a _
  others _ hq := sameFor_putAccount a hq
  rest ha j _ := by
    cases j with
    | none => exact congrArg Word.toNat ((free_putAccount (ha.congr hf hp)).1.trans hf)
    | some id => simp [holds, holding]
  anchored ha := (free_putAccount (ha.congr hf hp)).2

@[simp] theorem tokens_putToken (id : AssetId) (t : Token) :
    (l.putToken id t).tokens = l.tokens.insert id t := rfl

theorem holding?_putToken (id j : AssetId) (t : Token) (q : AccountId) :
    (l.putToken id t).holding? j q = if id = j then t.holdings.get? q else l.holding? j q := by
  unfold holding? putToken
  by_cases h : id = j
  · subst h
    simp
  · simp [SortedMap.get?_insert_of_ne _ _ h, h]

theorem least_putToken {id : AssetId} {t t' : Token} (ht : l.tokens.get? id = some t)
    (hm : t'.minBalance = t.minBalance) (j : Option AssetId) :
    (l.putToken id t').least j = l.least j := by
  cases j with
  | none => rfl
  | some j =>
    unfold least putToken
    by_cases h : id = j
    · subst h
      simp [ht, hm]
    · simp [SortedMap.get?_insert_of_ne _ _ h]

theorem only_putToken {id : AssetId} {t t' : Token} (ht : l.tokens.get? id = some t)
    (hm : t'.minBalance = t.minBalance)
    (hh : ∀ q, q ≠ who → t'.holdings.get? q = t.holdings.get? q) :
    l.Only (some id) who (l.putToken id t') where
  least := least_putToken ht hm
  others q hq := by
    refine ⟨least_putToken ht hm, rfl, fun j => ?_⟩
    rw [holding?_putToken]
    split
    · rename_i e
      rw [hh q hq, ← e, holding?, ht]
      rfl
    · rfl
  rest _ j hj := by
    cases j with
    | none => rfl
    | some j =>
      have hne : id ≠ j := fun e => hj (congrArg some e.symm)
      simp [holds, holding, holding?_putToken, hne]
  anchored h := h

end Ledger

end SwapFees
