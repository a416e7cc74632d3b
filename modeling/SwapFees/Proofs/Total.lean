import SwapFees.SortedMap

namespace SwapFees

open Ranked

section Entries

variable {κ υ : Type} (f : υ → Nat)

/-- What an optional value adds to a sum. -/
def weigh (o : Option υ) : Nat := (o.map f).getD 0

@[simp] theorem weigh_none : weigh f none = 0 := rfl

@[simp] theorem weigh_some (v : υ) : weigh f (some v) = f v := rfl

def sumEntries (es : List (κ × υ)) : Nat := (es.map fun e => f e.2).sum

@[simp] theorem sumEntries_cons (e : κ × υ) (es : List (κ × υ)) :
    sumEntries f (e :: es) = f e.2 + sumEntries f es := rfl

variable [Ranked κ]

theorem findEntry_of_lt {k : κ} {es : List (κ × υ)} (h : ∀ e ∈ es, rank k < rank e.1) :
    findEntry k es = none :=
  findEntry_eq_none.2 fun e he => (Nat.ne_of_lt (h e he)).symm

theorem sumEntries_put (k : κ) (v : υ) {es : List (κ × υ)} (h : Increasing es) :
    sumEntries f (putEntry k v es) + weigh f (findEntry k es) = sumEntries f es + f v := by
  induction es with
  | nil => simp [putEntry, findEntry, sumEntries]
  | cons x es ih =>
    obtain ⟨hx, hs⟩ := List.pairwise_cons.1 h
    -- `k` comes before the first entry, or in its place, or behind it.
    rw [putEntry]
    split
    · rename_i hk
      have hn : findEntry k (x :: es) = none := by
        apply findEntry_of_lt
        intro e he
        rcases List.mem_cons.1 he with rfl | he
        · exact hk
        · exact Nat.lt_trans hk (hx e he)
      simp only [hn, sumEntries_cons, weigh_none]
      omega
    · split
      · rename_i hk
        simp only [findEntry, hk, if_true, sumEntries_cons, weigh_some]
        omega
      · rename_i hk
        have := ih hs
        simp only [findEntry, Ne.symm hk, if_false, sumEntries_cons]
        omega

theorem sumEntries_drop (k : κ) {es : List (κ × υ)} (h : Increasing es) :
    sumEntries f (dropEntry k es) + weigh f (findEntry k es) = sumEntries f es := by
  induction es with
  | nil => rfl
  | cons x es ih =>
    obtain ⟨hx, hs⟩ := List.pairwise_cons.1 h
    have ih := ih hs
    unfold dropEntry at ih ⊢
    rw [List.filter_cons]
    by_cases hk : rank x.1 = rank k
    · -- No later entry has the key of this one.
      have hn : findEntry k es = none := findEntry_of_lt fun e he => hk ▸ hx e he
      rw [hn] at ih
      simp only [hk, findEntry, ne_eq, not_true, decide_false, Bool.false_eq_true, if_false, if_true,
        sumEntries_cons, weigh_some, weigh_none] at ih ⊢
      omega
    · simp only [hk, findEntry, ne_eq, not_false_eq_true, decide_true, if_true, if_false,
        sumEntries_cons] at ih ⊢
      omega

end Entries

namespace SortedMap

variable {κ υ : Type} [Ranked κ]

def total (m : SortedMap κ υ) (f : υ → Nat) : Nat := sumEntries f m.toList

variable (m : SortedMap κ υ) (f : υ → Nat)

@[simp] theorem total_empty : (∅ : SortedMap κ υ).total f = 0 := rfl

theorem total_insert (k : κ) (v : υ) :
    (m.insert k v).total f + weigh f (m.get? k) = m.total f + f v :=
  sumEntries_put f k v m.increasing

theorem total_erase (k : κ) : (m.erase k).total f + weigh f (m.get? k) = m.total f :=
  sumEntries_drop f k m.increasing

theorem weigh_le_total (k : κ) : weigh f (m.get? k) ≤ m.total f := by
  have := m.total_erase f k
  omega

theorem size_eq_total : m.size = m.total fun _ => 1 := by
  unfold size total sumEntries
  rw [List.map_const', List.sum_replicate_nat, Nat.mul_one]

theorem size_insert (k : κ) (v : υ) :
    (m.insert k v).size = if m.contains k then m.size else m.size + 1 := by
  have h := m.total_insert (fun _ => 1) k v
  rw [← size_eq_total, ← size_eq_total] at h
  unfold contains
  cases hk : m.get? k <;> simp [hk] at h ⊢ <;> omega

theorem size_erase (k : κ) :
    (m.erase k).size = if m.contains k then m.size - 1 else m.size := by
  have h := m.total_erase (fun _ => 1) k
  rw [← size_eq_total, ← size_eq_total] at h
  unfold contains
  cases hk : m.get? k <;> simp [hk] at h ⊢ <;> omega

end SortedMap

end SwapFees
