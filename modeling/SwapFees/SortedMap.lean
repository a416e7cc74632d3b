import SwapFees.Word

namespace SwapFees

/-- A type whose values are numbered without repetition. The numbers give its order. -/
class Ranked (κ : Type) where
  rank : κ → Nat
  rank_inj : ∀ {a b : κ}, rank a = rank b → a = b

open Ranked

instance {w : Nat} : Ranked (Word w) := ⟨Word.toNat, Word.ext⟩

section Entries

variable {κ υ : Type} [Ranked κ]

def findEntry (k : κ) : List (κ × υ) → Option υ
  | [] => none
  | e :: es => if rank e.1 = rank k then some e.2 else findEntry k es

def putEntry (k : κ) (v : υ) : List (κ × υ) → List (κ × υ)
  | [] => [(k, v)]
  | e :: es =>
    if rank k < rank e.1 then (k, v) :: e :: es
    else if rank k = rank e.1 then (k, v) :: es
    else e :: putEntry k v es

def dropEntry (k : κ) (es : List (κ × υ)) : List (κ × υ) :=
  es.filter fun e => rank e.1 ≠ rank k

/-- Keys strictly increase. -/
def Increasing (es : List (κ × υ)) : Prop := es.Pairwise fun a b => rank a.1 < rank b.1

theorem mem_putEntry {k : κ} {v : υ} {es : List (κ × υ)} {e : κ × υ} (h : e ∈ putEntry k v es) :
    e = (k, v) ∨ e ∈ es := by
  induction es with
  | nil => simpa [putEntry] using h
  | cons x es ih =>
    rw [putEntry] at h
    split at h
    · simpa using h
    · split at h
      · rcases List.mem_cons.1 h with h | h
        · exact .inl h
        · exact .inr (List.mem_cons_of_mem _ h)
      · rcases List.mem_cons.1 h with h | h
        · exact .inr (h ▸ List.mem_cons_self)
        · exact (ih h).imp_right (List.mem_cons_of_mem _)

theorem increasing_putEntry (k : κ) (v : υ) {es : List (κ × υ)} (h : Increasing es) :
    Increasing (putEntry k v es) := by
  induction es with
  | nil => exact List.pairwise_singleton _ _
  | cons x es ih =>
    have ⟨hx, hs⟩ := List.pairwise_cons.1 h
    rw [putEntry]
    split
    · rename_i hk
      refine List.pairwise_cons.2 ⟨fun e he => ?_, h⟩
      rcases List.mem_cons.1 he with rfl | he
      · exact hk
      · exact Nat.lt_trans hk (hx e he)
    · split
      · rename_i hk
        exact List.pairwise_cons.2 ⟨fun e he => hk ▸ hx e he, hs⟩
      · refine List.pairwise_cons.2 ⟨fun e he => ?_, ih hs⟩
        rcases mem_putEntry he with rfl | he
        · show rank x.1 < rank k
          omega
        · exact hx e he

theorem findEntry_putEntry (k : κ) (v : υ) (es : List (κ × υ)) (q : κ) :
    findEntry q (putEntry k v es) = if rank k = rank q then some v else findEntry q es := by
  induction es with
  | nil => rfl
  | cons x es ih =>
    rw [putEntry]
    split
    · rfl
    · split
      · rename_i hk
        simp only [findEntry, hk]
        split <;> rfl
      · simp only [findEntry, ih]
        repeat' split
        all_goals first | rfl | omega

theorem findEntry_dropEntry (k : κ) (es : List (κ × υ)) (q : κ) :
    findEntry q (dropEntry k es) = if rank k = rank q then none else findEntry q es := by
  induction es with
  | nil => simp [dropEntry, findEntry]
  | cons x es ih =>
    unfold dropEntry at ih ⊢
    rw [List.filter_cons]
    by_cases hx : rank x.1 = rank k
    · rw [if_neg (by simp [hx]), ih, findEntry, hx]
      split <;> rfl
    · rw [if_pos (by simp [hx]), findEntry, findEntry, ih]
      repeat' split
      all_goals first | rfl | omega

theorem findEntry_eq_none {k : κ} {es : List (κ × υ)} :
    findEntry k es = none ↔ ∀ e ∈ es, rank e.1 ≠ rank k := by
  induction es with
  | nil => simp [findEntry]
  | cons x es ih => by_cases hx : rank x.1 = rank k <;> simp [findEntry, hx, ih]

theorem findEntry_eq_some {k : κ} {v : υ} {es : List (κ × υ)} (h : Increasing es) :
    findEntry k es = some v ↔ (k, v) ∈ es := by
  induction es with
  | nil => simp [findEntry]
  | cons x es ih =>
    have ⟨hx, hs⟩ := List.pairwise_cons.1 h
    rw [findEntry, List.mem_cons]
    split
    · rename_i hk
      have hk := rank_inj hk
      constructor
      · rintro ⟨⟩
        exact .inl (by rw [← hk])
      · rintro (rfl | he)
        · rfl
        · exact absurd (hx _ he) (by rw [hk]; exact Nat.lt_irrefl _)
    · rename_i hk
      rw [ih hs]
      refine ⟨.inr, ?_⟩
      rintro (rfl | he)
      · exact absurd rfl hk
      · exact he

theorem eq_of_findEntry_eq {as bs : List (κ × υ)} (ha : Increasing as) (hb : Increasing bs)
    (h : ∀ k, findEntry k as = findEntry k bs) : as = bs := by
  have mem : ∀ e, e ∈ as ↔ e ∈ bs := fun (k, v) => by
    rw [← findEntry_eq_some ha, ← findEntry_eq_some hb, h k]
  clear h
  induction as generalizing bs with
  | nil =>
    cases bs with
    | nil => rfl
    | cons b bs => exact absurd ((mem b).2 List.mem_cons_self) List.not_mem_nil
  | cons a as ih =>
    cases bs with
    | nil => exact absurd ((mem a).1 List.mem_cons_self) List.not_mem_nil
    | cons b bs =>
      have ⟨ha₁, ha₂⟩ := List.pairwise_cons.1 ha
      have ⟨hb₁, hb₂⟩ := List.pairwise_cons.1 hb
      have head : a = b := by
        rcases List.mem_cons.1 ((mem a).1 List.mem_cons_self) with e | m
        · exact e
        · rcases List.mem_cons.1 ((mem b).2 List.mem_cons_self) with e | m'
          · exact e.symm
          · exact absurd (hb₁ a m) (Nat.lt_asymm (ha₁ b m'))
      subst head
      congr 1
      refine ih ha₂ hb₂ fun e => ⟨fun m => ?_, fun m => ?_⟩
      · rcases List.mem_cons.1 ((mem e).1 (List.mem_cons_of_mem _ m)) with rfl | m'
        · exact absurd (ha₁ _ m) (Nat.lt_irrefl _)
        · exact m'
      · rcases List.mem_cons.1 ((mem e).2 (List.mem_cons_of_mem _ m)) with rfl | m'
        · exact absurd (hb₁ _ m) (Nat.lt_irrefl _)
        · exact m'

end Entries

structure SortedMap (κ υ : Type) [Ranked κ] where
  toList : List (κ × υ)
  increasing : Increasing toList

namespace SortedMap

variable {κ υ : Type} [Ranked κ]

def empty : SortedMap κ υ := ⟨[], List.Pairwise.nil⟩

instance : EmptyCollection (SortedMap κ υ) := ⟨empty⟩
instance : Inhabited (SortedMap κ υ) := ⟨∅⟩

def get? (m : SortedMap κ υ) (k : κ) : Option υ := findEntry k m.toList

def contains (m : SortedMap κ υ) (k : κ) : Bool := (m.get? k).isSome

def insert (m : SortedMap κ υ) (k : κ) (v : υ) : SortedMap κ υ :=
  ⟨putEntry k v m.toList, increasing_putEntry k v m.increasing⟩

def erase (m : SortedMap κ υ) (k : κ) : SortedMap κ υ :=
  ⟨dropEntry k m.toList, m.increasing.filter _⟩

def ofList (es : List (κ × υ)) : SortedMap κ υ := es.foldl (fun m e => m.insert e.1 e.2) ∅

def keys (m : SortedMap κ υ) : List κ := m.toList.map Prod.fst

def size (m : SortedMap κ υ) : Nat := m.toList.length

instance [DecidableEq κ] [DecidableEq υ] : DecidableEq (SortedMap κ υ) := fun a b =>
  decidable_of_iff (a.toList = b.toList) ⟨fun h => by cases a; cases b; simpa using h,
    congrArg toList⟩

theorem ext {a b : SortedMap κ υ} (h : ∀ k, a.get? k = b.get? k) : a = b := by
  have := eq_of_findEntry_eq a.increasing b.increasing h
  cases a; cases b; simpa using this

theorem mem_toList {m : SortedMap κ υ} {k : κ} {v : υ} : (k, v) ∈ m.toList ↔ m.get? k = some v :=
  (findEntry_eq_some m.increasing).symm

@[simp] theorem get?_empty (k : κ) : (∅ : SortedMap κ υ).get? k = none := rfl

theorem get?_insert (m : SortedMap κ υ) (k q : κ) (v : υ) :
    (m.insert k v).get? q = if rank k = rank q then some v else m.get? q :=
  findEntry_putEntry k v m.toList q

@[simp] theorem get?_insert_self (m : SortedMap κ υ) (k : κ) (v : υ) :
    (m.insert k v).get? k = some v := by
  simp [get?_insert]

theorem get?_insert_of_ne (m : SortedMap κ υ) {k q : κ} (v : υ) (h : k ≠ q) :
    (m.insert k v).get? q = m.get? q := by
  rw [get?_insert, if_neg fun e => h (rank_inj e)]

theorem get?_erase (m : SortedMap κ υ) (k q : κ) :
    (m.erase k).get? q = if rank k = rank q then none else m.get? q :=
  findEntry_dropEntry k m.toList q

@[simp] theorem get?_erase_self (m : SortedMap κ υ) (k : κ) : (m.erase k).get? k = none := by
  simp [get?_erase]

theorem get?_erase_of_ne (m : SortedMap κ υ) {k q : κ} (h : k ≠ q) :
    (m.erase k).get? q = m.get? q := by
  rw [get?_erase, if_neg fun e => h (rank_inj e)]

theorem insert_get? {m : SortedMap κ υ} {k : κ} {v : υ} (h : m.get? k = some v) :
    m.insert k v = m := by
  refine ext fun q => ?_
  rw [get?_insert]
  split
  · rename_i e
    rw [← rank_inj e, h]
  · rfl

end SortedMap

end SwapFees
