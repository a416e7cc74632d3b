import Mathlib.Order.Basic
import SwapFees.Proofs.Visits

namespace SwapFees

namespace Weight

/-- Time and size; neither is above that of another weight if the pairs are in order. -/
def parts (a : Weight) : Nat × Nat := (a.time.toNat, a.size.toNat)

theorem fits_iff {a b : Weight} : a.fits b = true ↔ a.parts ≤ b.parts := by
  simp [fits, parts, Word.le_def]

theorem parts_add {a b : Weight} (htime : a.time.toNat + b.time.toNat < 2 ^ (64 : Nat))
    (hsize : a.size.toNat + b.size.toNat < 2 ^ (64 : Nat)) :
    (a + b).parts = (a.time.toNat + b.time.toNat, a.size.toNat + b.size.toNat) :=
  Prod.ext (Word.toNat_saturate_of_lt htime) (Word.toNat_saturate_of_lt hsize)

theorem add_fits_iff {a b budget : Weight} (htime : a.time.toNat + b.time.toNat < 2 ^ (64 : Nat))
    (hsize : a.size.toNat + b.size.toNat < 2 ^ (64 : Nat)) : (a + b).fits budget = true ↔
      a.time.toNat + b.time.toNat ≤ budget.time.toNat ∧
        a.size.toNat + b.size.toNat ≤ budget.size.toNat := by
  rw [fits_iff, parts_add htime hsize]
  exact Prod.mk_le_mk

theorem room_iff {unit budget used : Weight} {most : Nat}
    (htime : used.time.toNat + unit.time.toNat < 2 ^ (64 : Nat))
    (hsize : used.size.toNat + unit.size.toNat < 2 ^ (64 : Nat))
    (hmost : ∀ n, n ≤ most ↔ used.time.toNat + n * unit.time.toNat ≤ budget.time.toNat ∧
      used.size.toNat + n * unit.size.toNat ≤ budget.size.toNat) :
    (used + unit).fits budget = true ↔ 1 ≤ most := by
  rw [add_fits_iff htime hsize, hmost, Nat.one_mul, Nat.one_mul]

end Weight

/-- Visits are made of as many assets as there are, up to `max`, and up to the `most` for which the
budget has room. Only assets short of both bounds are exhausted. -/
theorem Visits.plan_eq {unit budget used : Weight} {max most : Nat} {as : List Asset}
    (htime : used.time.toNat + max * unit.time.toNat < 2 ^ (64 : Nat))
    (hsize : used.size.toNat + max * unit.size.toNat < 2 ^ (64 : Nat))
    (hmost : ∀ n, n ≤ most ↔ used.time.toNat + n * unit.time.toNat ≤ budget.time.toNat ∧
      used.size.toNat + n * unit.size.toNat ≤ budget.size.toNat) :
    (plan unit budget max used as).visited = as.take (min (min max as.length) most) ∧
      (plan unit budget max used as).used.parts =
        (used.time.toNat + min (min max as.length) most * unit.time.toNat,
          used.size.toNat + min (min max as.length) most * unit.size.toNat) ∧
      (plan unit budget max used as).exhausted = decide (as.length < min max most) := by
  induction as generalizing used max most with
  | nil =>
    cases max with
    | zero => simp [plan, Weight.parts]
    | succ m =>
      rw [Nat.succ_mul] at htime hsize
      have hone := Weight.room_iff (by omega) (by omega) hmost
      simp [plan, hone, Weight.parts, Nat.one_le_iff_ne_zero, Nat.pos_iff_ne_zero]
  | cons a as ih =>
    cases max with
    | zero => simp [plan, Weight.parts]
    | succ m =>
      rw [Nat.succ_mul] at htime hsize
      have hone := Weight.room_iff (by omega) (by omega) hmost
      obtain ⟨ht, hs⟩ := Prod.mk.inj (@Weight.parts_add used unit (by omega) (by omega))
      cases most with
      | zero => simp [plan, hone, Weight.parts]
      | succ most =>
        -- After one visit there is room for one less.
        have hnext : ∀ n, n ≤ most ↔
            (used + unit).time.toNat + n * unit.time.toNat ≤ budget.time.toNat ∧
              (used + unit).size.toNat + n * unit.size.toNat ≤ budget.size.toNat := by
          intro n
          have := hmost (n + 1)
          rw [Nat.succ_mul, Nat.succ_mul] at this
          omega
        obtain ⟨hv, hparts, he⟩ := @ih (used + unit) m most (by omega) (by omega) hnext
        have hplan : plan unit budget (m + 1) used (a :: as) =
            { plan unit budget m (used + unit) as with
              visited := a :: (plan unit budget m (used + unit) as).visited } := by
          simp [plan, hone]
        have hcount : min (min (m + 1) (a :: as).length) (most + 1) =
            min (min m as.length) most + 1 := by
          rw [List.length_cons]
          omega
        rw [hplan, hcount, hparts, he, hv, ht, hs, List.take_succ_cons, List.length_cons,
          Nat.succ_mul, Nat.succ_mul]
        refine ⟨rfl, ?_, ?_⟩
        · rw [Prod.mk.injEq]
          omega
        · rw [decide_eq_decide]
          omega

open Effect

namespace Sweep

variable {s : Settings} {w : World}

/-- Time and size of `n` visits and, where it `burns`, of the burn. -/
def cost (n : Nat) (burns : Bool) : Nat × Nat :=
  (n * Schedule.flat.visit.time.toNat + burns.toNat * Schedule.flat.burnResidue.time.toNat,
    n * Schedule.flat.visit.size.toNat + burns.toNat * Schedule.flat.burnResidue.size.toNat)

theorem cost_visits (n : Nat) : cost n false =
    (n * Schedule.flat.visit.time.toNat, n * Schedule.flat.visit.size.toNat) := by
  simp [cost]

theorem cost_burns (n : Nat) : cost n true =
    (n * Schedule.flat.visit.time.toNat + Schedule.flat.burnResidue.time.toNat,
      n * Schedule.flat.visit.size.toNat + Schedule.flat.burnResidue.size.toNat) := by
  simp [cost]

/-- What a sweep may visit does not come near the largest weight. -/
theorem cost_lt {n : Nat} (hn : n < 2 ^ (32 : Nat)) (burns : Bool) :
    (cost n burns).1 < 2 ^ (64 : Nat) ∧ (cost n burns).2 < 2 ^ (64 : Nat) := by
  have htime : Schedule.flat.visit.time.toNat = 90000000 := rfl
  have hsize : Schedule.flat.visit.size.toNat = 7000 := rfl
  have htime' : Schedule.flat.burnResidue.time.toNat = 40000000 := rfl
  have hsize' : Schedule.flat.burnResidue.size.toNat = 3500 := rfl
  have hb := Bool.toNat_le burns
  simp only [cost, htime, hsize, htime', hsize']
  omega

theorem visits_eq (s : Settings) (c : Chain) (budget : Weight) :
    ∃ most n, (∀ j, j ≤ most ↔ cost j false ≤ budget.parts) ∧
      n = min (min s.maxVisits.toNat (c.registry.after c.cursor).length) most ∧
      (visits s c budget).visited = ((c.registry.after c.cursor).take n).map FeeToken.asset ∧
      (visits s c budget).used.parts = cost n false ∧
      (visits s c budget).exhausted =
        decide ((c.registry.after c.cursor).length < min s.maxVisits.toNat most) := by
  have hmost (j : Nat) : j ≤ min (budget.time.toNat / Schedule.flat.visit.time.toNat)
      (budget.size.toNat / Schedule.flat.visit.size.toNat) ↔ cost j false ≤ budget.parts := by
    rw [cost_visits, Nat.le_min, Nat.le_div_iff_mul_le (by decide),
      Nat.le_div_iff_mul_le (by decide)]
    exact Prod.mk_le_mk.symm
  have htime : Weight.zero.time.toNat = 0 := Word.toNat_zero
  have hsize : Weight.zero.size.toNat = 0 := Word.toNat_zero
  obtain ⟨ht, hs⟩ := cost_lt s.maxVisits.isLt false
  simp only [cost_visits] at ht hs
  obtain ⟨hv, hparts, he⟩ := @Visits.plan_eq Schedule.flat.visit budget Weight.zero
    s.maxVisits.toNat _ ((c.registry.after c.cursor).map FeeToken.asset)
    (by simpa only [htime, Nat.zero_add] using ht) (by simpa only [hsize, Nat.zero_add] using hs)
    (fun j => by
      rw [hmost, htime, hsize, Nat.zero_add, Nat.zero_add, cost_visits]
      exact Prod.mk_le_mk)
  rw [htime, hsize, Nat.zero_add, Nat.zero_add, List.length_map, ← cost_visits] at hparts
  rw [List.length_map] at hv he
  rw [← List.map_take] at hv
  exact ⟨_, _, hmost, rfl, hv, hparts, he⟩

/-- An idle sweep visits as many fee tokens behind the cursor as its limit, their number and the
weight allow, whichever is least; it burns the residue just if the weight of that fits beside the
visits; and it takes the weight of what it does, never more than it is given. -/
theorem idle_within_budget (s : Settings) (w : World) (budget : Weight) :
    ∃ most n burns visited w' used,
      (∀ j, j ≤ most ↔ cost j false ≤ budget.parts) ∧
      n = min (min s.maxVisits.toNat (w.chain.registry.after w.chain.cursor).length) most ∧
      (burns = true ↔ cost n true ≤ budget.parts) ∧
      visited = ((w.chain.registry.after w.chain.cursor).take n).map FeeToken.asset ∧
      visited.length = n ∧
      (idle budget).run s w = (.ok used, w') ∧ Performs s visited burns w w' ∧
      used.parts = cost n burns ∧ used.parts ≤ budget.parts := by
  obtain ⟨most, n, hmost, hn, hv, hparts, -⟩ := visits_eq s w.chain budget
  obtain ⟨used, w', hrun⟩ := succeeds_idle (s := s) budget w
  have hlength : (((w.chain.registry.after w.chain.cursor).take n).map FeeToken.asset).length = n := by
    rw [List.length_map, List.length_take]
    omega
  have hadd : ((visits s w.chain budget).used + Schedule.flat.burnResidue).parts = cost n true := by
    have hlt : n < 2 ^ (32 : Nat) := by have := s.maxVisits.isLt; omega
    obtain ⟨ht, hs⟩ := cost_lt hlt true
    obtain ⟨htime, hsize⟩ := Prod.mk.inj (hparts.trans (cost_visits n))
    simp only [cost_burns, ← htime, ← hsize] at ht hs ⊢
    exact Weight.parts_add ht hs
  obtain ⟨burns, hperforms, hfits, hused⟩ := performs_of_idle hrun
  rw [hv] at hperforms
  have hburns : burns = true ↔ cost n true ≤ budget.parts := by
    rw [← hfits, Weight.fits_iff, hadd]
  refine ⟨most, n, burns, _, w', used, hmost, hn, hburns, rfl, hlength, hrun, hperforms, ?_⟩
  cases burns with
  | true =>
    have hcost : used.parts = cost n true := (congrArg Weight.parts hused).trans hadd
    exact ⟨hcost, hcost ▸ hburns.1 rfl⟩
  | false =>
    have hcost : used.parts = cost n false := (congrArg Weight.parts hused).trans hparts
    refine ⟨hcost, ?_⟩
    rw [hcost, ← hmost]
    omega

end Sweep

end SwapFees
