import Mathlib.Algebra.Order.BigOperators.Group.List
import SwapFees.Proofs.FeeSplit

namespace SwapFees

section Portions

variable {p d : Nat}

theorem portion_sum_le (hd : 0 < d) (ns : List Nat) :
    portion p d ns.sum ≤ (ns.map (portion p d)).sum :=
  ns.le_sum_of_subadditive (portion p d) (Nat.le_of_eq portion_zero) (portion_add_le hd)

/-- Rounding up gains each part less than one unit, and the whole its own. -/
theorem sum_portion_lt (hd : 0 < d) {ns : List Nat} (hne : ns ≠ []) :
    (ns.map (portion p d)).sum < portion p d ns.sum + ns.length := by
  induction ns with
  | nil => exact absurd rfl hne
  | cons n ns ih =>
    by_cases hlast : ns = []
    · simp [hlast]
    · rw [List.map_cons, List.sum_cons, List.sum_cons, List.length_cons]
      have hrest := ih hlast
      have hjoin := le_portion_add (p := p) hd n ns.sum
      omega

end Portions

namespace Rate

variable (r : Rate)

/-- What is put on top of `n` at this rate, as far as the total fits. -/
def premium (n : Nat) : Nat := min (portion r.parts r.complement.parts n) (2 ^ (128 : Nat) - 1 - n)

variable {r}

theorem complement_pos (h : r.parts < million) : 0 < r.complement.parts := Nat.sub_pos_of_lt h

theorem quotient_eq (h : r.parts < million) (n : Nat) :
    (n * million + r.complement.parts - 1) / r.complement.parts =
      n + portion r.parts r.complement.parts n := by
  have hpos := complement_pos h
  have hparts : million = r.parts + r.complement.parts := (Nat.add_sub_of_le r.le_million).symm
  have hwhole : n * million + r.complement.parts - 1 =
      n * r.parts + r.complement.parts - 1 + n * r.complement.parts := by
    rw [hparts, Nat.mul_add]
    omega
  rw [hwhole, Nat.add_mul_div_right _ _ hpos, Nat.add_comm n]
  rfl

theorem premium_eq_portion (h : r.parts < million) {x : Amount} (hexact : r.complement.DivExact x) :
    r.premium x.toNat = portion r.parts r.complement.parts x.toNat := by
  rw [DivExact, quotient_eq h] at hexact
  unfold premium
  omega

theorem premium_le_portion (n : Nat) : r.premium n ≤ portion r.parts r.complement.parts n :=
  Nat.min_le_left ..

theorem premium_add_le (h : r.parts < million) (m n : Nat) :
    r.premium (m + n) ≤ r.premium m + r.premium n := by
  have hjoin := portion_add_le (p := r.parts) (complement_pos h) m n
  unfold premium
  omega

theorem premium_sum_le (h : r.parts < million) (ns : List Nat) :
    r.premium ns.sum ≤ (ns.map r.premium).sum := by
  refine ns.le_sum_of_subadditive r.premium ?_ (premium_add_le h)
  exact Nat.le_trans (premium_le_portion 0) (Nat.le_of_eq portion_zero)

end Rate

namespace FeeSplit

/-- What several payments bear in fees. -/
def totalFee (splits : List FeeSplit) : Nat := (splits.map fun s => s.fee.amount.toNat).sum

variable {rate : Rate} {asset : Asset} {xs : List Amount}

theorem add_fee {net : Coin} {split : FeeSplit} (hrate : rate.parts < million)
    (h : add net rate = .ok split) :
    split.fee.amount.toNat = rate.premium net.amount.toNat := by
  obtain ⟨hdiv, htotal⟩ := gross_of_add h
  rw [Rate.divCeil, if_neg (Rate.complement_pos hrate).ne'] at hdiv
  have hgross := congrArg Word.toNat (Except.ok.inj hdiv)
  rw [Word.toNat_saturate, Rate.quotient_eq hrate, htotal] at hgross
  have := net.amount.isLt
  unfold Rate.premium
  omega

theorem totalFee_subtract (asset : Asset) (rate : Rate) (xs : List Amount) :
    totalFee (xs.map fun x => subtract ⟨asset, x⟩ rate) =
      ((xs.map Word.toNat).map (portion rate.parts million)).sum := by
  simp only [totalFee, List.map_map, Function.comp_def, subtract_fee, Rate.levy_eq_portion]

theorem totalFee_add (hrate : rate.parts < million) (asset : Asset) (xs : List Amount) :
    ∃ splits, (xs.mapM fun x => add ⟨asset, x⟩ rate) = .ok splits ∧
      totalFee splits = ((xs.map Word.toNat).map rate.premium).sum := by
  choose split hsplit using add_succeeds hrate
  refine ⟨xs.map fun x => split ⟨asset, x⟩, ?_, ?_⟩
  · simp only [hsplit]
    exact List.mapM_pure
  · have hfee (x : Amount) : (split ⟨asset, x⟩).fee.amount.toNat = rate.premium x.toNat :=
      add_fee hrate (hsplit ⟨asset, x⟩)
    simp only [totalFee, List.map_map, Function.comp_def, hfee]

/-- An order given in parts bears at least the fee of the whole, whether the fee is taken out of it
or put on top, and less than one unit more for each part. Only where the fee on top of the whole is
cut off, as the total would not fit, may the parts bear more. -/
theorem fees_of_parts (hrate : rate.parts < million) (asset : Asset) (hne : xs ≠ [])
    {whole : Amount} (hwhole : whole.toNat = (xs.map Word.toNat).sum) :
    ((subtract ⟨asset, whole⟩ rate).fee.amount.toNat ≤
        totalFee (xs.map fun x => subtract ⟨asset, x⟩ rate) ∧
      totalFee (xs.map fun x => subtract ⟨asset, x⟩ rate) ≤
        (subtract ⟨asset, whole⟩ rate).fee.amount.toNat + (xs.length - 1)) ∧
    ∃ splits split, (xs.mapM fun x => add ⟨asset, x⟩ rate) = .ok splits ∧
      add ⟨asset, whole⟩ rate = .ok split ∧
      split.fee.amount.toNat ≤ totalFee splits ∧
      (rate.complement.DivExact whole →
        totalFee splits ≤ split.fee.amount.toNat + (xs.length - 1)) := by
  have hmap : xs.map Word.toNat ≠ [] := List.map_eq_nil_iff.not.2 hne
  have hlength : (xs.map Word.toNat).length = xs.length := List.length_map ..
  constructor
  · rw [subtract_fee, Rate.levy_eq_portion, totalFee_subtract, hwhole]
    have hless := sum_portion_lt (p := rate.parts) (by decide : 0 < million) hmap
    exact ⟨portion_sum_le (by decide) _, by omega⟩
  · obtain ⟨splits, hsplits, htotal⟩ := totalFee_add hrate asset xs
    obtain ⟨split, hsplit⟩ := add_succeeds hrate ⟨asset, whole⟩
    refine ⟨splits, split, hsplits, hsplit, ?_, fun hexact => ?_⟩
    · rw [add_fee hrate hsplit, htotal, hwhole]
      exact Rate.premium_sum_le hrate _
    · have hless := sum_portion_lt (p := rate.parts) (Rate.complement_pos hrate) hmap
      have hparts : ((xs.map Word.toNat).map rate.premium).sum ≤
          ((xs.map Word.toNat).map (portion rate.parts rate.complement.parts)).sum :=
        List.sum_le_sum fun n _ => Rate.premium_le_portion n
      rw [add_fee hrate hsplit, htotal, Rate.premium_eq_portion hrate hexact, hwhole]
      omega

/-- At one percent, three orders of one unit each bear three units, and one order of three bears
one: two more, the most there can be. -/
theorem fees_of_dust :
    (Rate.percent 1).parts < million ∧ [(1 : Amount), 1, 1] ≠ [] ∧
      (3 : Amount).toNat = ([(1 : Amount), 1, 1].map Word.toNat).sum ∧
      (Rate.percent 1).complement.DivExact 3 ∧
      (subtract ⟨.native, 3⟩ (.percent 1)).fee.amount = 1 ∧
      totalFee ([1, 1, 1].map fun x => subtract ⟨.native, x⟩ (.percent 1)) = 3 ∧ 1 ≤ 3 ∧ 3 ≤ 1 + 2 ∧
      ∃ splits split, [(1 : Amount), 1, 1].mapM (fun x => add ⟨.native, x⟩ (.percent 1)) =
          .ok splits ∧
        add ⟨.native, 3⟩ (.percent 1) = .ok split ∧ split.fee.amount = 1 ∧
        1 ≤ totalFee splits ∧ totalFee splits ≤ 1 + 2 := by
  have hrate : (Rate.percent 1).parts < million := by decide
  have hne : [(1 : Amount), 1, 1] ≠ [] := by decide
  have hwhole : (3 : Amount).toNat = ([(1 : Amount), 1, 1].map Word.toNat).sum := by decide
  have hexact : (Rate.percent 1).complement.DivExact 3 := by decide
  obtain ⟨⟨hleast, hmost⟩, splits, split, hsplits, hsplit, hleast', hmost'⟩ :=
    fees_of_parts hrate .native hne hwhole
  have hfee : (subtract ⟨.native, 3⟩ (.percent 1)).fee.amount = 1 := by decide
  have htotal : totalFee ([1, 1, 1].map fun x => subtract ⟨.native, x⟩ (.percent 1)) = 3 := by
    decide
  have hfee' : split.fee.amount = 1 := by
    cases hsplit
    decide
  rw [htotal, hfee] at hleast hmost
  rw [hfee'] at hleast' hmost'
  exact ⟨hrate, hne, hwhole, hexact, hfee, htotal, hleast, hmost, splits, split, hsplits, hsplit,
    hfee', hleast', hmost' hexact⟩

end FeeSplit

end SwapFees
