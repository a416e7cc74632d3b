import Mathlib.Algebra.Order.Floor.Div
import SwapFees.Proofs.Divisors

namespace SwapFees

/-- `p` parts in `d` of `n`, rounded up. -/
def portion (p d n : Nat) : Nat := (n * p) ⌈/⌉ d

section

variable {p d : Nat}

theorem portion_zero : portion p d 0 = 0 := by
  rw [portion, Nat.zero_mul, zero_ceilDiv]

theorem portion_mono {m n : Nat} (h : m ≤ n) : portion p d m ≤ portion p d n := by
  have := Nat.mul_le_mul_right p h
  exact Nat.div_le_div_right (by omega)

theorem portion_add_le (hd : 0 < d) (m n : Nat) :
    portion p d (m + n) ≤ portion p d m + portion p d n := by
  refine (ceilDiv_le_iff_le_smul hd).2 ?_
  calc (m + n) * p = m * p + n * p := Nat.add_mul ..
    _ ≤ d * portion p d m + d * portion p d n :=
        Nat.add_le_add (le_smul_ceilDiv hd) (le_smul_ceilDiv hd)
    _ = d * (portion p d m + portion p d n) := (Nat.mul_add ..).symm

theorem le_portion_add (hd : 0 < d) (m n : Nat) :
    portion p d m + portion p d n ≤ portion p d (m + n) + 1 :=
  calc portion p d m + portion p d n
      ≤ (m * p + d - 1 + (n * p + d - 1)) / d := Nat.div_add_div_le_add_div
    _ ≤ ((m + n) * p + d - 1 + d) / d := Nat.div_le_div_right (by rw [Nat.add_mul]; omega)
    _ = portion p d (m + n) + 1 := Nat.add_div_right _ hd

end

namespace Rate

section

variable {r : Rate} {x y z : Amount}

theorem le_divCeil (h : r.divCeil x = .ok y) : x ≤ y := by
  unfold divCeil at h
  split at h
  · cases h
  rename_i hparts
  cases h
  have hpos : 0 < r.parts := Nat.pos_of_ne_zero hparts
  have hquotient : x.toNat ≤ (x.toNat * million + r.parts - 1) / r.parts := by
    rw [Nat.le_div_iff_mul_le hpos]
    have := Nat.mul_le_mul_left x.toNat r.le_million
    omega
  have := x.isLt
  rw [Word.le_def, Word.toNat_saturate]
  omega

def DivExact (r : Rate) (x : Amount) : Prop :=
  (x.toNat * million + r.parts - 1) / r.parts < 2 ^ (128 : Nat)

instance (r : Rate) (x : Amount) : Decidable (r.DivExact x) := inferInstanceAs (Decidable (_ < _))

theorem le_mulFloor (h : r.divCeil x = .ok y) (hexact : r.DivExact x) (hle : y ≤ z) :
    x ≤ r.mulFloor z := by
  unfold divCeil at h
  split at h
  · cases h
  rename_i hparts
  cases h
  have hy : (Word.saturate _ : Amount).toNat = _ := Word.toNat_saturate_of_lt hexact
  rw [Word.le_def, hy] at hle
  rw [Word.le_def, toNat_mulFloor]
  apply (Nat.le_div_iff_mul_le (by decide)).2
  calc x.toNat * million ≤ r.parts * ((x.toNat * million + r.parts - 1) / r.parts) :=
        le_smul_ceilDiv (Nat.pos_of_ne_zero hparts)
    _ ≤ r.parts * z.toNat := Nat.mul_le_mul_left _ hle
    _ = z.toNat * r.parts := Nat.mul_comm _ _

/-- Rounded up, a quotient by a fraction is at most `z` just where the fraction of `z`, rounded
down, is at least what was divided. Only the largest amount also bounds quotients that saturate. -/
theorem divCeil_le_iff (h : r.divCeil x = .ok y) (hz : z ≠ Word.top) :
    y ≤ z ↔ x ≤ r.mulFloor z := by
  have hlarge : z.toNat < 2 ^ (128 : Nat) - 1 := Word.ne_top_iff.1 hz
  unfold divCeil at h
  split at h
  · cases h
  rename_i hparts
  cases h
  rw [Word.le_def, Word.le_def, Word.toNat_saturate, toNat_mulFloor]
  calc min ((x.toNat * million + r.parts - 1) / r.parts) (2 ^ (128 : Nat) - 1) ≤ z.toNat
      ↔ (x.toNat * million) ⌈/⌉ r.parts ≤ z.toNat := by
        change _ ↔ (x.toNat * million + r.parts - 1) / r.parts ≤ z.toNat
        omega
    _ ↔ x.toNat * million ≤ r.parts * z.toNat :=
        ceilDiv_le_iff_le_smul (Nat.pos_of_ne_zero hparts)
    _ ↔ x.toNat ≤ z.toNat * r.parts / million := by
        rw [Nat.le_div_iff_mul_le (by decide), Nat.mul_comm z.toNat]

theorem mulFloor_mono (h : x ≤ y) : r.mulFloor x ≤ r.mulFloor y :=
  Nat.div_le_div_right (Nat.mul_le_mul_right _ h)

end

/-- What is taken out of `n` at this rate. -/
def levy (r : Rate) (n : Nat) : Nat := n - n * r.complement.parts / million

variable (r : Rate)

theorem levy_eq_portion (n : Nat) : r.levy n = portion r.parts million n := by
  have hwhole : n * r.parts + n * r.complement.parts = n * million := by
    rw [← Nat.mul_add, parts_complement, Nat.add_sub_of_le r.le_million]
  change n - n * r.complement.parts / million = (n * r.parts + million - 1) / million
  unfold million at hwhole ⊢
  omega

theorem levy_mono {m n : Nat} (h : m ≤ n) : r.levy m ≤ r.levy n := by
  rw [levy_eq_portion, levy_eq_portion]
  exact portion_mono h

theorem levy_add_le (m n : Nat) : r.levy (m + n) ≤ r.levy m + r.levy n := by
  simp only [levy_eq_portion]
  exact portion_add_le (by decide) m n

end Rate

namespace FeeSplit

theorem subtract_parts (gross : Coin) (rate : Rate) :
    (subtract gross rate).net.asset = gross.asset ∧ (subtract gross rate).fee.asset = gross.asset ∧
      (subtract gross rate).fee.amount.toNat + (subtract gross rate).net.amount.toNat =
        gross.amount.toNat := by
  unfold subtract
  split
  · refine ⟨rfl, rfl, ?_⟩
    rw [Coin.zero, Word.toNat_zero, Nat.zero_add]
  · refine ⟨rfl, rfl, ?_⟩
    have := rate.complement.scaled_le gross.amount.toNat
    simp only [Coin.withAmount, Word.toNat_subSat, Rate.toNat_mulFloor]
    omega

theorem subtract_net (gross : Coin) (rate : Rate) :
    (subtract gross rate).net.amount = rate.complement.mulFloor gross.amount := by
  unfold subtract
  split
  · rename_i hz
    have hparts : rate.parts = 0 := of_decide_eq_true hz
    apply Word.ext
    simp [hparts, million]
  · rfl

theorem subtract_fee (gross : Coin) (rate : Rate) :
    (subtract gross rate).fee.amount.toNat = rate.levy gross.amount.toNat := by
  obtain ⟨-, -, hparts⟩ := subtract_parts gross rate
  rw [subtract_net, Rate.toNat_mulFloor] at hparts
  unfold Rate.levy
  omega

theorem fee_le_gross (split : FeeSplit) : split.fee.amount ≤ split.gross.amount := by
  have := split.fee.amount.isLt
  rw [Word.le_def, gross, Coin.withAmount, Word.toNat_addSat]
  omega

variable {net : Coin} {rate : Rate} {split : FeeSplit}

theorem add_parts (h : add net rate = .ok split) :
    split.net = net ∧ split.fee.asset = net.asset := by
  unfold add at h
  split at h
  · cases h
    exact ⟨rfl, rfl⟩
  · obtain ⟨gross, -, h⟩ := Answer.bind_ok.1 h
    cases h
    exact ⟨rfl, rfl⟩

theorem gross_of_add (h : add net rate = .ok split) :
    rate.complement.divCeil net.amount = .ok split.gross.amount ∧
      split.gross.amount.toNat = net.amount.toNat + split.fee.amount.toNat := by
  unfold add at h
  split at h
  · rename_i hz
    have hparts : rate.complement.parts = 1000000 :=
      congrArg (million - ·) (of_decide_eq_true hz : rate.parts = 0)
    cases h
    have hgross : net.amount.addSat 0 = net.amount := Word.saturate_toNat net.amount
    have hquotient : (net.amount.toNat * 1000000 + 1000000 - 1) / 1000000 = net.amount.toNat := by
      omega
    refine ⟨?_, congrArg Word.toNat hgross⟩
    rw [Rate.divCeil, hparts, if_neg (by decide), million, hquotient, Word.saturate_toNat]
    exact congrArg Except.ok hgross.symm
  · obtain ⟨total, hdiv, h⟩ := Answer.bind_ok.1 h
    cases h
    have hle : net.amount.toNat ≤ total.toNat := Rate.le_divCeil hdiv
    have hlt := total.isLt
    have hgross : net.amount.addSat (total.subSat net.amount) = total := by
      apply Word.ext
      rw [Word.toNat_addSat, Word.toNat_subSat]
      omega
    refine ⟨hdiv.trans (congrArg Except.ok hgross.symm), ?_⟩
    change (net.amount.addSat (total.subSat net.amount)).toNat = _
    rw [hgross]
    change total.toNat = net.amount.toNat + (total.toNat - net.amount.toNat)
    omega

theorem add_total (h : add net rate = .ok split) :
    net.amount.toNat + split.fee.amount.toNat < 2 ^ (128 : Nat) := by
  rw [← (gross_of_add h).2]
  exact split.gross.amount.isLt

/-- The fee put on top of a net amount leaves at least that amount when it is taken out again. -/
theorem le_subtract_of_add {gross : Amount} (h : add net rate = .ok split)
    (hexact : rate.complement.DivExact net.amount)
    (hgross : gross.toNat = net.amount.toNat + split.fee.amount.toNat) :
    net.amount ≤ (subtract ⟨net.asset, gross⟩ rate).net.amount := by
  obtain ⟨hdiv, htotal⟩ := gross_of_add h
  have hsame : gross = split.gross.amount := Word.ext (hgross.trans htotal.symm)
  rw [subtract_net, hsame]
  exact Rate.le_mulFloor hdiv hexact (Nat.le_refl _)

/-- The fee put on top of an amount is no less than the fee taken out of the two. -/
theorem levy_gross_le (h : add net rate = .ok split) (hgross : split.gross.amount ≠ Word.top) :
    rate.levy split.gross.amount.toNat ≤ split.fee.amount.toNat := by
  obtain ⟨hdiv, htotal⟩ := gross_of_add h
  have hnet := (Rate.divCeil_le_iff hdiv hgross).1 (Nat.le_refl _)
  rw [Word.le_def, Rate.toNat_mulFloor] at hnet
  unfold Rate.levy
  omega

/-- A payment short of the largest amount bears a net amount with its fee on top exactly if it
leaves that amount. -/
theorem gross_le_iff {asset : Asset} {n g : Amount} (h : add ⟨asset, n⟩ rate = .ok split)
    (hg : g ≠ Word.top) :
    split.gross.amount ≤ g ↔ n ≤ (subtract ⟨asset, g⟩ rate).net.amount := by
  rw [subtract_net]
  exact Rate.divCeil_le_iff (gross_of_add h).1 hg

/-- Short of saturation, the gross amount is the least payment that leaves the net amount. -/
theorem gross_least {asset : Asset} {n : Amount} (h : add ⟨asset, n⟩ rate = .ok split)
    (hgross : split.gross.amount ≠ Word.top) :
    n ≤ (subtract ⟨asset, split.gross.amount⟩ rate).net.amount ∧
      ∀ g, n ≤ (subtract ⟨asset, g⟩ rate).net.amount → split.gross.amount ≤ g := by
  refine ⟨(gross_le_iff h hgross).1 (Nat.le_refl _), fun g hn => ?_⟩
  by_cases hg : g = Word.top
  · rw [hg]
    exact Word.le_top _
  · exact (gross_le_iff h hg).2 hn

theorem gross_of_net_le {asset : Asset} {g : Amount}
    (h : add ⟨asset, (subtract ⟨asset, g⟩ rate).net.amount⟩ rate = .ok split) :
    split.gross.amount ≤ g := by
  by_cases hg : g = Word.top
  · rw [hg]
    exact Word.le_top _
  · exact (gross_le_iff h hg).2 (Nat.le_refl _)

theorem gross_mono {asset : Asset} {n m : Amount} {split' : FeeSplit}
    (h : add ⟨asset, n⟩ rate = .ok split) (h' : add ⟨asset, m⟩ rate = .ok split') (hle : n ≤ m) :
    split.gross.amount ≤ split'.gross.amount := by
  by_cases htop : split'.gross.amount = Word.top
  · rw [htop]
    exact Word.le_top _
  · have hm := (gross_le_iff h' htop).1 (Nat.le_refl _)
    exact (gross_le_iff h htop).2 (Nat.le_trans hle hm)

theorem net_mono {g g' : Amount} (asset : Asset) (hle : g ≤ g') :
    (subtract ⟨asset, g⟩ rate).net.amount ≤ (subtract ⟨asset, g'⟩ rate).net.amount := by
  rw [subtract_net, subtract_net]
  exact Rate.mulFloor_mono hle

/-- At every rate below the whole, putting the fee on top and taking it out are adjoint, and what is
taken out and what is left make up the payment. So the gross amount is the least payment that
leaves the net amount, going back and forth gains nothing, and both ways are monotone. -/
theorem add_subtract_adjoint (hrate : rate.parts < million) (asset : Asset) (n g : Amount) :
    ∃ split back, add ⟨asset, n⟩ rate = .ok split ∧
      add ⟨asset, (subtract ⟨asset, g⟩ rate).net.amount⟩ rate = .ok back ∧
      (g ≠ Word.top →
        (split.gross.amount ≤ g ↔ n ≤ (subtract ⟨asset, g⟩ rate).net.amount)) ∧
      (subtract ⟨asset, g⟩ rate).net.amount.toNat + (subtract ⟨asset, g⟩ rate).fee.amount.toNat =
        g.toNat ∧
      (split.gross.amount ≠ Word.top →
        n ≤ (subtract ⟨asset, split.gross.amount⟩ rate).net.amount ∧
          ∀ g', n ≤ (subtract ⟨asset, g'⟩ rate).net.amount → split.gross.amount ≤ g') ∧
      back.gross.amount ≤ g ∧
      (∀ m split', n ≤ m → add ⟨asset, m⟩ rate = .ok split' →
        split.gross.amount ≤ split'.gross.amount) ∧
      ∀ g', g ≤ g' →
        (subtract ⟨asset, g⟩ rate).net.amount ≤ (subtract ⟨asset, g'⟩ rate).net.amount := by
  obtain ⟨split, h⟩ := add_succeeds hrate ⟨asset, n⟩
  obtain ⟨back, hback⟩ := add_succeeds hrate ⟨asset, (subtract ⟨asset, g⟩ rate).net.amount⟩
  obtain ⟨-, -, hparts⟩ := subtract_parts ⟨asset, g⟩ rate
  refine ⟨split, back, h, hback, gross_le_iff h, ?_, gross_least h, gross_of_net_le hback, ?_, ?_⟩
  · rw [Nat.add_comm]
    exact hparts
  · intro m split' hle h'
    exact gross_mono h h' hle
  · intro g' hle
    exact net_mono asset hle

/-- At one percent, 102 is the least payment that leaves 100. Of 101 only 99 are left, and for these
101 is not needed. -/
theorem add_subtract_adjoint_at_one_percent :
    (Rate.percent 1).parts < million ∧
      ∃ split back, add ⟨.issued 7, 100⟩ (.percent 1) = .ok split ∧ split.gross.amount = 102 ∧
        ¬ split.gross.amount ≤ 101 ∧
        (∀ g', (100 : Amount) ≤ (subtract ⟨.issued 7, g'⟩ (.percent 1)).net.amount →
          split.gross.amount ≤ g') ∧
        add ⟨.issued 7, 99⟩ (.percent 1) = .ok back ∧ back.gross.amount ≤ 101 := by
  have hrate : (Rate.percent 1).parts < million := by decide
  obtain ⟨split, back, h, hback, hiff, -, hleast, hle, -⟩ :=
    add_subtract_adjoint hrate (.issued 7) 100 101
  have hnet : (subtract ⟨.issued 7, 101⟩ (.percent 1)).net.amount = 99 := by decide
  have hgross : split.gross.amount = 102 := by
    cases h
    decide
  rw [hnet] at hback hiff
  refine ⟨hrate, split, back, h, hgross, ?_, ?_, hback, hle⟩
  · rw [hiff (by decide)]
    decide
  · apply (hleast _).2
    rw [hgross]
    decide

end FeeSplit

end SwapFees
