import SwapFees.Proofs.FeeSplit
import SwapFees.Proofs.Reserves

namespace SwapFees

namespace Pool

variable {p p' : Pool} {a b : Asset} {i o : Side} {paid given net : Amount}

/-- Sum or product of the reserves, as a natural number. -/
def invariant (p : Pool) : Nat :=
  match p.curve with
  | .sum => p.left.amount.toNat + p.right.amount.toNat
  | .product => p.left.amount.toNat * p.right.amount.toNat

theorem invariant_sum (hcurve : p.curve = .sum) (hne : i ≠ o) :
    p.invariant = (p.reserve i).toNat + (p.reserve o).toNat := by
  cases i <;> cases o <;> simp_all [invariant, reserve, Nat.add_comm]

theorem invariant_product (hcurve : p.curve = .product) (hne : i ≠ o) :
    p.invariant = (p.reserve i).toNat * (p.reserve o).toNat := by
  cases i <;> cases o <;> simp_all [invariant, reserve, Nat.mul_comm]

theorem reserve_settle (hne : i ≠ o) (h : p.settle i o paid given = .ok p') :
    p'.curve = p.curve ∧ p'.reserve i = (p.reserve i).addSat paid ∧
      (p'.reserve o).toNat = (p.reserve o).toNat - given.toNat := by
  obtain ⟨-, rest, hrest, rfl⟩ := settle_ok h
  cases i <;> cases o <;> simp_all [reserve, setReserve, Coin.withAmount]

/-- What is given is worth at most what is paid: one for one on a sum curve, and in proportion to
the reserve and to what is left of the other one on a product curve. -/
def Fair (p : Pool) (i o : Side) (paid given : Amount) : Prop :=
  match p.curve with
  | .sum => given.toNat ≤ paid.toNat
  | .product => (p.reserve i).toNat * given.toNat ≤
      ((p.reserve o).toNat - given.toNat) * paid.toNat

theorem Fair.mono (h : p.Fair i o net given) (hle : net ≤ paid) : p.Fair i o paid given := by
  unfold Fair at h ⊢
  split at h
  · exact Nat.le_trans h hle
  · exact Nat.le_trans h (Nat.mul_le_mul_left _ hle)

/-- A fair swap does not lower the invariant if the reserve that is paid into has room. -/
theorem Fair.invariant_le (hfair : p.Fair i o paid given) (hne : i ≠ o)
    (hroom : (p.reserve i).toNat + paid.toNat < 2 ^ (128 : Nat))
    (h : p.settle i o paid given = .ok p') : p.invariant ≤ p'.invariant := by
  obtain ⟨hgiven, -⟩ := settle_ok h
  obtain ⟨hcurve, hi, ho⟩ := reserve_settle hne h
  have hi : (p'.reserve i).toNat = (p.reserve i).toNat + paid.toNat := by
    rw [hi]
    exact Word.toNat_saturate_of_lt hroom
  unfold Fair at hfair
  split at hfair
  · rename_i hsum
    rw [invariant_sum hsum hne, invariant_sum (hcurve.trans hsum) hne]
    omega
  · rename_i hproduct
    rw [invariant_product hproduct hne, invariant_product (hcurve.trans hproduct) hne, hi, ho]
    generalize (p.reserve i).toNat = x at *
    generalize (p.reserve o).toNat = y at *
    calc x * y = x * (y - given.toNat) + x * given.toNat := by
          rw [← Nat.mul_add, Nat.sub_add_cancel hgiven]
      _ ≤ x * (y - given.toNat) + (y - given.toNat) * paid.toNat := Nat.add_le_add_left hfair _
      _ = (x + paid.toNat) * (y - given.toNat) := by
          rw [Nat.add_mul, Nat.mul_comm paid.toNat]

theorem mul_le_sub_mul {x y n g : Nat} (h : g * (x + n) ≤ n * y) (hg : g ≤ y) :
    x * g ≤ (y - g) * n := by
  have hsplit : n * y = (y - g) * n + g * n := by
    rw [← Nat.add_mul, Nat.sub_add_cancel hg, Nat.mul_comm]
  rw [Nat.mul_add, hsplit] at h
  rw [Nat.mul_comm x]
  exact Nat.le_of_add_le_add_right h

/-- What the curve gives is fair: a product that saturates only makes it less. -/
theorem fair_outputFor (h : p.outputFor i o net = .ok given) (hgiven : given ≤ p.reserve o)
    (hroom : (p.reserve i).toNat + net.toNat < 2 ^ (128 : Nat)) : p.Fair i o net given := by
  cases hcurve : p.curve with
  | sum => simp [Fair, hcurve, outputFor_sum hcurve h]
  | product =>
    rw [Fair, hcurve]
    have hquotient := (outputFor_product hcurve h).2
    rw [Nat.min_eq_left (by omega : (p.reserve i).toNat + net.toNat ≤ 2 ^ (128 : Nat) - 1)] at hquotient
    apply mul_le_sub_mul _ hgiven
    rw [hquotient]
    exact Nat.le_trans (Nat.div_mul_le_self _ _) (Nat.min_le_left _ _)

theorem inputFor_product (hcurve : p.curve = .product) (h : p.inputFor i o given = .ok net)
    (hexact : (p.reserve i).toNat * given.toNat < 2 ^ (128 : Nat)) :
    given.toNat ≤ (p.reserve o).toNat ∧
      (p.reserve i).toNat * given.toNat ≤
        ((p.reserve o).toNat - given.toNat) * net.toNat := by
  unfold inputFor at h
  rw [hcurve] at h
  obtain ⟨rest, hsub, h⟩ := Answer.bind_ok.1 h
  obtain ⟨hgiven, hrest⟩ := Word.sub_ok.1 hsub
  split at h
  · cases h
  rename_i hz
  cases h
  have hpos : 0 < rest.toNat := Nat.pos_of_ne_zero fun e => hz (Word.toNat_eq_zero.1 e)
  have hmul : ((p.reserve i).mulSat given).toNat = (p.reserve i).toNat * given.toNat :=
    Word.toNat_saturate_of_lt hexact
  have hceil : ((p.reserve i).toNat * given.toNat + rest.toNat - 1) / rest.toNat ≤
      (p.reserve i).toNat * given.toNat :=
    (ceilDiv_le_iff_le_smul hpos).2 (Nat.le_mul_of_pos_left _ hpos)
  refine ⟨hgiven, ?_⟩
  rw [hmul, Word.toNat_saturate_of_lt (Nat.lt_of_le_of_lt hceil hexact), ← hrest]
  exact le_smul_ceilDiv hpos

/-- So is what the curve needs, as long as the product that it divides fits. -/
theorem fair_inputFor (h : p.inputFor i o given = .ok net)
    (hexact : p.curve = .product → (p.reserve i).toNat * given.toNat < 2 ^ (128 : Nat)) :
    p.Fair i o net given := by
  unfold Fair
  split
  · rename_i hsum
    unfold inputFor at h
    rw [hsum] at h
    cases h
    exact Nat.le_refl _
  · rename_i hproduct
    exact (inputFor_product hproduct h (hexact hproduct)).2

theorem lt_reserve_of_swapIn (h : p.swapIn a b paid = .ok (given, p'))
    (hs : p.sides a b = .ok (i, o)) :
    given < p.reserve o := by
  unfold swapIn at h
  rw [hs] at h
  obtain ⟨-, ⟨⟩, h⟩ := Answer.bind_ok.1 h
  obtain ⟨n, -, h⟩ := Answer.bind_ok.1 h
  by_cases hn : p.reserve o ≤ n
  · simp [hn, refuse] at h
  · simp only [hn, if_false] at h
    obtain ⟨q, -, h⟩ := Answer.bind_ok.1 h
    cases h
    exact Nat.lt_of_not_le hn

theorem lt_reserve_of_swapOut (h : p.swapOut a b given = .ok (paid, p'))
    (hs : p.sides a b = .ok (i, o)) : given < p.reserve o := by
  unfold swapOut at h
  rw [hs] at h
  obtain ⟨-, ⟨⟩, h⟩ := Answer.bind_ok.1 h
  by_cases hn : p.reserve o ≤ given
  · simp [hn, refuse] at h
  · exact Nat.lt_of_not_le hn

theorem reserve_pos_settle (hne : i ≠ o) (h : p.settle i o paid given = .ok p')
    (hlt : given < p.reserve o) (side : Side) (hpos : 0 < (p.reserve side).toNat) :
    0 < (p'.reserve side).toNat := by
  obtain ⟨-, hi, ho⟩ := reserve_settle hne h
  rw [Word.lt_def] at hlt
  have hside : side = i ∨ side = o := by
    cases side <;> cases i <;> cases o <;> simp_all
  rcases hside with rfl | rfl
  · rw [hi, Word.toNat_addSat]
    omega
  · omega

/-- A swap with one pool: of all that is paid, or for all that is given. -/
inductive Trade
  | sell (assetIn assetOut : Asset) (paid : Amount)
  | buy (assetIn assetOut : Asset) (given : Amount)

namespace Trade

def perform (p : Pool) : Trade → Answer (Amount × Pool)
  | sell a b paid => p.swapIn a b paid
  | buy a b given => p.swapOut a b given

/-- The product that a purchase divides fits, and so does what is paid in the reserve. -/
def Fits (p : Pool) : Trade → Prop
  | sell a b paid => (p.swapIn a b paid).All fun _ => p.Fits a paid
  | buy a b given => (p.swapOut a b given).All fun bought => p.Fits a bought.1 ∧
      ∀ i ∈ p.side? a, p.curve = .product → (p.reserve i).toNat * given.toNat < 2 ^ (128 : Nat)

instance (p : Pool) : (t : Trade) → Decidable (t.Fits p)
  | sell a b paid => inferInstanceAs (Decidable ((p.swapIn a b paid).All fun _ => p.Fits a paid))
  | buy a b given => inferInstanceAs (Decidable ((p.swapOut a b given).All fun _ => _ ∧ _))

end Trade

/-- A refused swap leaves the pool as it is. -/
def next (p : Pool) (t : Trade) : Pool :=
  match t.perform p with
  | .ok (_, p') => p'
  | .error _ => p

def after (p : Pool) (ts : List Trade) : Pool := ts.foldl next p

def TradesFit (p : Pool) : List Trade → Prop
  | [] => True
  | t :: ts => t.Fits p ∧ TradesFit (p.next t) ts

instance decidableTradesFit (p : Pool) : (ts : List Trade) → Decidable (p.TradesFit ts)
  | [] => .isTrue trivial
  | t :: ts =>
    have := decidableTradesFit (p.next t) ts
    inferInstanceAs (Decidable (t.Fits p ∧ TradesFit (p.next t) ts))

theorem perform_keeps {t : Trade} {n : Amount} (h : t.perform p = .ok (n, p')) :
    (∀ side, 0 < (p.reserve side).toNat → 0 < (p'.reserve side).toNat) ∧
      (t.Fits p → p.invariant ≤ p'.invariant) := by
  cases t with
  | sell a b paid =>
    obtain ⟨i, o, hs, hcurve, hsettle⟩ := swapIn_ok h
    obtain ⟨-, -, hne⟩ := sides_ok hs
    have hlt := lt_reserve_of_swapIn h hs
    refine ⟨reserve_pos_settle hne hsettle hlt, fun hfits => ?_⟩
    have hroom := fits_of_sides hs (hfits _ h)
    have hnet : p.fee.complement.mulFloor paid ≤ paid := p.fee.complement.scaled_le paid.toNat
    have hfair := fair_outputFor hcurve (Nat.le_of_lt hlt)
      (Nat.lt_of_le_of_lt (Nat.add_le_add_left hnet _) hroom)
    exact (hfair.mono hnet).invariant_le hne hroom hsettle
  | buy a b given =>
    obtain ⟨i, o, net, hs, hcurve, hfee, hsettle⟩ := swapOut_ok h
    obtain ⟨-, -, hne⟩ := sides_ok hs
    have hlt := lt_reserve_of_swapOut h hs
    refine ⟨reserve_pos_settle hne hsettle hlt, fun hfits => ?_⟩
    obtain ⟨hfit, hproduct⟩ := hfits _ h
    have hfair := fair_inputFor hcurve (hproduct i (side?_of_sides hs))
    exact (hfair.mono (Rate.le_divCeil hfee)).invariant_le hne (fits_of_sides hs hfit) hsettle

theorem next_keeps (p : Pool) (t : Trade) :
    (∀ side, 0 < (p.reserve side).toNat → 0 < ((p.next t).reserve side).toNat) ∧
      (t.Fits p → p.invariant ≤ (p.next t).invariant) := by
  unfold next
  split
  · rename_i h
    exact perform_keeps h
  · exact ⟨fun _ => id, fun _ => Nat.le_refl _⟩

theorem after_keeps (p : Pool) (ts : List Trade) :
    (∀ side, 0 < (p.reserve side).toNat → 0 < ((p.after ts).reserve side).toNat) ∧
      (p.TradesFit ts → p.invariant ≤ (p.after ts).invariant) := by
  induction ts generalizing p with
  | nil => exact ⟨fun _ => id, fun _ => Nat.le_refl _⟩
  | cons t ts ih =>
    obtain ⟨hpos, hle⟩ := p.next_keeps t
    obtain ⟨hpos', hle'⟩ := ih (p.next t)
    exact ⟨fun side h => hpos' side (hpos side h),
      fun hfits => Nat.le_trans (hle hfits.1) (hle' hfits.2)⟩

/-- A swap that goes through, and any sequence of swaps, empties no reserve that was not empty, and
lowers neither the sum of the reserves on a sum curve nor their product on a product curve, as long
as the reserves have room for what is paid and the products that purchases divide fit. -/
theorem trades_keep_invariant (p : Pool) :
    (∀ (t : Trade) (n : Amount) (p' : Pool), t.perform p = .ok (n, p') →
      (∀ side, 0 < (p.reserve side).toNat → 0 < (p'.reserve side).toNat) ∧
        (t.Fits p → p.invariant ≤ p'.invariant)) ∧
    ∀ ts : List Trade,
      (∀ side, 0 < (p.reserve side).toNat → 0 < ((p.after ts).reserve side).toNat) ∧
        (p.TradesFit ts → p.invariant ≤ (p.after ts).invariant) :=
  ⟨fun _ _ _ h => perform_keeps h, p.after_keeps⟩

def deep (n : Nat) (curve : Curve) : Pool :=
  ⟨⟨.issued 1, Word.saturate (n * 10 ^ (18 : Nat))⟩,
    ⟨.native, Word.saturate (n * 10 ^ (18 : Nat))⟩, curve, .percent 1⟩

/-- Ten tokens sold into a deep pool, five bought back and a sale of nothing. -/
theorem trades_keep_invariant_of_deep :
    let ts : List Trade := [.sell (.issued 1) .native 10000000000000000000,
      .buy .native (.issued 1) 5000000000000000000, .sell .native (.issued 1) 0]
    (deep 10 .product).TradesFit ts ∧
      (deep 10 .product).invariant ≤ ((deep 10 .product).after ts).invariant := by
  intro ts
  have hfits : (deep 10 .product).TradesFit ts := by decide +kernel
  exact ⟨hfits, ((trades_keep_invariant _).2 ts).2 hfits⟩

/-- With a hundred tokens on either side the product that a purchase of ten divides saturates, and
the purchase costs less than four. A reserve that is full already keeps nothing of what is paid. -/
theorem invariant_lowered :
    (∃ paid p',
      (deep 100 .product).swapOut (.issued 1) .native 10000000000000000000 = .ok (paid, p') ∧
      paid < (4000000000000000000 : Amount) ∧ p'.invariant < (deep 100 .product).invariant) ∧
    let full : Pool := ⟨⟨.issued 1, Word.top⟩, ⟨.native, 100⟩, .sum, .zero⟩
    ∃ got p', full.swapIn (.issued 1) .native 10 = .ok (got, p') ∧
      p'.invariant < full.invariant :=
  ⟨⟨_, _, rfl, by decide +kernel, by decide +kernel⟩, _, _, rfl, by decide +kernel⟩

end Pool

end SwapFees
