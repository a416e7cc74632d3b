import Mathlib.Algebra.Order.Floor.Div
import SwapFees.Proofs.Convertible
import SwapFees.Proofs.Sender

namespace SwapFees

namespace Price

theorem le_div_add_ceilDiv {q m a : Nat} (h : q * unit ≤ m + a) : q ≤ m / unit + a ⌈/⌉ unit := by
  have hunit : 0 < unit := by decide
  have hceil : a ≤ unit * (a ⌈/⌉ unit) := le_smul_ceilDiv hunit
  calc q ≤ (m + unit * (a ⌈/⌉ unit)) / unit := (Nat.le_div_iff_mul_le hunit).2 (by omega)
    _ = m / unit + a ⌈/⌉ unit := Nat.add_mul_div_left _ _ hunit

/-- What is worth no more than `a` at the exact price `y / x` exceeds the value of `a` at the
rounded price by no more than `a` parts of a unit. -/
theorem mul_unit_le {x y a q : Nat} (hx : 0 < x) (h : q * x ≤ a * y) :
    q * unit ≤ y * unit / x * a + a := by
  have hprice : y * unit ≤ x * (y * unit / x + 1) := Nat.le_of_lt (Nat.lt_mul_div_succ _ hx)
  apply Nat.le_of_mul_le_mul_right _ hx
  calc q * unit * x = q * x * unit := Nat.mul_right_comm _ _ _
    _ ≤ a * y * unit := Nat.mul_le_mul_right _ h
    _ = a * (y * unit) := Nat.mul_assoc _ _ _
    _ ≤ a * (x * (y * unit / x + 1)) := Nat.mul_le_mul_left _ hprice
    _ = (y * unit / x * a + a) * x := by
        rw [Nat.mul_left_comm, Nat.mul_succ, Nat.mul_comm a, Nat.mul_comm x]

theorem output_le_value {x y n a top : Nat} (hx : 0 < x) (hn : n ≤ a) :
    min (n * y) top / min (x + n) top ≤ min (y * unit / x * a / unit) top + a ⌈/⌉ unit := by
  by_cases hdeep : x + n ≤ top
  · rw [Nat.min_eq_left hdeep]
    have htop : min (n * y) top / (x + n) ≤ top :=
      Nat.le_trans (Nat.div_le_self _ _) (Nat.min_le_right _ _)
    have hshare : min (n * y) top / (x + n) * x ≤ a * y := by
      calc min (n * y) top / (x + n) * x ≤ min (n * y) top / (x + n) * (x + n) :=
            Nat.mul_le_mul_left _ (Nat.le_add_right x n)
        _ ≤ min (n * y) top := Nat.div_mul_le_self _ _
        _ ≤ n * y := Nat.min_le_left _ _
        _ ≤ a * y := Nat.mul_le_mul_right y hn
    have := le_div_add_ceilDiv (mul_unit_le hx hshare)
    omega
  · -- The pool is so deep that it gives one unit at most.
    rw [Nat.min_eq_right (Nat.le_of_not_le hdeep)]
    have hone : min (n * y) top / top ≤ 1 := by
      apply Nat.div_le_of_le_mul
      omega
    by_cases ha : a = 0
    · have hnothing : n = 0 := by omega
      simp [hnothing]
    · have hunit : 0 < unit := by decide
      have hceil : a ≤ unit * (a ⌈/⌉ unit) := le_smul_ceilDiv hunit
      have hsome : 0 < a ⌈/⌉ unit := by
        apply Nat.pos_of_ne_zero
        intro e
        rw [e] at hceil
        omega
      exact Nat.le_trans hone (Nat.le_add_left_of_le hsome)

theorem value_one (x : Amount) : one.value x = x := by
  have hone : one.toNat = unit := by decide
  rw [value, hone, Nat.mul_div_cancel_left _ (by decide), Word.saturate_toNat]

end Price

namespace Pool

variable {p p' : Pool} {a b : Asset} {i o : Side} {paid got net : Amount} {price : Price}

theorem spotPrice_sum (hcurve : p.curve = .sum) (h : p.spotPrice a b = .ok price) :
    price = Price.one := by
  obtain ⟨sides, -, h⟩ := Answer.bind_ok.1 h
  simp only [hcurve] at h
  exact (Except.ok.inj h).symm

/-- On either curve, an input that is at most `paid` gives at most one unit above the value of
`paid` for each 10^18 of it. -/
theorem outputFor_le_value (hs : p.sides a b = .ok (i, o)) (hprice : p.spotPrice a b = .ok price)
    (hnet : net ≤ paid) (h : p.outputFor i o net = .ok got) :
    got.toNat ≤ (price.value paid).toNat + paid.toNat ⌈/⌉ Price.unit := by
  cases hcurve : p.curve with
  | sum =>
    rw [spotPrice_sum hcurve hprice, Price.value_one, outputFor_sum hcurve h]
    exact Nat.le_add_right_of_le hnet
  | product =>
    obtain ⟨hin, hquotient⟩ := spotPrice_product hcurve hs hprice
    have hx : 0 < (p.reserve i).toNat := Nat.pos_of_ne_zero fun e => hin (Word.toNat_eq_zero.1 e)
    rw [(outputFor_product hcurve h).2, Price.value, Word.toNat_saturate, hquotient]
    exact Price.output_le_value hx hnet

theorem swapIn_le_value (hprice : p.spotPrice a b = .ok price)
    (h : p.swapIn a b paid = .ok (got, p')) :
    got.toNat ≤ (price.value paid).toNat + paid.toNat ⌈/⌉ Price.unit := by
  obtain ⟨i, o, hs, hcurve, -⟩ := swapIn_ok h
  have hnet : p.fee.complement.mulFloor paid ≤ paid := p.fee.complement.scaled_le paid.toNat
  exact outputFor_le_value hs hprice hnet hcurve

end Pool

namespace Pools

variable {ps ps' : Pools} {c out : Coin} {hop : HopIn} {price : Price}

theorem carry_le_value (hprice : ps.spotPrice hop.pool c.asset hop.assetOut = .ok price)
    (h : ps.carry c [hop] = .ok (out, ps')) :
    out.amount.toNat ≤ (price.value c.amount).toNat + c.amount.toNat ⌈/⌉ Price.unit := by
  obtain ⟨p, n, p', hp, hsold, hrest⟩ := carry_cons_ok h
  cases hrest
  obtain ⟨q, hq, hspot⟩ := Answer.bind_ok.1 hprice
  have hsame : q = p := Option.some.inj ((find_ok.1 hq).symm.trans hp)
  rw [hsame] at hspot
  exact Pool.swapIn_le_value hspot hsold

end Pools

namespace Chain

variable {c : Chain} {coin v : Coin} {id : PoolId}

theorem valueInBase_registered (hbase : coin.asset ≠ c.base)
    (hid : c.registry.pool? coin.asset = some id) (h : c.valueInBase coin = .ok v) :
    ∃ price, c.pools.spotPrice id coin.asset c.base = .ok price ∧
      v = ⟨c.base, price.value coin.amount⟩ := by
  rw [valueInBase, if_neg hbase, hid] at h
  obtain ⟨price, hprice, h⟩ := Answer.bind_ok.1 h
  exact ⟨price, hprice, (Except.ok.inj h).symm⟩

end Chain

namespace Conversion

variable {s : Settings} {w w' : World} {chain chain' : Chain} {coin v c : Coin}

theorem Outcome.le_value (h : Outcome s chain.base coin chain (.converted c) chain')
    (hv : chain.valueInBase coin = .ok v) :
    c.asset = v.asset ∧
      c.amount.toNat ≤ v.amount.toNat + coin.amount.toNat ⌈/⌉ Price.unit := by
  cases h with
  | kept hbase =>
    rw [Chain.valueInBase, if_pos hbase] at hv
    rw [← Except.ok.inj hv]
    exact ⟨rfl, Nat.le_add_right _ _⟩
  | exchanged hbase _ ht hasset _ hcarry _ _ =>
    obtain ⟨price, hprice, hvalue⟩ :=
      Chain.valueInBase_registered hbase (Chain.pool?_of_lookup? ht) hv
    rw [hvalue]
    exact ⟨hasset, Pools.carry_le_value hprice hcarry⟩

/-- Of a coin that has a value in the base asset, a conversion makes at most one unit above that
value for each 10^18 of the coin, begun ones included. -/
theorem converted_le_value (hv : w.chain.valueInBase coin = .ok v)
    (h : (convert w.chain.base coin).run s w = (.ok (.converted c), w')) :
    c.asset = v.asset ∧
      c.amount.toNat ≤ v.amount.toNat + coin.amount.toNat ⌈/⌉ Price.unit :=
  (convert_outcome h).le_value hv

/-- Three of token 1 are worth little less than one native unit, which both the price and the value
round away. The pool pays the unit, since it has one more of its own than a third of the tokens. -/
theorem converted_le_value_at_bound :
    let w := Swap.market 1 { providers := 1, sufficients := 1, free := 50 } .native
    let w := w.with { w.chain with
      registry := Registry.empty.insert ⟨.issued 1, 1⟩
      pools := .ofList [(1, ⟨⟨.issued 1, 300000000000000000000⟩,
        ⟨.native, 100000000000000000001⟩, .product, .zero⟩)] }
    let s := { Swap.plainSettings with feeAccount := 9 }
    let converted := (convert w.chain.base ⟨.issued 1, 3⟩).run s w
    w.chain.valueInBase ⟨.issued 1, 3⟩ = .ok ⟨.native, 0⟩ ∧
      converted.1 = .ok (.converted ⟨.native, 1⟩) ∧
      (1 : Amount).toNat ≤ (0 : Amount).toNat + (3 : Amount).toNat ⌈/⌉ Price.unit := by
  intro w w' s converted
  have hvalue : w'.chain.valueInBase ⟨.issued 1, 3⟩ = .ok ⟨.native, 0⟩ := by decide +kernel
  have hconverted : converted.1 = .ok (.converted ⟨.native, 1⟩) := by decide +kernel
  exact ⟨hvalue, hconverted, (converted_le_value hvalue (Prod.ext hconverted rfl)).2⟩

end Conversion

end SwapFees
