import SwapFees.Proofs.Registry
import SwapFees.Proofs.RoundTrip

namespace SwapFees

namespace Rate

theorem mulFloor_eq_zero {r : Rate} (hr : r.parts = 0) (x : Amount) : r.mulFloor x = 0 := by
  apply Word.toNat_eq_zero.1
  simp [hr]

theorem exists_mulFloor_eq_one {r : Rate} (hr : 0 < r.parts) : ∃ x, (r.mulFloor x).toNat = 1 := by
  have hle := r.le_million
  let q := (million + r.parts - 1) / r.parts
  have hq : q < 2 ^ (128 : Nat) := by
    apply Nat.lt_of_le_of_lt (Nat.div_le_self _ _)
    unfold million at *
    omega
  have hlow : million ≤ r.parts * q := le_smul_ceilDiv hr
  have hhigh : r.parts * q ≤ million + r.parts - 1 := Nat.mul_div_le _ _
  refine ⟨Word.saturate q, ?_⟩
  rw [toNat_mulFloor, Word.toNat_saturate_of_lt hq, Nat.mul_comm]
  apply Nat.div_eq_of_lt_le
  · omega
  · omega

theorem le_mulFloor_top {r : Rate} (hr : 0 < r.parts) :
    2 * 10 ^ (18 : Nat) ≤ (r.mulFloor Word.top).toNat := by
  rw [toNat_mulFloor]
  apply (Nat.le_div_iff_mul_le (by decide)).2
  have htop : 2 * 10 ^ (18 : Nat) * million ≤ (Word.top : Amount).toNat := by decide
  have := Nat.mul_le_mul_left (Word.top : Amount).toNat hr
  omega

end Rate

namespace Pool

variable {p p' : Pool} {a b : Asset} {i o : Side} {paid got net : Amount} {price : Price}

theorem settle_of_le (h : got ≤ p.reserve o) : ∃ p', p.settle i o paid got = .ok p' := by
  have hrest : (p.reserve o).sub got = .ok ((p.reserve o).subSat got) := if_pos h
  exact ⟨_, Answer.bind_ok.2 ⟨_, hrest, rfl⟩⟩

theorem swapIn_of_lt (hs : p.sides a b = .ok (i, o))
    (hcurve : p.outputFor i o (p.fee.complement.mulFloor paid) = .ok got)
    (hlt : got < p.reserve o) : ∃ p', p.swapIn a b paid = .ok (got, p') := by
  have hle : ¬ p.reserve o ≤ got := Nat.not_le.2 hlt
  obtain ⟨p', hp'⟩ : ∃ p', p.settle i o paid got = .ok p' := settle_of_le (Nat.le_of_lt hlt)
  refine ⟨p', Answer.bind_ok.2 ⟨_, hs, Answer.bind_ok.2 ⟨_, hcurve, ?_⟩⟩⟩
  rw [if_neg hle]
  exact Answer.bind_ok.2 ⟨p', hp', rfl⟩

def Converts (p : Pool) (a b : Asset) : Prop :=
  ∃ paid got p', p.swapIn a b paid = .ok (got, p') ∧ got ≠ 0

theorem spotPrice_product (hcurve : p.curve = .product) (hs : p.sides a b = .ok (i, o))
    (h : p.spotPrice a b = .ok price) :
    p.reserve i ≠ 0 ∧ price.toNat = (p.reserve o).toNat * Price.unit / (p.reserve i).toNat := by
  obtain ⟨sides, hsides, h⟩ := Answer.bind_ok.1 h
  rw [hs] at hsides
  cases hsides
  rw [hcurve] at h
  dsimp only at h
  split at h
  · cases h
  · rename_i hratio
    cases h
    unfold Price.ofRatio? at hratio
    split at hratio
    · cases hratio
    · rename_i hpaid
      exact ⟨hpaid, Word.ofNat?_eq_some.1 hratio⟩

/-- Where a reserve `x` is at most 10^18 times a reserve `y` above one, an input `n` of 2 * 10^18 or
more gives between one and less than `y`, whatever saturates. -/
theorem output_between {x y n top : Nat} (hx : 0 < x) (hy : 1 < y) (hprice : x ≤ y * 10 ^ (18 : Nat))
    (hn : 2 * 10 ^ (18 : Nat) ≤ n) (htop : n ≤ top) :
    1 ≤ min (n * y) top / min (x + n) top ∧ min (n * y) top / min (x + n) top < y := by
  obtain ⟨z, rfl⟩ : ∃ z, y = z + 2 := ⟨y - 2, by omega⟩
  have hpos : 0 < min (x + n) top := by omega
  constructor
  · apply (Nat.le_div_iff_mul_le hpos).2
    have hz := Nat.mul_le_mul_right (z + 1) hn
    have hsplit : n * (z + 2) = n * (z + 1) + n := Nat.mul_succ n (z + 1)
    omega
  · apply (Nat.div_lt_iff_lt_mul hpos).2
    by_cases hdeep : x + n ≤ top
    · have hlt : n * (z + 2) < (z + 2) * (x + n) := by
        rw [Nat.mul_comm n]
        exact Nat.mul_lt_mul_of_pos_left (by omega) (by omega)
      rw [Nat.min_eq_left hdeep]
      omega
    · have hlt : top * 2 ≤ (z + 2) * top := by
        rw [Nat.mul_comm]
        exact Nat.mul_le_mul_right _ (by omega)
      rw [Nat.min_eq_right (by omega : top ≤ x + n)]
      omega

/-- What a product pool with a price above zero gives for a large amount is something, and less than
what it has. -/
theorem output_of_price (hcurve : p.curve = .product) (hs : p.sides a b = .ok (i, o))
    (hprice : p.spotPrice a b = .ok price) (hpositive : price ≠ 0)
    (hreserve : 1 < (p.reserve o).toNat) (hnet : 2 * 10 ^ (18 : Nat) ≤ net.toNat) :
    ∃ got, p.outputFor i o net = .ok got ∧ got ≠ 0 ∧ got < p.reserve o := by
  obtain ⟨hin, hquotient⟩ := spotPrice_product hcurve hs hprice
  have hx : 0 < (p.reserve i).toNat := Nat.pos_of_ne_zero fun e => hin (Word.toNat_eq_zero.1 e)
  have hout : p.reserve o ≠ 0 := fun e => by simp [e] at hreserve
  have hratio : (p.reserve i).toNat ≤ (p.reserve o).toNat * 10 ^ (18 : Nat) := by
    apply Nat.le_of_not_lt
    intro hlt
    apply hpositive
    apply Word.toNat_eq_zero.1
    rw [hquotient]
    exact Nat.div_eq_of_lt hlt
  have htop : net.toNat ≤ 2 ^ (128 : Nat) - 1 := by
    have := net.isLt
    omega
  obtain ⟨hone, hless⟩ := output_between hx hreserve hratio hnet htop
  have hdepth : (p.reserve i).addSat net ≠ 0 := fun e => hin (Word.addSat_eq_zero.1 e).1
  rw [← Word.toNat_mulSat, ← Word.toNat_addSat] at hone hless
  have hfits := Word.toNat_saturate_of_lt (Nat.lt_trans hless (p.reserve o).isLt)
  refine ⟨Word.saturate ((net.mulSat (p.reserve o)).toNat / ((p.reserve i).addSat net).toNat),
    ?_, ?_, ?_⟩
  · simp [outputFor, hcurve, hin, hout, hdepth]
  · intro e
    rw [e, Word.toNat_zero] at hfits
    omega
  · rw [Word.lt_def, hfits]
    exact hless

theorem outputFor_zero (h : p.outputFor i o 0 = .ok got) : got = 0 := by
  cases hcurve : p.curve with
  | sum => exact outputFor_sum hcurve h
  | product =>
    apply Word.toNat_eq_zero.1
    rw [(outputFor_product hcurve h).2, Word.toNat_zero, Nat.zero_mul, Nat.zero_min, Nat.zero_div]

/-- A pool with a price above zero converts some amount exactly if it does not take all of it as its
fee and has more than one to give. -/
theorem converts_iff (hs : p.sides a b = .ok (i, o)) (hprice : p.spotPrice a b = .ok price)
    (hpositive : price ≠ 0) :
    p.Converts a b ↔ p.fee.parts < million ∧ 1 < (p.reserve o).toNat := by
  constructor
  · rintro ⟨paid, got, p', h, hgot⟩
    have hlt := lt_reserve_of_swapIn h hs
    rw [Word.lt_def] at hlt
    have hone : 0 < got.toNat := Nat.pos_of_ne_zero fun e => hgot (Word.toNat_eq_zero.1 e)
    refine ⟨?_, by omega⟩
    apply Nat.lt_of_not_le
    intro hwhole
    obtain ⟨i', o', -, hcurve, -⟩ := swapIn_ok h
    have hparts : p.fee.complement.parts = 0 := by
      rw [Rate.parts_complement]
      omega
    rw [Rate.mulFloor_eq_zero hparts] at hcurve
    exact hgot (outputFor_zero hcurve)
  · rintro ⟨hfee, hreserve⟩
    have hparts : 0 < p.fee.complement.parts := by
      rw [Rate.parts_complement]
      omega
    cases hcurve : p.curve with
    | sum =>
      obtain ⟨paid, hnet⟩ := Rate.exists_mulFloor_eq_one hparts
      have hgive : p.outputFor i o (p.fee.complement.mulFloor paid) =
          .ok (p.fee.complement.mulFloor paid) := by
        rw [outputFor, hcurve]
      have hlt : p.fee.complement.mulFloor paid < p.reserve o := by
        rw [Word.lt_def, hnet]
        exact hreserve
      obtain ⟨p', h⟩ := swapIn_of_lt hs hgive hlt
      refine ⟨paid, _, p', h, fun e => ?_⟩
      rw [e, Word.toNat_zero] at hnet
      omega
    | product =>
      obtain ⟨got, hgive, hgot, hlt⟩ :=
        output_of_price hcurve hs hprice hpositive hreserve (Rate.le_mulFloor_top hparts)
      obtain ⟨p', h⟩ := swapIn_of_lt hs hgive hlt
      exact ⟨_, got, p', h, hgot⟩

end Pool

namespace Pools

variable {ps : Pools} {t : FeeToken} {base : Asset}

/-- Some amount of the token is sold for some of `base` through its pool. -/
def Converts (ps : Pools) (t : FeeToken) (base : Asset) : Prop :=
  ∃ paid out ps', ps.carry ⟨t.asset, paid⟩ [⟨t.pool, base⟩] = .ok (out, ps') ∧ out.amount ≠ 0

theorem converts_iff {p : Pool} (hp : ps.get? t.pool = some p) :
    ps.Converts t base ↔ p.Converts t.asset base := by
  constructor
  · rintro ⟨paid, out, ps', hcarry, hout⟩
    obtain ⟨q, n, q', hq, hsold, hrest⟩ := carry_cons_ok hcarry
    obtain rfl := Option.some.inj (hp.symm.trans hq)
    cases hrest
    exact ⟨paid, n, q', hsold, hout⟩
  · rintro ⟨paid, n, p', hsold, hn⟩
    exact ⟨paid, ⟨base, n⟩, ps.insert t.pool p', carry_cons hp hsold, hn⟩

theorem checkPath_priced (h : ps.checkPath t base = .ok ()) :
    ∃ p i o price, ps.get? t.pool = some p ∧ p.sides t.asset base = .ok (i, o) ∧
      p.spotPrice t.asset base = .ok price ∧ price ≠ 0 := by
  obtain ⟨hne, p, hp, hassets⟩ := Registry.checkPath_ok h
  unfold checkPath at h
  simp only [hne, if_false, hp, hassets, and_self, if_true] at h
  split at h
  · cases h
  rename_i price hprice
  split at h
  · cases h
  rename_i hpositive
  obtain ⟨⟨i, o⟩, hs, -⟩ := Answer.bind_ok.1 hprice
  exact ⟨p, i, o, price, hp, hs, hprice, hpositive⟩

/-- A token whose path is accepted can be converted exactly if its pool does not take all that is
sold as its fee and has more than one of the base asset. -/
theorem checkPath_converts_iff (h : ps.checkPath t base = .ok ()) :
    ∃ p i o, ps.get? t.pool = some p ∧ p.sides t.asset base = .ok (i, o) ∧
      (ps.Converts t base ↔ p.fee.parts < million ∧ 1 < (p.reserve o).toNat) := by
  obtain ⟨p, i, o, price, hp, hs, hprice, hpositive⟩ := checkPath_priced h
  refine ⟨p, i, o, hp, hs, ?_⟩
  rw [converts_iff hp]
  exact Pool.converts_iff hs hprice hpositive

def lone (tokens base : Amount) (curve : Curve) (fee : Rate) : Pools :=
  .ofList [(1, ⟨⟨.issued 1, tokens⟩, ⟨.native, base⟩, curve, fee⟩)]

theorem converts_through_lone :
    (lone 1000 2 .product (.percent 1)).Converts ⟨.issued 1, 1⟩ .native := by
  obtain ⟨p, i, o, hp, hs, hiff⟩ :=
    @checkPath_converts_iff (lone 1000 2 .product (.percent 1)) ⟨.issued 1, 1⟩ .native
      (by decide +kernel)
  cases hp
  cases hs
  exact hiff.2 (by decide)

theorem lone_converts_iff {tokens base : Amount} {curve : Curve} {fee : Rate}
    (h : (lone tokens base curve fee).checkPath ⟨.issued 1, 1⟩ .native = .ok ()) :
    (lone tokens base curve fee).Converts ⟨.issued 1, 1⟩ .native ↔
      fee.parts < million ∧ 1 < base.toNat := by
  obtain ⟨p, i, o, price, hp, hs, hprice, hpositive⟩ := checkPath_priced h
  rw [converts_iff hp, Pool.converts_iff hs hprice hpositive]
  cases hp
  cases hs
  rfl

/-- A path is also accepted through a pool that has nothing of the base asset, through one that has
a single unit of it and through one that takes everything as its fee. Nothing can be converted by
any of them. -/
theorem accepted_without_conversion :
    let t : FeeToken := ⟨.issued 1, 1⟩
    let empty := lone 1000 0 .sum .zero
    let single := lone 1000 1 .product .zero
    let greedy := lone 1000 1000 .product .one
    (empty.checkPath t .native = .ok () ∧ ¬ empty.Converts t .native) ∧
      (single.checkPath t .native = .ok () ∧ ¬ single.Converts t .native) ∧
      (greedy.checkPath t .native = .ok () ∧ ¬ greedy.Converts t .native) := by
  intro t empty single greedy
  have hempty : empty.checkPath t .native = .ok () := by decide +kernel
  have hsingle : single.checkPath t .native = .ok () := by decide +kernel
  have hgreedy : greedy.checkPath t .native = .ok () := by decide +kernel
  refine ⟨⟨hempty, ?_⟩, ⟨hsingle, ?_⟩, ⟨hgreedy, ?_⟩⟩
  · rw [lone_converts_iff hempty]
    decide
  · rw [lone_converts_iff hsingle]
    decide
  · rw [lone_converts_iff hgreedy]
    decide

end Pools

end SwapFees
