import SwapFees.Proofs.Curve
import SwapFees.Proofs.Locality

namespace SwapFees

namespace Pool

variable {p p' p'' : Pool} {a b : Asset} {i o : Side} {paid given more got net : Amount}

/-- What `swapOut` multiplies and divides fits. -/
def OutExact (p : Pool) (assetIn assetOut : Asset) (given : Amount) : Prop :=
  (p.sides assetIn assetOut).All fun side =>
    (p.curve = .product → (p.reserve side.1).toNat * given.toNat < 2 ^ (128 : Nat)) ∧
      (p.inputFor side.1 side.2 given).All fun net => p.fee.complement.DivExact net

def InExact (p : Pool) (assetIn assetOut : Asset) (paid : Amount) : Prop :=
  (p.sides assetIn assetOut).All fun side => p.curve = .product →
    (p.fee.complement.mulFloor paid).toNat * (p.reserve side.2).toNat < 2 ^ (128 : Nat)

instance (p : Pool) (assetIn assetOut : Asset) (given : Amount) :
    Decidable (p.OutExact assetIn assetOut given) :=
  inferInstanceAs (Decidable ((p.sides assetIn assetOut).All fun _ => _ ∧ _))

instance (p : Pool) (assetIn assetOut : Asset) (paid : Amount) :
    Decidable (p.InExact assetIn assetOut paid) :=
  inferInstanceAs (Decidable ((p.sides assetIn assetOut).All fun _ => _ → _))

theorem le_outputFor_product (hcurve : p.curve = .product) (h : p.outputFor i o net = .ok got)
    (hexact : net.toNat * (p.reserve o).toNat < 2 ^ (128 : Nat))
    (hgiven : given.toNat * ((p.reserve i).toNat + net.toNat) ≤
      net.toNat * (p.reserve o).toNat) : given ≤ got := by
  obtain ⟨hin, hquotient⟩ := outputFor_product hcurve h
  have hx : 0 < (p.reserve i).toNat := Nat.pos_of_ne_zero fun e => hin (Word.toNat_eq_zero.1 e)
  rw [Word.le_def, hquotient, Nat.min_eq_left (by omega)]
  apply (Nat.le_div_iff_mul_le (by omega)).2
  -- A depth that saturates only makes the output larger.
  exact Nat.le_trans (Nat.mul_le_mul_left _ (Nat.min_le_left _ _)) hgiven

theorem mul_add_le_of_mul_le {x y n m : Nat} (h : x * n ≤ (y - n) * m) (hn : n ≤ y) :
    n * (x + m) ≤ m * y :=
  calc n * (x + m) = x * n + m * n := by rw [Nat.mul_add, Nat.mul_comm n x, Nat.mul_comm n m]
    _ ≤ (y - n) * m + m * n := Nat.add_le_add_right h _
    _ = m * y := by rw [Nat.mul_comm _ m, ← Nat.mul_add, Nat.sub_add_cancel hn]

/-- What the curve needs for an output, or more, gives at least that output. -/
theorem le_outputFor (hneed : p.inputFor i o given = .ok net)
    (hgive : p.outputFor i o more = .ok got) (hle : net ≤ more)
    (hneedExact : p.curve = .product → (p.reserve i).toNat * given.toNat < 2 ^ (128 : Nat))
    (hgiveExact : p.curve = .product → more.toNat * (p.reserve o).toNat < 2 ^ (128 : Nat)) :
    given ≤ got := by
  cases hcurve : p.curve with
  | sum =>
    rw [inputFor, hcurve] at hneed
    rw [outputFor_sum hcurve hgive, Except.ok.inj hneed]
    exact hle
  | product =>
    obtain ⟨hgiven, hproportion⟩ := inputFor_product hcurve hneed (hneedExact hcurve)
    exact le_outputFor_product hcurve hgive (hgiveExact hcurve)
      (mul_add_le_of_mul_le (Nat.le_trans hproportion (Nat.mul_le_mul_left _ hle)) hgiven)

theorem le_swapIn_of_swapOut (hbuy : p.swapOut a b given = .ok (paid, p'))
    (hsell : p.swapIn a b more = .ok (got, p'')) (hle : paid ≤ more)
    (hbuyExact : p.OutExact a b given) (hsellExact : p.InExact a b more) : given ≤ got := by
  obtain ⟨i, o, net, hs, hneed, hfee, -⟩ := swapOut_ok hbuy
  obtain ⟨i', o', hs', hgive, -⟩ := swapIn_ok hsell
  obtain ⟨rfl, rfl⟩ := Prod.mk.inj (Except.ok.inj (hs.symm.trans hs'))
  obtain ⟨hneedExact, hfeeExact⟩ := hbuyExact _ hs
  exact le_outputFor hneed hgive (Rate.le_mulFloor hfee (hfeeExact net hneed) hle) hneedExact
    (hsellExact _ hs)

end Pool

namespace Pools

/-- The products and quotients of `require` fit. -/
def RequireExact (ps : Pools) (tokenOut : Coin) : List HopOut → Prop
  | [] => True
  | hop :: rest => RequireExact ps tokenOut rest ∧
      (ps.require tokenOut rest).All fun r => (r.2.find hop.pool).All fun p =>
        p.OutExact hop.assetIn (HopOut.next tokenOut.asset rest) r.1

def CarryExact (ps : Pools) (c : Coin) : List HopIn → Prop
  | [] => True
  | hop :: rest => (ps.find hop.pool).All fun p =>
      p.InExact c.asset hop.assetOut c.amount ∧
        (p.swapIn c.asset hop.assetOut c.amount).All fun r =>
          CarryExact (ps.insert hop.pool r.2) ⟨hop.assetOut, r.1⟩ rest

instance decidableRequireExact (ps : Pools) (tokenOut : Coin) :
    (route : List HopOut) → Decidable (RequireExact ps tokenOut route)
  | [] => .isTrue trivial
  | hop :: rest =>
    have := decidableRequireExact ps tokenOut rest
    inferInstanceAs (Decidable (RequireExact ps tokenOut rest ∧
      (ps.require tokenOut rest).All fun r => (r.2.find hop.pool).All fun p =>
        p.OutExact hop.assetIn (HopOut.next tokenOut.asset rest) r.1))

instance decidableCarryExact (ps : Pools) (c : Coin) :
    (route : List HopIn) → Decidable (CarryExact ps c route)
  | [] => .isTrue trivial
  | hop :: rest =>
    have := fun r : Amount × Pool =>
      decidableCarryExact (ps.insert hop.pool r.2) ⟨hop.assetOut, r.1⟩ rest
    inferInstanceAs (Decidable ((ps.find hop.pool).All fun p =>
      p.InExact c.asset hop.assetOut c.amount ∧
        (p.swapIn c.asset hop.assetOut c.amount).All fun r =>
          CarryExact (ps.insert hop.pool r.2) ⟨hop.assetOut, r.1⟩ rest))

/-- What a route requires for an output, or more, is carried along it to at least that output. The
pools must be distinct, so that each is found by the sale as it was by the purchase. -/
theorem le_carry_of_require {ps qs ps' qs' : Pools} {tokenOut out : Coin} {route : List HopOut}
    {n more : Amount} (hnodup : (route.map HopOut.pool).Nodup)
    (hsame : SameOn (route.map HopOut.pool) ps qs)
    (hbuy : ps.require tokenOut route = .ok (n, ps'))
    (hsell : qs.carry ⟨HopOut.next tokenOut.asset route, more⟩
      (HopOut.forward tokenOut.asset route) = .ok (out, qs'))
    (hle : n ≤ more) (hbuyExact : ps.RequireExact tokenOut route)
    (hsellExact : qs.CarryExact ⟨HopOut.next tokenOut.asset route, more⟩
      (HopOut.forward tokenOut.asset route)) :
    tokenOut.amount ≤ out.amount := by
  induction route generalizing qs ps' n more with
  | nil =>
    cases hbuy
    cases hsell
    exact hle
  | cons hop rest ih =>
    rw [List.map_cons, List.nodup_cons] at hnodup
    obtain ⟨m, rs, p, p', hrest, hp, hbought, rfl⟩ := require_cons_ok hbuy
    obtain ⟨q, got, q', hq, hsold, hsell⟩ := carry_cons_ok hsell
    obtain ⟨hrestExact, hhopExact⟩ := hbuyExact
    -- The rest of the purchase left this pool alone.
    have hpool : q = p := by
      rw [require_frame hrest hnodup.1, hsame _ List.mem_cons_self] at hp
      exact Option.some.inj (hq.symm.trans hp)
    subst hpool
    obtain ⟨hinExact, hcarryExact⟩ := hsellExact q (find_ok.2 hq)
    have hgot : m ≤ got := Pool.le_swapIn_of_swapOut hbought hsold hle
      (hhopExact _ hrest q (find_ok.2 hp)) hinExact
    refine ih hnodup.2 (fun id hid => ?_) hrest hsell hgot hrestExact (hcarryExact _ hsold)
    have hne : hop.pool ≠ id := fun e => hnodup.1 (e ▸ hid)
    rw [SortedMap.get?_insert_of_ne _ _ hne]
    exact hsame id (List.mem_cons_of_mem _ hid)

end Pools

namespace Swap

/-- The products and quotients of a purchase fit: those of its route and the one of its fee. -/
def OutExact (c : Chain) (route : List HopOut) (tokenOut : Coin) : Prop :=
  c.pools.RequireExact tokenOut route ∧
    (c.pools.quote tokenOut route).All fun quoted => c.takerFee.complement.DivExact quoted.1

def InExact (c : Chain) (route : List HopIn) (tokenIn : Coin) : Prop :=
  c.pools.CarryExact (FeeSplit.subtract tokenIn c.takerFee).net route

instance (c : Chain) (route : List HopOut) (tokenOut : Coin) :
    Decidable (OutExact c route tokenOut) :=
  inferInstanceAs (Decidable (_ ∧ _))

instance (c : Chain) (route : List HopIn) (tokenIn : Coin) : Decidable (InExact c route tokenIn) :=
  inferInstanceAs (Decidable (Pools.CarryExact _ _ _))

open Effect

variable {s : Settings} {w w₁ w₂ : World} {sender : AccountId}

/-- A sale of what a purchase along the same pools cost, taker fee included, delivers at least what
was purchased. The pools must be distinct, and the fee must be accepted without visiting one of
them; no product and no quotient may saturate. -/
theorem swapIn_covers_swapOut {first : HopOut} {rest : List HopOut} {tokenOut : Coin}
    {maxIn paid minOut got : Amount} (hs : s.routerFailure = none)
    (hnodup : ((first :: rest).map HopOut.pool).Nodup)
    (hapart : Apart w.chain first.assetIn ((first :: rest).map HopOut.pool))
    (hbuy : (swapOut sender (first :: rest) maxIn tokenOut).run s w = (.ok paid, w₁))
    (hsell : (swapIn sender (HopOut.forward tokenOut.asset (first :: rest)) ⟨first.assetIn, paid⟩
      minOut).run s w = (.ok got, w₂))
    (hbuyExact : OutExact w.chain (first :: rest) tokenOut)
    (hsellExact : InExact w.chain (HopOut.forward tokenOut.asset (first :: rest))
      ⟨first.assetIn, paid⟩) :
    tokenOut.amount ≤ got := by
  obtain ⟨quoted, ps, split, hrequire, hadd, hpaid⟩ := swapOut_of_apart hs hapart hbuy
  rw [← Pools.map_pool_forward tokenOut.asset] at hapart
  obtain ⟨out, qs, hcarry, rfl⟩ := swapIn_of_apart hs hapart hsell
  have hfeeExact := hbuyExact.2 (quoted, ps) hrequire
  have htotal : paid.toNat = quoted.toNat + split.fee.amount.toNat := by
    rw [hpaid]
    exact Word.toNat_saturate_of_lt (FeeSplit.add_total hadd)
  -- What the fee leaves of the price is at least the quote.
  have hnet := FeeSplit.le_subtract_of_add hadd hfeeExact htotal
  have hcoin : (FeeSplit.subtract ⟨first.assetIn, paid⟩ w.chain.takerFee).net =
      ⟨first.assetIn, (FeeSplit.subtract ⟨first.assetIn, paid⟩ w.chain.takerFee).net.amount⟩ := by
    obtain ⟨hasset, -⟩ := FeeSplit.subtract_parts ⟨first.assetIn, paid⟩ w.chain.takerFee
    exact congrArg (Coin.mk · _) hasset
  unfold InExact at hsellExact
  rw [hcoin] at hcarry hsellExact
  exact Pools.le_carry_of_require hnodup (fun _ _ => rfl) hrequire hcarry hnet hbuyExact.1
    hsellExact

/-- Token 1 reaches token 2 through a product and a sum pool; every step costs one percent. -/
def crossing : World where
  chain :=
    { ledger :=
        { minBalance := 1, issuance := 0, accounts := .ofList [(9, { sufficients := 1 })]
          tokens := .ofList [
            (1, { sufficient := true, minBalance := 1, supply := 1000,
                  holdings := .ofList [(9, 1000)] }),
            (2, { sufficient := true, minBalance := 1 })] }
      pools := .ofList [(1, ⟨⟨.issued 1, 100000⟩, ⟨.native, 50000⟩, .product, .percent 1⟩),
        (2, ⟨⟨.native, 1000⟩, ⟨.issued 2, 1000⟩, .sum, .percent 1⟩)]
      base := .issued 1, registry := .empty, burned := ∅, cursor := none, takerFee := .percent 1
      events := [] }
  log := []

/-- From token 1 over native currency to the output. -/
def crossingRoute : List HopOut := [⟨1, .issued 1⟩, ⟨2, .native⟩]

/-- A hundred of token 2 cost 211 of token 1, which sell for a hundred again. -/
theorem swapIn_covers_swapOut_in_crossing :
    ((swapOut 9 crossingRoute 1000 ⟨.issued 2, 100⟩).run plainSettings crossing).1 = .ok 211 ∧
      ∃ got, ((swapIn 9 (HopOut.forward (.issued 2) crossingRoute) ⟨.issued 1, 211⟩ 0).run
        plainSettings crossing).1 = .ok got ∧ (100 : Amount) ≤ got := by
  have hbought : ((swapOut 9 crossingRoute 1000 ⟨.issued 2, 100⟩).run plainSettings crossing).1 =
      .ok 211 := by decide +kernel
  have hsold : ((swapIn 9 (HopOut.forward (.issued 2) crossingRoute) ⟨.issued 1, 211⟩ 0).run
      plainSettings crossing).1 = .ok 100 := by decide +kernel
  obtain ⟨w₁, hbuy⟩ := fst_ok_iff.1 hbought
  obtain ⟨w₂, hsell⟩ := fst_ok_iff.1 hsold
  have hcovers := swapIn_covers_swapOut rfl (by decide) (by decide) hbuy hsell (by decide +kernel)
    (by decide +kernel)
  exact ⟨hbought, 100, hsold, hcovers⟩

end Swap

end SwapFees
