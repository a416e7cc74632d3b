import SwapFees.Proofs.Surcharge

namespace SwapFees

theorem Rate.divCeil_eq_zero {r : Rate} {x y : Amount} (h : r.divCeil x = .ok y) :
    y = 0 ↔ x = 0 := by
  constructor
  · intro hy
    have hle := le_divCeil h
    rw [hy, Word.le_def, Word.toNat_zero] at hle
    exact Word.toNat_eq_zero.1 (by omega)
  · intro hx
    unfold divCeil at h
    split at h
    · cases h
    rename_i hparts
    cases h
    have hquotient : (x.toNat * million + r.parts - 1) / r.parts = 0 := by
      apply Nat.div_eq_of_lt
      simp [hx]
      omega
    rw [hquotient]
    rfl

namespace Pool

variable {p p' : Pool} {a b : Asset} {i o : Side} {paid given net : Amount}

/-- The pool keeps a product and has nothing of `a`. -/
def Dry (p : Pool) (a : Asset) : Prop :=
  p.curve = .product ∧ (p.side? a).map p.reserve = some 0

instance (p : Pool) (a : Asset) : Decidable (p.Dry a) :=
  inferInstanceAs (Decidable (_ ∧ _))

theorem dry_iff (hs : p.sides a b = .ok (i, o)) :
    p.Dry a ↔ p.curve = .product ∧ p.reserve i = 0 := by
  simp [Dry, side?_of_sides hs]

/-- The curve asks nothing for nothing, and a product curve asks nothing if the reserve that is paid
into is empty. -/
theorem inputFor_eq_zero (h : p.inputFor i o given = .ok net) :
    net = 0 ↔ given = 0 ∨ p.curve = .product ∧ p.reserve i = 0 := by
  rcases hcurve : p.curve with _ | _
  · rw [inputFor, hcurve] at h
    cases h
    simp
  · rw [inputFor, hcurve] at h
    obtain ⟨rest, -, h⟩ := Answer.bind_ok.1 h
    split at h
    · cases h
    rename_i hrest
    have hpos : 0 < rest.toNat := Nat.pos_of_ne_zero fun e => hrest (Word.toNat_eq_zero.1 e)
    -- The ceiling is zero only if the product that is divided is.
    have hzero : (((p.reserve i).mulSat given).toNat + rest.toNat - 1) / rest.toNat = 0 ↔
        (p.reserve i).mulSat given = 0 := by
      rw [Nat.div_eq_zero_iff, ← Word.toNat_eq_zero]
      omega
    rw [← Except.ok.inj h, Word.saturate_eq_zero (by omega), hzero, Word.mulSat_eq_zero, or_comm]
    simp

theorem swapOut_eq_zero (h : p.swapOut a b given = .ok (paid, p')) :
    paid = 0 ↔ given = 0 ∨ p.Dry a := by
  obtain ⟨i, o, net, hs, hneed, hfee, -⟩ := swapOut_ok h
  rw [Rate.divCeil_eq_zero hfee, inputFor_eq_zero hneed, dry_iff hs]

theorem not_dry_of_swapIn (h : p.swapIn a b paid = .ok (given, p')) : ¬ p.Dry a := by
  obtain ⟨i, o, hs, hcurve, -⟩ := swapIn_ok h
  rw [dry_iff hs]
  rintro ⟨hproduct, hempty⟩
  simp [outputFor, hproduct, hempty, refuse] at hcurve

/-- A settled swap leaves every reserve of a product curve as empty as it is, unless it pays into an
empty one. -/
theorem dry_settle (hs : p.sides a b = .ok (i, o)) (h : p.settle i o paid given = .ok p')
    (hlt : given < p.reserve o) (hin : p.Dry a → paid = 0) : p'.Dry = p.Dry := by
  funext q
  obtain ⟨-, -, hne⟩ := sides_ok hs
  obtain ⟨hcurve, hi, ho⟩ := reserve_settle hne h
  have hassets := congrArg Prod.fst (terms_settle h)
  have hside : p'.side? q = p.side? q := by
    simp [terms] at hassets
    simp [side?, hassets]
  have hempty (side : Side) (hproduct : p.curve = .product) :
      p'.reserve side = 0 ↔ p.reserve side = 0 := by
    have hside : side = i ∨ side = o := by
      cases side <;> cases i <;> cases o <;> simp_all
    rw [dry_iff hs] at hin
    rw [Word.lt_def] at hlt
    rw [← Word.toNat_eq_zero, ← Word.toNat_eq_zero (a := p.reserve side)]
    rcases hside with rfl | rfl
    · rw [hi, Word.toNat_addSat]
      constructor
      · omega
      · intro hz
        simp [hin ⟨hproduct, Word.toNat_eq_zero.1 hz⟩, hz]
    · omega
  unfold Dry
  rw [hcurve, hside]
  apply propext
  apply and_congr_right
  intro hproduct
  simp [hempty _ hproduct]

theorem fixed_dry : Fixed Dry where
  sell h := by
    obtain ⟨i, o, hs, -, hsettle⟩ := swapIn_ok h
    exact dry_settle hs hsettle (lt_reserve_of_swapIn h hs) fun hdry =>
      absurd hdry (not_dry_of_swapIn h)
  buy h := by
    obtain ⟨i, o, net, hs, -, -, hsettle⟩ := swapOut_ok h
    exact dry_settle hs hsettle (lt_reserve_of_swapOut h hs) fun hdry =>
      (swapOut_eq_zero h).2 (.inr hdry)

end Pool

namespace Pools

variable {ps ps' : Pools}

def Dry (ps : Pools) (id : PoolId) (a : Asset) : Prop := ∃ p ∈ ps.get? id, p.Dry a

/-- Some hop of the route pays into a dry pool. -/
def PaysDry (ps : Pools) (route : List HopOut) : Prop := ∃ hop ∈ route, ps.Dry hop.pool hop.assetIn

instance (ps : Pools) (id : PoolId) (a : Asset) : Decidable (ps.Dry id a) :=
  inferInstanceAs (Decidable (∃ p ∈ ps.get? id, p.Dry a))

instance (ps : Pools) (route : List HopOut) : Decidable (ps.PaysDry route) :=
  inferInstanceAs (Decidable (∃ hop ∈ route, ps.Dry hop.pool hop.assetIn))

theorem dry_iff {id : PoolId} {p : Pool} (hp : ps.get? id = some p) (a : Asset) :
    ps.Dry id a ↔ p.Dry a := by
  simp [Dry, hp]

theorem Keeps.dry (h : ps.Keeps Pool.Dry ps') {id : PoolId} {p : Pool} (hp : ps.get? id = some p)
    (a : Asset) : ps'.Dry id a ↔ ps.Dry id a := by
  obtain ⟨p', hp', hdry⟩ := h id p hp
  rw [dry_iff hp, dry_iff hp', hdry]

theorem found_of_require {tokenOut : Coin} {n : Amount} {route : List HopOut}
    (h : ps.require tokenOut route = .ok (n, ps')) :
    (∀ id p', ps'.get? id = some p' → ∃ p, ps.get? id = some p) ∧
      ∀ hop ∈ route, ∃ p, ps.get? hop.pool = some p := by
  induction route generalizing n ps' with
  | nil =>
    cases h
    exact ⟨fun _ p hp => ⟨p, hp⟩, by simp⟩
  | cons hop rest ih =>
    obtain ⟨m, qs, p, p', hrest, hp, -, rfl⟩ := require_cons_ok h
    obtain ⟨hback, hfound⟩ := ih hrest
    have hhere := hback hop.pool p hp
    constructor
    · intro id q hq
      by_cases e : hop.pool = id
      · exact e ▸ hhere
      · rw [SortedMap.get?_insert_of_ne _ _ e] at hq
        exact hback id q hq
    · simpa using ⟨hhere, hfound⟩

theorem Keeps.paysDry (h : ps.Keeps Pool.Dry ps') {route : List HopOut}
    (hfound : ∀ hop ∈ route, ∃ p, ps.get? hop.pool = some p) :
    ps'.PaysDry route ↔ ps.PaysDry route := by
  unfold PaysDry
  apply exists_congr
  intro hop
  apply and_congr_right
  intro hmem
  obtain ⟨p, hp⟩ := hfound hop hmem
  exact h.dry hp _

/-- An output costs nothing exactly if its route pays into a dry pool. -/
theorem require_eq_zero {tokenOut : Coin} {n : Amount} {route : List HopOut}
    (hout : tokenOut.amount ≠ 0) (h : ps.require tokenOut route = .ok (n, ps')) :
    n = 0 ↔ ps.PaysDry route := by
  -- From the end of the route on: what is asked of a hop is nothing only if a later one is dry.
  induction route generalizing n ps' with
  | nil =>
    cases h
    simp [PaysDry, hout]
  | cons hop rest ih =>
    obtain ⟨m, qs, p, p', hrest, hp, hn, rfl⟩ := require_cons_ok h
    obtain ⟨p₀, hp₀⟩ := (found_of_require hrest).1 _ _ hp
    have hkept := (keeps_require Pool.fixed_dry hrest).dry hp₀ hop.assetIn
    rw [dry_iff hp] at hkept
    rw [Pool.swapOut_eq_zero hn, ih hrest, hkept, or_comm]
    simp [PaysDry]

end Pools

namespace Swap

open Effect

variable {s : Settings} {w : World}

theorem add_fee_eq_zero {net : Coin} {rate : Rate} {split : FeeSplit}
    (h : FeeSplit.add net rate = .ok split) (hnet : net.amount = 0) : split.fee.amount = 0 := by
  obtain ⟨hdiv, hgross⟩ := FeeSplit.gross_of_add h
  rw [(Rate.divCeil_eq_zero hdiv).2 hnet, Word.toNat_zero] at hgross
  apply Word.toNat_eq_zero.1
  omega

theorem swapOut_eq_zero (hs : s.routerFailure = none) {sender : AccountId} {route : List HopOut}
    {maxIn n : Amount} {tokenOut : Coin} {w' : World} (hout : tokenOut.amount ≠ 0)
    (h : (swapOut sender route maxIn tokenOut).run s w = (.ok n, w')) :
    ∃ l paid, l.Exchanges sender ⟨HopOut.next tokenOut.asset route, paid⟩ tokenOut
        w'.chain.ledger ∧
      (paid = 0 ↔ w.chain.pools.PaysDry route) ∧ (n = 0 ↔ w.chain.pools.PaysDry route) ∧
      (n = 0 → l = w.chain.ledger) := by
  cases route with
  | nil => cases h
  | cons first rest =>
    obtain ⟨quoted, split, b, w₁, w₂, paid, w₃, ⟨ps, hquote⟩, hsplit, -, hb, hfee, hbuy, hn, _,
      rfl⟩ := swapOut_ok h
    have hchain : w₁.chain = w.chain := (beneficiary_ok hb).1
    obtain ⟨ps', l, hrequire, -, hx, rfl⟩ := Router.swapOut_ok hs hbuy
    -- No pool of the route is dry after the settlement that was not dry before.
    have hquoted := Pools.require_eq_zero hout hquote
    have hkeeps := chargeTakerFee_keeps Pool.fixed_dry hfee
    rw [hchain] at hkeeps
    have hpaid : paid = 0 ↔ w.chain.pools.PaysDry (first :: rest) :=
      (Pools.require_eq_zero hout hrequire).trans
        (hkeeps.paysDry (Pools.found_of_require hquote).2)
    have hfree (hdry : w.chain.pools.PaysDry (first :: rest)) : split.fee.amount = 0 :=
      add_fee_eq_zero hsplit (hquoted.2 hdry)
    have htotal : n = 0 ↔ w.chain.pools.PaysDry (first :: rest) := by
      rw [hn, Word.addSat_eq_zero, hpaid]
      exact and_iff_left_of_imp hfree
    refine ⟨w₂.chain.ledger, paid, hx, hpaid, htotal, fun hz => ?_⟩
    have hfee := chargeTakerFee_ok hfee
    simp [hfree (htotal.1 hz)] at hfee
    rw [hfee, hchain]

/-- What is bought is paid for unless the route pays into a dry pool. Then the quote is zero, and
neither the purchase nor a taker fee takes anything from the buyer. -/
theorem purchase_free_iff (hs : s.routerFailure = none) {route : List HopOut} {tokenOut : Coin}
    (hout : tokenOut.amount ≠ 0) :
    (∀ n w', (Router.estimate route tokenOut).run s w = (.ok n, w') →
      (n = 0 ↔ w.chain.pools.PaysDry route)) ∧
    (∀ sender maxIn n w', (Router.swapOut sender route maxIn tokenOut).run s w = (.ok n, w') →
      w.chain.ledger.Exchanges sender ⟨HopOut.next tokenOut.asset route, n⟩ tokenOut
          w'.chain.ledger ∧
        (n = 0 ↔ w.chain.pools.PaysDry route)) ∧
    ∀ sender maxIn n w', (swapOut sender route maxIn tokenOut).run s w = (.ok n, w') →
      ∃ l paid, l.Exchanges sender ⟨HopOut.next tokenOut.asset route, paid⟩ tokenOut
          w'.chain.ledger ∧
        (paid = 0 ↔ w.chain.pools.PaysDry route) ∧ (n = 0 ↔ w.chain.pools.PaysDry route) ∧
        (n = 0 → l = w.chain.ledger) := by
  refine ⟨fun n w' h => ?_, fun sender maxIn n w' h => ?_, fun sender maxIn n w' h => ?_⟩
  · obtain ⟨-, ps, hquote⟩ := Router.estimate_ok h
    unfold Pools.quote at hquote
    split at hquote
    · cases hquote
    · exact Pools.require_eq_zero hout hquote
  · obtain ⟨ps, l, hrequire, -, hx, rfl⟩ := Router.swapOut_ok hs h
    exact ⟨hx, Pools.require_eq_zero hout hrequire⟩
  · exact swapOut_eq_zero hs hout h

/-- Pool 1 has nothing of token 1, pool 2 has as much of it as of native currency. -/
def puddle : World :=
  bazaar
    (.ofList [(1, ⟨⟨.issued 1, 0⟩, ⟨.native, 1000⟩, .product, .zero⟩),
      (2, ⟨⟨.issued 1, 1000⟩, ⟨.native, 1000⟩, .product, .zero⟩)])
    .empty (.percent 1)

/-- A hundred bought from the second pool cost something. -/
theorem purchase_paid_in_puddle :
    ∃ n, ((swapOut 9 [⟨2, .issued 1⟩] 1000 ⟨.native, 100⟩).run plainSettings puddle).1 = .ok n ∧
      n ≠ 0 := by
  have hbought : ((swapOut 9 [⟨2, .issued 1⟩] 1000 ⟨.native, 100⟩).run plainSettings puddle).1 =
      .ok 114 := by decide +kernel
  obtain ⟨w', h⟩ := fst_ok_iff.1 hbought
  obtain ⟨-, -, hfree⟩ := @purchase_free_iff plainSettings puddle rfl [⟨2, .issued 1⟩]
    ⟨.native, 100⟩ (by decide)
  obtain ⟨l, paid, -, -, hiff, -⟩ := hfree 9 1000 114 w' h
  refine ⟨114, hbought, fun hz => ?_⟩
  have hdry := hiff.1 hz
  revert hdry
  decide

/-- A hundred bought from the first pool are quoted at nothing and delivered for nothing. A sale in
the same direction is refused. -/
theorem purchase_free_in_puddle :
    let route : List HopOut := [⟨1, .issued 1⟩]
    let bought := (swapOut 9 route 0 ⟨.native, 100⟩).run plainSettings puddle
    ((Router.estimate route ⟨.native, 100⟩).run plainSettings puddle).1 = .ok 0 ∧
      bought.1 = .ok 0 ∧
      bought.2.chain.ledger.holds 9 none = puddle.chain.ledger.holds 9 none + 100 ∧
      bought.2.chain.ledger.holds 9 (some 1) = puddle.chain.ledger.holds 9 (some 1) ∧
      ((Router.swapIn 9 [⟨1, .native⟩] ⟨.issued 1, 100⟩ 0).run plainSettings puddle).1 =
        .error (.error (.pool .emptyReserves)) := by
  decide +kernel

end Swap

end SwapFees
