import SwapFees.Proofs.Settlement

namespace SwapFees

namespace Pools

/-- The two maps have the same pools under these numbers. -/
def SameOn (ids : List PoolId) (ps qs : Pools) : Prop := ∀ id ∈ ids, ps.get? id = qs.get? id

variable {ps ps' qs : Pools} {ids : List PoolId}

theorem SameOn.insert (h : SameOn ids ps qs) (id : PoolId) (p : Pool) :
    SameOn ids (SortedMap.insert ps id p) (SortedMap.insert qs id p) := by
  intro id' hid'
  by_cases he : id = id'
  · rw [he, SortedMap.get?_insert_self, SortedMap.get?_insert_self]
  · rw [SortedMap.get?_insert_of_ne _ _ he, SortedMap.get?_insert_of_ne _ _ he]
    exact h id' hid'

variable {c out : Coin} {route : List HopIn}

theorem carry_cons {p p' : Pool} {n : Amount} {hop : HopIn} {rest : List HopIn}
    (hp : ps.get? hop.pool = some p) (hn : p.swapIn c.asset hop.assetOut c.amount = .ok (n, p')) :
    ps.carry c (hop :: rest) = carry (ps.insert hop.pool p') ⟨hop.assetOut, n⟩ rest := by
  rw [carry, find_ok.2 hp]
  dsimp only [bind, Except.bind]
  rw [hn]

theorem carry_frame (h : ps.carry c route = .ok (out, ps')) {id : PoolId}
    (hid : id ∉ route.map HopIn.pool) : ps'.get? id = ps.get? id := by
  induction route generalizing ps c with
  | nil =>
    cases h
    rfl
  | cons hop rest ih =>
    obtain ⟨p, n, p', hp, hn, h⟩ := carry_cons_ok h
    rw [List.map_cons, List.mem_cons, not_or] at hid
    rw [ih h hid.2, SortedMap.get?_insert_of_ne _ _ (Ne.symm hid.1)]

theorem carry_local (h : ps.carry c route = .ok (out, ps')) (hsame : SameOn ids ps qs)
    (hids : ∀ id ∈ route.map HopIn.pool, id ∈ ids) :
    ∃ qs', qs.carry c route = .ok (out, qs') ∧ SameOn ids ps' qs' := by
  induction route generalizing ps qs c with
  | nil =>
    cases h
    exact ⟨qs, rfl, hsame⟩
  | cons hop rest ih =>
    obtain ⟨p, n, p', hp, hn, h⟩ := carry_cons_ok h
    have hq : qs.get? hop.pool = some p := hp ▸ (hsame _ (hids _ List.mem_cons_self)).symm
    rw [carry_cons hq hn]
    exact ih h (hsame.insert _ _) fun id hid => hids id (List.mem_cons_of_mem _ hid)

variable {tokenOut : Coin} {n : Amount} {route : List HopOut}

theorem require_cons {qs : Pools} {p p' : Pool} {m : Amount} {hop : HopOut} {rest : List HopOut}
    (hrest : ps.require tokenOut rest = .ok (n, qs)) (hp : qs.get? hop.pool = some p)
    (hm : p.swapOut hop.assetIn (HopOut.next tokenOut.asset rest) n = .ok (m, p')) :
    ps.require tokenOut (hop :: rest) = .ok (m, qs.insert hop.pool p') := by
  rw [require, hrest]
  dsimp only [bind, Except.bind]
  rw [find_ok.2 hp]
  dsimp only
  rw [hm]

theorem require_frame (h : ps.require tokenOut route = .ok (n, ps')) {id : PoolId}
    (hid : id ∉ route.map HopOut.pool) : ps'.get? id = ps.get? id := by
  induction route generalizing ps' n with
  | nil =>
    cases h
    rfl
  | cons hop rest ih =>
    obtain ⟨m, qs, p, p', hm, -, -, rfl⟩ := require_cons_ok h
    rw [List.map_cons, List.mem_cons, not_or] at hid
    rw [SortedMap.get?_insert_of_ne _ _ (Ne.symm hid.1), ih hm hid.2]

theorem require_local (h : ps.require tokenOut route = .ok (n, ps')) (hsame : SameOn ids ps qs)
    (hids : ∀ id ∈ route.map HopOut.pool, id ∈ ids) :
    ∃ qs', qs.require tokenOut route = .ok (n, qs') ∧ SameOn ids ps' qs' := by
  induction route generalizing ps' n with
  | nil =>
    cases h
    exact ⟨qs, rfl, hsame⟩
  | cons hop rest ih =>
    obtain ⟨m, rs, p, p', hm, hp, hn, rfl⟩ := require_cons_ok h
    obtain ⟨qs', hq, hsame'⟩ := ih hm fun id hid => hids id (List.mem_cons_of_mem _ hid)
    have hp' : qs'.get? hop.pool = some p := hp ▸ (hsame' _ (hids _ List.mem_cons_self)).symm
    exact ⟨_, require_cons hq hp' hn, hsame'.insert _ _⟩

theorem map_pool_forward (tokenOut : Asset) (route : List HopOut) :
    (HopOut.forward tokenOut route).map HopIn.pool = route.map HopOut.pool := by
  induction route with
  | nil => rfl
  | cons hop rest ih => rw [HopOut.forward, List.map_cons, List.map_cons, ih]

end Pools

open Effect

variable {s : Settings} {w w' : World}

/-- A conversion writes no pool but the one registered for the fee. -/
theorem Conversion.Outcome.pools {base : Asset} {fee : Coin} {c c' : Chain} {r : Conversion}
    (h : Outcome s base fee c r c') {id : PoolId}
    (hid : ∀ t ∈ c.lookup? base fee.asset, t.pool ≠ id) : c'.pools.get? id = c.pools.get? id := by
  cases h with
  | kept hbase => rfl
  | refused hbase => rfl
  | exchanged hbase hs ht hasset hout hcarry hx hes =>
    refine Pools.carry_frame hcarry fun hmem => ?_
    rw [List.map_singleton, List.mem_singleton] at hmem
    exact hid _ ht hmem.symm

theorem Swap.chargeTakerFee_pools {sender : AccountId} {fee : Coin} {firstHop : HopIn}
    {beneficiary : Option AccountId}
    (h : (chargeTakerFee sender fee firstHop beneficiary).run s w = (.ok (), w'))
    (haccepted : w.chain.isFeeAsset fee.asset = true) {id : PoolId}
    (hid : ∀ t ∈ w.chain.lookup? w.chain.base fee.asset, t.pool ≠ id) :
    w'.chain.pools.get? id = w.chain.pools.get? id := by
  rcases chargeTakerFee_ok h with ⟨-, rfl⟩ | ⟨hfee, got, v, hgot, hcharge⟩
  · rfl
  rcases acceptedFee_cases hgot with ⟨-, rfl, rfl⟩ | ⟨hnot, -⟩
  · obtain ⟨l, -, hsettle⟩ := Settlement.chargeFrom_ok hfee hcharge
    obtain ⟨r, w₂, told, l', burned, hconvert, -, hw'⟩ := Settlement.settle_frame hfee hsettle
    rw [hw']
    exact (Conversion.convert_outcome hconvert).pools hid
  · rw [haccepted] at hnot
    cases hnot

namespace Swap

variable {sender : AccountId}

/-- Fees in this asset are accepted, and converting one visits none of these pools. -/
structure Apart (c : Chain) (a : Asset) (ids : List PoolId) : Prop where
  accepted : c.isFeeAsset a = true
  unvisited : ∀ t ∈ c.lookup? c.base a, t.pool ∉ ids

instance (c : Chain) (a : Asset) (ids : List PoolId) : Decidable (Apart c a ids) :=
  decidable_of_iff (c.isFeeAsset a = true ∧ ∀ t ∈ c.lookup? c.base a, t.pool ∉ ids)
    ⟨fun h => ⟨h.1, h.2⟩, fun h => ⟨h.accepted, h.unvisited⟩⟩

theorem Apart.sameOn {ids : List PoolId} {fee : Coin} {firstHop : HopIn}
    {beneficiary : Option AccountId} (ha : Apart w.chain fee.asset ids)
    (h : (chargeTakerFee sender fee firstHop beneficiary).run s w = (.ok (), w')) :
    Pools.SameOn ids w'.chain.pools w.chain.pools := by
  intro id hid
  exact chargeTakerFee_pools h ha.accepted fun t ht e => ha.unvisited t ht (e ▸ hid)

/-- A sale whose fee stays apart trades on the pools as they were. -/
theorem swapIn_of_apart (hs : s.routerFailure = none) {route : List HopIn} {tokenIn : Coin}
    {minOut got : Amount} (ha : Apart w.chain tokenIn.asset (route.map HopIn.pool))
    (h : (swapIn sender route tokenIn minOut).run s w = (.ok got, w')) :
    ∃ out ps, w.chain.pools.carry (FeeSplit.subtract tokenIn w.chain.takerFee).net route =
      .ok (out, ps) ∧ got = out.amount := by
  rcases hlast : route.getLast? with _ | last
  · rw [List.getLast?_eq_none_iff.1 hlast] at h
    cases h
  obtain ⟨first, b, w₁, w₂, w₃, -, hben, hfee, hswap, -⟩ := swapIn_ok h hlast
  obtain ⟨-, hasset, -⟩ := FeeSplit.subtract_parts tokenIn w.chain.takerFee
  rw [← (beneficiary_ok hben).1, ← hasset] at ha
  obtain ⟨out, ps, l, hcarry, -, -, hgot, -⟩ := Router.swapIn_ok hs hswap
  obtain ⟨ps', hcarry', -⟩ := Pools.carry_local hcarry (ha.sameOn hfee) fun _ hid => hid
  rw [(beneficiary_ok hben).1] at hcarry'
  exact ⟨out, ps', hcarry', hgot⟩

/-- A purchase whose fee stays apart costs what was quoted for it and the fee on that. -/
theorem swapOut_of_apart (hs : s.routerFailure = none) {first : HopOut} {rest : List HopOut}
    {tokenOut : Coin} {maxIn paid : Amount}
    (ha : Apart w.chain first.assetIn ((first :: rest).map HopOut.pool))
    (h : (swapOut sender (first :: rest) maxIn tokenOut).run s w = (.ok paid, w')) :
    ∃ quoted ps split, w.chain.pools.require tokenOut (first :: rest) = .ok (quoted, ps) ∧
      FeeSplit.add ⟨first.assetIn, quoted⟩ w.chain.takerFee = .ok split ∧
      paid = quoted.addSat split.fee.amount := by
  obtain ⟨quoted, split, b, w₁, w₂, m, w₃, ⟨ps, hquote⟩, hsplit, -, hben, hfee, hswap, hpaid, -⟩ :=
    swapOut_ok h
  have hrequire : w.chain.pools.require tokenOut (first :: rest) = .ok (quoted, ps) := hquote
  have hasset : split.fee.asset = first.assetIn := (FeeSplit.add_parts hsplit).2
  rw [← (beneficiary_ok hben).1, ← hasset] at ha
  obtain ⟨ps', l, hrequire', -⟩ := Router.swapOut_ok hs hswap
  -- The price is the quote, since the pools of the route are as they were.
  obtain ⟨qs, hsame, -⟩ := Pools.require_local hrequire' (ha.sameOn hfee) fun _ hid => hid
  rw [(beneficiary_ok hben).1, hrequire] at hsame
  obtain ⟨rfl, -⟩ := Prod.mk.inj (Except.ok.inj hsame)
  exact ⟨quoted, ps, split, hrequire, hsplit, hpaid⟩

end Swap

end SwapFees
