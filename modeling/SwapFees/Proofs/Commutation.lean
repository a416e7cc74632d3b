import SwapFees.Proofs.Alike
import SwapFees.Proofs.Announcement

namespace SwapFees

open Effect

variable {s : Settings} {w w' v v' : World} {ids : List PoolId}

namespace Swap

variable {sender : AccountId} {fee got got' : Coin} {firstHop : HopIn} {b : Option AccountId}

/-- The pool of the fee token that is settled for a taker fee. -/
def settledThrough (s : Settings) (c : Chain) (fee : Coin) (firstHop : HopIn) : List PoolId :=
  if fee.amount = 0 ∨ handed s c fee firstHop = 0 then []
  else
    let settled := if c.isFeeAsset fee.asset then fee.asset else firstHop.assetOut
    ((c.lookup? c.base settled).map FeeToken.pool).toList

theorem beneficiary_unique {assetIn assetOut : Asset} {b b' : Option AccountId}
    (hw : (beneficiary assetIn assetOut).run s w = (.ok b, w'))
    (hv : (beneficiary assetIn assetOut).run s v = (.ok b', v')) : b' = b := by
  have hsame : ((beneficiary assetIn assetOut).run s v).1 =
      ((beneficiary assetIn assetOut).run s w).1 := by
    unfold beneficiary
    rw [run_bind_read, run_bind_read]
    split
    · split <;> rfl
    · rfl
  rw [hw, hv] at hsame
  exact Except.ok.inj hsame

theorem acceptedFee_asset (h : (acceptedFee sender fee firstHop).run s w = (.ok got, w')) :
    got.asset = if w.chain.isFeeAsset fee.asset then fee.asset else firstHop.assetOut := by
  rcases acceptedFee_cases h with ⟨haccepted, rfl, -⟩ | ⟨haccepted, -, n, -, -, rfl⟩
  · exact (if_pos haccepted).symm
  · exact (if_neg (Bool.eq_false_iff.1 haccepted)).symm

theorem acceptedFee_repeats (hs : s.routerFailure = none) (h : w.chain.Alike ids v.chain)
    (hhop : firstHop.pool ∈ ids)
    (hw : (acceptedFee sender fee firstHop).run s w = (.ok got, w'))
    (hv : (acceptedFee sender fee firstHop).run s v = (.ok got', v')) :
    got' = got ∧ w.chain.Repeats ids w'.chain v.chain v'.chain := by
  have hsame := h.isFeeAsset fee.asset
  rcases acceptedFee_cases hw with ⟨haccepted, rfl, rfl⟩ | ⟨haccepted, w₁, n, hw₁, hswap, rfl⟩
  · rcases acceptedFee_cases hv with ⟨-, rfl, rfl⟩ | ⟨haccepted', -⟩
    · exact ⟨rfl, .refl h⟩
    · rw [hsame, haccepted] at haccepted'
      cases haccepted'
  · rcases acceptedFee_cases hv with ⟨haccepted', -⟩ | ⟨-, v₁, m, hv₁, hswap', rfl⟩
    · rw [hsame, haccepted] at haccepted'
      cases haccepted'
    · have h₁ : w₁.chain.Alike ids v₁.chain := by rwa [hw₁, hv₁]
      obtain ⟨rfl, hr⟩ := Router.swapIn_repeats hs h₁ (HopIn.mem_of_single hhop) hswap hswap'
      rw [hw₁, hv₁] at hr
      exact ⟨rfl, hr⟩

theorem chargeTakerFee_repeats (hs : s.routerFailure = none) (h : w.chain.Alike ids v.chain)
    (hhop : firstHop.pool ∈ ids) (hids : ∀ id ∈ settledThrough s w.chain fee firstHop, id ∈ ids)
    (hroom : TakerFeeMeets (Settlement.Room s) sender fee firstHop b s w ∧
      TakerFeeMeets (Settlement.Room s) sender fee firstHop b s v)
    (hw : (chargeTakerFee sender fee firstHop b).run s w = (.ok (), w'))
    (hv : (chargeTakerFee sender fee firstHop b).run s v = (.ok (), v')) :
    w.chain.Repeats ids w'.chain v.chain v'.chain := by
  rcases chargeTakerFee_ok hw with ⟨hfee, rfl⟩ | ⟨hfee, got, w₁, haccepted, hcharge⟩
  · rcases chargeTakerFee_ok hv with ⟨-, rfl⟩ | ⟨hfee', -⟩
    · exact .refl h
    · exact absurd hfee hfee'
  rcases chargeTakerFee_ok hv with ⟨hfee', -⟩ | ⟨-, got', v₁, haccepted', hcharge'⟩
  · exact absurd hfee' hfee
  obtain ⟨rfl, hr⟩ := acceptedFee_repeats hs h hhop haccepted haccepted'
  refine hr.trans (Settlement.chargeFrom_repeats (h.next hr) (fun hgot t ht => hids t.pool ?_)
    (fun _ => ⟨hroom.1 hfee _ _ haccepted, hroom.2 hfee _ _ haccepted'⟩) hcharge hcharge')
  -- The fee token is the same before the fee is swapped for it.
  have hlookup : w₁.chain.lookup? w₁.chain.base got'.asset =
      w.chain.lookup? w.chain.base got'.asset := by
    unfold Chain.lookup?
    rw [hr.left.base, hr.left.registry]
  rw [hlookup, acceptedFee_asset haccepted] at ht
  have hsettled : ¬ (fee.amount = 0 ∨ handed s w.chain fee firstHop = 0) := fun e =>
    e.elim hfee fun e => hgot ((acceptedFee_handed haccepted).1.trans e)
  unfold settledThrough
  rw [if_neg hsettled, Option.mem_toList]
  exact Option.mem_map_of_mem FeeToken.pool ht

theorem rewarded_repeats {w₁ v₁ : World} {assetIn assetOut : Asset} {b b' : Option AccountId}
    (hs : s.routerFailure = none) (h : w.chain.Alike ids v.chain) (hhop : firstHop.pool ∈ ids)
    (hids : ∀ id ∈ settledThrough s w.chain fee firstHop, id ∈ ids)
    (hben : (beneficiary assetIn assetOut).run s w = (.ok b, w₁))
    (hben' : (beneficiary assetIn assetOut).run s v = (.ok b', v₁))
    (hroom : TakerFeeMeets (Settlement.Room s) sender fee firstHop b s w₁ ∧
      TakerFeeMeets (Settlement.Room s) sender fee firstHop b' s v₁)
    (hw : (chargeTakerFee sender fee firstHop b).run s w₁ = (.ok (), w'))
    (hv : (chargeTakerFee sender fee firstHop b').run s v₁ = (.ok (), v')) :
    w.chain.Repeats ids w'.chain v.chain v'.chain := by
  obtain rfl := beneficiary_unique hben hben'
  have hw₁ := (beneficiary_ok hben).1
  have hv₁ := (beneficiary_ok hben').1
  rw [← hw₁, ← hv₁] at h ⊢
  rw [← hw₁] at hids
  exact chargeTakerFee_repeats hs h hhop hids hroom hw hv

theorem swapIn_repeats (hs : s.routerFailure = none) (h : w.chain.Alike ids v.chain)
    {route : List HopIn} {tokenIn : Coin} {minOut n m : Amount}
    (hroute : ∀ id ∈ route.map HopIn.pool, id ∈ ids)
    (hids : ∀ first ∈ route.head?, ∀ id ∈ settledThrough s w.chain
      (FeeSplit.subtract tokenIn w.chain.takerFee).fee first, id ∈ ids)
    (hroom : SwapInMeets (Settlement.Room s) sender route tokenIn s w ∧
      SwapInMeets (Settlement.Room s) sender route tokenIn s v)
    (hw : (swapIn sender route tokenIn minOut).run s w = (.ok n, w'))
    (hv : (swapIn sender route tokenIn minOut).run s v = (.ok m, v')) :
    m = n ∧ w.chain.Repeats ids w'.chain v.chain v'.chain := by
  rcases hlast : route.getLast? with _ | last
  · rw [List.getLast?_eq_none_iff.1 hlast] at hw
    cases hw
  obtain ⟨first, b, w₁, w₂, w₃, hfirst, hben, hfee, hswap, rfl⟩ := swapIn_ok hw hlast
  obtain ⟨first', b', v₁, v₂, v₃, hfirst', hben', hfee', hswap', rfl⟩ := swapIn_ok hv hlast
  obtain rfl := Option.some.inj (hfirst.symm.trans hfirst')
  have hmeets := hroom.1 first hfirst last hlast b w₁ hben
  have hmeets' := hroom.2 first hfirst last hlast b' v₁ hben'
  have hhop : first.pool ∈ ids :=
    hroute _ (List.mem_map_of_mem (List.mem_of_mem_head? hfirst))
  rw [h.takerFee] at hmeets' hfee' hswap'
  have hcharged := rewarded_repeats hs h hhop (hids first hfirst) hben hben' ⟨hmeets, hmeets'⟩
    hfee hfee'
  obtain ⟨rfl, hswapped⟩ := Router.swapIn_repeats hs (h.next hcharged) hroute hswap hswap'
  exact ⟨rfl, (hcharged.trans hswapped).withEvents _ _⟩

theorem swapOut_repeats (hs : s.routerFailure = none) (h : w.chain.Alike ids v.chain)
    {first : HopOut} {rest : List HopOut} {maxIn n m : Amount} {tokenOut : Coin}
    (hroute : ∀ id ∈ (first :: rest).map HopOut.pool, id ∈ ids)
    (hids : ∀ quoted ps split, w.chain.pools.quote tokenOut (first :: rest) = .ok (quoted, ps) →
      FeeSplit.add ⟨first.assetIn, quoted⟩ w.chain.takerFee = .ok split →
      ∀ id ∈ settledThrough s w.chain split.fee ⟨first.pool, HopOut.next tokenOut.asset rest⟩,
        id ∈ ids)
    (hroom : SwapOutMeets (Settlement.Room s) sender (first :: rest) maxIn tokenOut s w ∧
      SwapOutMeets (Settlement.Room s) sender (first :: rest) maxIn tokenOut s v)
    (hw : (swapOut sender (first :: rest) maxIn tokenOut).run s w = (.ok n, w'))
    (hv : (swapOut sender (first :: rest) maxIn tokenOut).run s v = (.ok m, v')) :
    m = n ∧ w.chain.Repeats ids w'.chain v.chain v'.chain := by
  obtain ⟨quoted, split, b, w₁, w₂, paid, w₃, ⟨ps, hquote⟩, hsplit, hmax, hben, hfee, hswap, rfl,
    last, rfl⟩ := swapOut_ok hw
  obtain ⟨quoted', split', b', v₁, v₂, paid', v₃, ⟨qs, hquote'⟩, hsplit', hmax', hben', hfee',
    hswap', rfl, last', rfl⟩ := swapOut_ok hv
  have hmeets := hroom.1 first rfl _ hquote _ hsplit hmax b w₁ hben
  have hmeets' := hroom.2 first rfl _ hquote' _ hsplit' hmax' b' v₁ hben'
  -- The quote sees no other pools, so the fee is the same.
  obtain ⟨qs', hlocal, -⟩ := Pools.require_local hquote h.pools hroute
  obtain ⟨rfl, rfl⟩ := Prod.mk.inj (Except.ok.inj (hlocal.symm.trans hquote'))
  rw [h.takerFee] at hsplit'
  obtain rfl := Except.ok.inj (hsplit.symm.trans hsplit')
  have hcharged := rewarded_repeats hs h (hroute _ List.mem_cons_self)
    (hids quoted ps split hquote hsplit) hben hben' ⟨hmeets, hmeets'⟩ hfee hfee'
  obtain ⟨rfl, hswapped⟩ := Router.swapOut_repeats hs (h.next hcharged) hroute hswap hswap'
  exact ⟨rfl, (hcharged.trans hswapped).withEvents _ _⟩

end Swap

namespace SwapCall

def visited : SwapCall → List PoolId
  | swapIn route _ _ => route.val.map HopIn.pool
  | swapOut route _ _ => route.val.map HopOut.pool
  | setTakerFee _ => []

/-- The pools of a swap's route and, if what is settled for its taker fee is a fee token, the pool of
that token. -/
def touched (s : Settings) (c : Chain) (call : SwapCall) : List PoolId :=
  call.visited ++
    match call.takerFee? c with
    | none => []
    | some (fee, firstHop) => Swap.settledThrough s c fee firstHop

/-- A swap does the same to two chains that agree about what it touches. -/
theorem dispatch_repeats {o : Origin} {call : SwapCall} (hcall : ∀ rate, call ≠ .setTakerFee rate)
    (hs : s.routerFailure = none) (h : w.chain.Alike (call.touched s w.chain) v.chain)
    (hroom : call.Meets (Settlement.Room s) o s w ∧ call.Meets (Settlement.Room s) o s v)
    (hw : ((Call.swaps call).dispatch o).run s w = (.ok (), w'))
    (hv : ((Call.swaps call).dispatch o).run s v = (.ok (), v')) :
    w.chain.Repeats (call.touched s w.chain) w'.chain v.chain v'.chain := by
  have hvisited : ∀ id ∈ call.visited, id ∈ call.touched s w.chain := fun id =>
    List.mem_append_left _
  have hthrough : ∀ fee firstHop, call.takerFee? w.chain = some (fee, firstHop) →
      ∀ id ∈ Swap.settledThrough s w.chain fee firstHop, id ∈ call.touched s w.chain := by
    intro fee firstHop hfee id hid
    refine List.mem_append_right _ ?_
    rw [hfee]
    exact hid
  cases call with
  | setTakerFee rate => exact absurd rfl (hcall rate)
  | swapIn route tokenIn minOut =>
    obtain ⟨sender, hsender, n, hswap⟩ := Origin.signed_ok (atomically_ok.1 hw)
    obtain ⟨sender', hsender', m, hswap'⟩ := Origin.signed_ok (atomically_ok.1 hv)
    obtain rfl := Option.some.inj (hsender.symm.trans hsender')
    refine (Swap.swapIn_repeats hs h hvisited (fun first hfirst => hthrough _ first ?_)
      ⟨hroom.1 sender hsender, hroom.2 sender hsender⟩ hswap hswap').2
    rw [takerFee?, hfirst]
    rfl
  | swapOut route maxIn tokenOut =>
    obtain ⟨sender, hsender, n, hswap⟩ := Origin.signed_ok (atomically_ok.1 hw)
    obtain ⟨sender', hsender', m, hswap'⟩ := Origin.signed_ok (atomically_ok.1 hv)
    obtain rfl := Option.some.inj (hsender.symm.trans hsender')
    obtain ⟨route, hlength⟩ := route
    cases route with
    | nil => cases hswap
    | cons first rest =>
      refine (Swap.swapOut_repeats hs h hvisited (fun quoted ps split hquote hsplit =>
        hthrough _ _ ?_) ⟨hroom.1 sender hsender, hroom.2 sender hsender⟩ hswap hswap').2
      simp only [takerFee?, hquote, hsplit]

end SwapCall

namespace Chain

/-- Two chains that differ at most in their events and in what refers to an account. -/
structure Equates (c d : Chain) : Prop where
  balances : ∀ who a, c.balance who a = d.balance who a
  issued : ∀ j, c.ledger.issued j = d.ledger.issued j
  pools : c.pools = d.pools
  base : c.base = d.base
  registry : c.registry = d.registry
  takerFee : c.takerFee = d.takerFee
  burned : ∀ a, c.totalBurned a = d.totalBurned a
  cursor : c.cursor = d.cursor

variable {ps qs : List PoolId} {c cp cq cpq cqp : Chain}

/-- Of two changes within different pools, each repeated after the other, the order does not
matter. -/
theorem Repeats.equates (hp : Repeats ps c cp cq cqp) (hq : Repeats qs c cq cp cpq)
    (hdisjoint : ∀ id ∈ ps, id ∉ qs) : cpq.Equates cqp where
  balances who a := by
    have hheld := hp.ledger.held who a.id?
    have hheld' := hq.ledger.held who a.id?
    refine Word.ext ?_
    unfold Chain.balance
    rw [Ledger.toNat_balance, Ledger.toNat_balance]
    omega
  issued j := by
    have hissued := hp.ledger.issued j
    have hissued' := hq.ledger.issued j
    omega
  pools := SortedMap.ext fun id => by
    by_cases hid : id ∈ ps
    · rw [hq.right.pools id (hdisjoint id hid), hp.pools id hid]
    · rw [hp.right.pools id hid]
      by_cases hid' : id ∈ qs
      · exact (hq.pools id hid').symm
      · rw [hq.right.pools id hid', hq.left.pools id hid', hp.left.pools id hid]
  base := by rw [hq.right.base, hp.left.base, hp.right.base, hq.left.base]
  registry := by rw [hq.right.registry, hp.left.registry, hp.right.registry, hq.left.registry]
  takerFee := by rw [hq.right.takerFee, hp.left.takerFee, hp.right.takerFee, hq.left.takerFee]
  burned a := by
    obtain ⟨n, hcp, hcqp⟩ := hp.counted a
    obtain ⟨m, hcq, hcpq⟩ := hq.counted a
    refine Word.ext ?_
    omega
  cursor := by rw [hq.right.cursor, hp.left.cursor, hp.right.cursor, hq.left.cursor]

end Chain

/-- Two swaps that touch different pools lead to the same balances, issuances, pools, fee tokens,
counters and cursor in either order, if both succeed in both and nothing overflows. Where the
minimum balances are one and the tokens sufficient, the ledger is plain in every world that genesis
leads to (`Genesis.Reaches.plain`). -/
theorem SwapCall.commute {o o' : Origin} {p q : SwapCall} {wp wpq wq wqp : World}
    (hs : s.routerFailure = none) (hplain : w.chain.ledger.Plain)
    (hp : ∀ rate, p ≠ .setTakerFee rate) (hq : ∀ rate, q ≠ .setTakerFee rate)
    (hdisjoint : ∀ id ∈ p.touched s w.chain, id ∉ q.touched s w.chain)
    (hroom : World.Meets (Settlement.Room s) s w [.call o (.swaps p), .call o' (.swaps q)])
    (hroom' : World.Meets (Settlement.Room s) s w [.call o' (.swaps q), .call o (.swaps p)])
    (hwp : ((Call.swaps p).dispatch o).run s w = (.ok (), wp))
    (hwpq : ((Call.swaps q).dispatch o').run s wp = (.ok (), wpq))
    (hwq : ((Call.swaps q).dispatch o').run s w = (.ok (), wq))
    (hwqp : ((Call.swaps p).dispatch o).run s wq = (.ok (), wqp)) :
    wpq.chain.Equates wqp.chain := by
  have hafter : q.Meets (Settlement.Room s) o' s wp := (hroom.next _ hwp).1
  have hafter' : p.Meets (Settlement.Room s) o s wq := (hroom'.next _ hwq).1
  have hconfined := (dispatch_repeats hp hs (.refl hplain _) ⟨hroom.1, hroom.1⟩ hwp hwp).left
  have hconfined' := (dispatch_repeats hq hs (.refl hplain _) ⟨hroom'.1, hroom'.1⟩ hwq hwq).left
  have hrepeats := dispatch_repeats hp hs (.of_confined hconfined' hplain hdisjoint)
    ⟨hroom.1, hafter'⟩ hwp hwqp
  have hrepeats' := dispatch_repeats hq hs (.of_confined hconfined hplain fun id hid hid' =>
    hdisjoint id hid' hid) ⟨hroom'.1, hafter⟩ hwq hwpq
  exact hrepeats.equates hrepeats' hdisjoint

/-- Tokens 1 and 2 trade against the native currency in a pool each, and only token 1 pays fees. -/
def Genesis.twoMarkets : Genesis :=
  { Genesis.standard with
    balances := [(8, 1000), (9, 1000)]
    tokens := [(1, { sufficient := true, minBalance := 1 }),
      (2, { sufficient := true, minBalance := 1 })]
    holdings := [(1, 9, 10000), (2, 8, 10000)]
    pools := [⟨⟨.issued 1, 100000⟩, ⟨.native, 100000⟩, .sum, .zero⟩,
      ⟨⟨.issued 2, 100000⟩, ⟨.native, 100000⟩, .sum, .zero⟩]
    fees := ⟨none, [⟨.issued 1, 1⟩]⟩ }

/-- Account 9 sells token 1, of which account 7 is the owner, and account 8 buys with token 2. One fee
is converted and the other swapped before it is charged; all but the half of account 7 is burned. -/
theorem SwapCall.sale_commutes_with_purchase :
    let s : Settings :=
      { Swap.plainSettings with ownersDeployed := true, owners := .ofList [(.issued 1, 7)] }
    let p : SwapCall := .swapIn ⟨[⟨1, .native⟩], by decide⟩ ⟨.issued 1, 1000⟩ 0
    let q : SwapCall := .swapOut ⟨[⟨2, .issued 2⟩], by decide⟩ 1000 ⟨.native, 500⟩
    let sale := ((Call.swaps p).dispatch (.signed 9)).run s
    let purchase := ((Call.swaps q).dispatch (.signed 8)).run s
    ∃ w, Genesis.twoMarkets.Reaches s w ∧
      (purchase (sale w).2).2.chain.Equates (sale (purchase w).2).2.chain ∧
      (purchase (sale w).2).2.chain.totalBurned .native = 11 ∧
      (purchase (sale w).2).2.chain.events ≠ (sale (purchase w).2).2.chain.events := by
  intro s p q sale purchase
  let both : List Operation := [.call (.signed 9) (.swaps p), .call (.signed 8) (.swaps q)]
  obtain ⟨w, ⟨c, hc, hw⟩, hsale, hpurchase, hdisjoint, ⟨hroom, hroom'⟩, hburned, hevents⟩ :
      ∃ w : World, (∃ c, Genesis.twoMarkets.build s = .ok c ∧ w = ⟨c, []⟩) ∧
        ((sale w).1 = .ok () ∧ (sale (purchase w).2).1 = .ok ()) ∧
        ((purchase w).1 = .ok () ∧ (purchase (sale w).2).1 = .ok ()) ∧
        (∀ id ∈ p.touched s w.chain, id ∉ q.touched s w.chain) ∧
        (World.Meets (Settlement.Room s) s w both ∧
          World.Meets (Settlement.Room s) s w both.reverse) ∧
        (purchase (sale w).2).2.chain.totalBurned .native = 11 ∧
        (purchase (sale w).2).2.chain.events ≠ (sale (purchase w).2).2.chain.events :=
    ⟨_, ⟨_, rfl, rfl⟩, by decide +kernel, by decide +kernel, by decide +kernel, by decide +kernel,
      by decide +kernel, by decide +kernel⟩
  have hreach : Genesis.twoMarkets.Reaches s w := ⟨c, [], hc, hw.symm⟩
  have hwp : sale w = (.ok (), (sale w).2) := Prod.ext hsale.1 rfl
  have hwqp : sale (purchase w).2 = (.ok (), (sale (purchase w).2).2) := Prod.ext hsale.2 rfl
  have hwq : purchase w = (.ok (), (purchase w).2) := Prod.ext hpurchase.1 rfl
  have hwpq : purchase (sale w).2 = (.ok (), (purchase (sale w).2).2) := Prod.ext hpurchase.2 rfl
  have h := @commute s w (.signed 9) (.signed 8) p q _ _ _ _ rfl (hreach.plain rfl (by decide)) nofun
    nofun hdisjoint hroom hroom' hwp hwpq hwq hwqp
  exact ⟨w, hreach, h, hburned, hevents⟩

end SwapFees
