import SwapFees.Proofs.Headroom
import SwapFees.Proofs.Settlement

namespace SwapFees

open Effect

def Event.isSwap : Event → Bool
  | tokenSwapped .. => true
  | _ => false

variable {s : Settings} {w w' : World} {sender : AccountId} {fee : Coin} {firstHop : HopIn}
  {beneficiary : Option AccountId}

namespace Swap

/-- What is handed to the settlement for a taker fee: the fee itself if it is accepted, else what
swapping it through the first hop gives. -/
def handed (s : Settings) (c : Chain) (fee : Coin) (firstHop : HopIn) : Amount :=
  if c.isFeeAsset fee.asset then fee.amount
  else match s.routerFailure with
    | some _ => 0
    | none =>
      match c.pools.carry fee [firstHop] with
      | .ok (out, _) => out.amount
      | .error _ => 0

/-- The events of one chain go on to those of another with conversions and with `n` charges. -/
def Charges (n : Nat) (c c' : Chain) : Prop :=
  ∃ conversions charged, c'.events = c.events ++ conversions ++ charged ∧
    (∀ e ∈ conversions, e.isConversion = true) ∧ (∀ e ∈ charged, e.isFeeCharge = true) ∧
    charged.length = n

theorem charges_zero {c c' : Chain} (h : c'.events = c.events) : Charges 0 c c' :=
  ⟨[], [], by simp [h], nofun, nofun, rfl⟩

theorem acceptedFee_handed {got : Coin}
    (h : (acceptedFee sender fee firstHop).run s w = (.ok got, w')) :
    got.amount = handed s w.chain fee firstHop ∧ w'.chain.events = w.chain.events := by
  unfold handed
  rcases acceptedFee_cases h with ⟨haccepted, rfl, rfl⟩ | ⟨haccepted, v, n, hv, hswap, rfl⟩
  · exact ⟨(if_pos haccepted).symm, rfl⟩
  · obtain ⟨l, ps, hframe⟩ := Router.swapIn_frame hswap
    rw [if_neg (Bool.eq_false_iff.1 haccepted), hframe, ← hv]
    refine ⟨?_, rfl⟩
    cases hs : s.routerFailure with
    | some how =>
      rw [Router.swapIn, run_bind_read, hs] at hswap
      exact Router.failing_ok hswap
    | none =>
      obtain ⟨out, ps, l, hcarry, -, -, rfl, -⟩ := Router.swapIn_ok hs hswap
      rw [hcarry]

/-- A taker fee is charged once, unless nothing of it reaches the settlement. -/
theorem chargeTakerFee_charges
    (h : (chargeTakerFee sender fee firstHop beneficiary).run s w = (.ok (), w')) :
    Charges (if fee.amount = 0 ∨ handed s w.chain fee firstHop = 0 then 0 else 1)
      w.chain w'.chain := by
  rcases chargeTakerFee_ok h with ⟨hfee, rfl⟩ | ⟨hfee, got, v, haccepted, hcharge⟩
  · rw [if_pos (.inl hfee)]
    exact charges_zero rfl
  obtain ⟨hgot, hevents⟩ := acceptedFee_handed haccepted
  rw [← hgot]
  by_cases hz : got.amount = 0
  · rw [if_pos (.inr hz)]
    rw [Settlement.chargeFrom_zero hz] at hcharge
    obtain ⟨-, rfl⟩ := Prod.mk.inj hcharge
    exact charges_zero hevents
  · rw [if_neg fun h => h.elim hfee hz]
    obtain ⟨l, -, hsettle⟩ := Settlement.chargeFrom_ok hz hcharge
    obtain ⟨r, w₂, told, l', burned, hconvert, htold, hw'⟩ := Settlement.settle_frame hz hsettle
    obtain ⟨-, -, es, hes, hpast⟩ := (Conversion.convert_outcome hconvert).frame
    refine ⟨es, [told], ?_, hes, fun e he => ?_, rfl⟩
    · rw [hw', ← hevents]
      exact congrArg (· ++ [told]) hpast
    · rw [List.mem_singleton.1 he]
      exact htold

/-- The events of one chain go on to those of another with a settled taker fee and then a swap. -/
def Announces (s : Settings) (fee : Coin) (firstHop : HopIn) (c c' : Chain) : Prop :=
  ∃ conversions charged sold, c'.events = c.events ++ conversions ++ charged ++ [sold] ∧
    (∀ e ∈ conversions, e.isConversion = true) ∧ (∀ e ∈ charged, e.isFeeCharge = true) ∧
    charged.length = (if fee.amount = 0 ∨ handed s c fee firstHop = 0 then 0 else 1) ∧
    sold.isSwap = true

/-- Between the settlement and the event of a swap nothing is announced. -/
theorem announces_of_charges {c c₁ c₂ : Chain} {sold : Event}
    (h : Charges (if fee.amount = 0 ∨ handed s c fee firstHop = 0 then 0 else 1) c c₁)
    (hevents : c₂.events = c₁.events ++ [sold]) (hsold : sold.isSwap = true) :
    Announces s fee firstHop c c₂ := by
  obtain ⟨conversions, charged, hpast, hconversions, hcharged, hlength⟩ := h
  refine ⟨conversions, charged, sold, ?_, hconversions, hcharged, hlength, hsold⟩
  rw [hevents, hpast]

theorem swapIn_announces {route : List HopIn} {tokenIn : Coin} {minOut n : Amount}
    (h : (swapIn sender route tokenIn minOut).run s w = (.ok n, w')) :
    ∃ first, route.head? = some first ∧
      Announces s (FeeSplit.subtract tokenIn w.chain.takerFee).fee first w.chain w'.chain := by
  rcases hlast : route.getLast? with _ | last
  · rw [List.getLast?_eq_none_iff.1 hlast] at h
    cases h
  obtain ⟨first, b, w₁, w₂, w₃, hfirst, hben, hfee, hswap, rfl⟩ := swapIn_ok h hlast
  obtain ⟨l, ps, hframe⟩ := Router.swapIn_frame hswap
  have hcharges := chargeTakerFee_charges hfee
  rw [(beneficiary_ok hben).1] at hcharges
  have hpast : w₃.chain.events = w₂.chain.events := by rw [hframe]
  exact ⟨first, hfirst, announces_of_charges hcharges (congrArg (· ++ [told ..]) hpast) rfl⟩

theorem swapOut_announces {first : HopOut} {rest : List HopOut} {maxIn n : Amount} {tokenOut : Coin}
    (h : (swapOut sender (first :: rest) maxIn tokenOut).run s w = (.ok n, w')) :
    ∃ quoted ps split, w.chain.pools.quote tokenOut (first :: rest) = .ok (quoted, ps) ∧
      FeeSplit.add ⟨first.assetIn, quoted⟩ w.chain.takerFee = .ok split ∧
      Announces s split.fee ⟨first.pool, HopOut.next tokenOut.asset rest⟩ w.chain w'.chain := by
  obtain ⟨quoted, split, b, w₁, w₂, m, w₃, ⟨ps, hquote⟩, hsplit, -, hben, hfee, hswap, -, last,
    rfl⟩ := swapOut_ok h
  obtain ⟨l, ps', hframe⟩ := Router.swapOut_frame hswap
  have hcharges := chargeTakerFee_charges hfee
  rw [(beneficiary_ok hben).1] at hcharges
  have hpast : w₃.chain.events = w₂.chain.events := by rw [hframe]
  exact ⟨quoted, ps, split, hquote, hsplit,
    announces_of_charges hcharges (congrArg (· ++ [told ..]) hpast) rfl⟩

end Swap

/-- The taker fee computed for a swap, and the hop through which it goes if it is not accepted. -/
def SwapCall.takerFee? (c : Chain) : SwapCall → Option (Coin × HopIn)
  | swapIn route tokenIn _ =>
    route.val.head?.map fun first => ((FeeSplit.subtract tokenIn c.takerFee).fee, first)
  | swapOut ⟨[], _⟩ _ _ => none
  | swapOut ⟨first :: rest, _⟩ _ tokenOut =>
    match c.pools.quote tokenOut (first :: rest) with
    | .error _ => none
    | .ok (quoted, _) =>
      match FeeSplit.add ⟨first.assetIn, quoted⟩ c.takerFee with
      | .error _ => none
      | .ok split => some (split.fee, ⟨first.pool, HopOut.next tokenOut.asset rest⟩)
  | setTakerFee _ => none

/-- A swap that is dispatched with success announces, after the conversion of its taker fee if
there is one, exactly one charge, unless the fee is nothing or nothing of it is handed to the
settlement; and last exactly one swap. -/
theorem SwapCall.announces {o : Origin} {call : SwapCall} (hcall : ∀ rate, call ≠ .setTakerFee rate)
    (h : ((Call.swaps call).dispatch o).run s w = (.ok (), w')) :
    ∃ fee firstHop conversions charged sold, call.takerFee? w.chain = some (fee, firstHop) ∧
      w'.chain.events = w.chain.events ++ conversions ++ charged ++ [sold] ∧
      (∀ e ∈ conversions, e.isConversion = true) ∧ (∀ e ∈ charged, e.isFeeCharge = true) ∧
      charged.length =
        (if fee.amount = 0 ∨ Swap.handed s w.chain fee firstHop = 0 then 0 else 1) ∧
      sold.isSwap = true := by
  have hperform := atomically_ok.1 h
  cases call with
  | setTakerFee rate => exact absurd rfl (hcall rate)
  | swapIn route tokenIn minOut =>
    obtain ⟨sender, v, horigin, hrest⟩ := bind_ok.1 hperform
    obtain ⟨-, rfl⟩ := Origin.requireAccount_ok horigin
    obtain ⟨n, v, hswap, hdone⟩ := bind_ok.1 hrest
    obtain ⟨-, rfl⟩ := Prod.mk.inj hdone
    obtain ⟨first, hfirst, conversions, charged, sold, hall⟩ := Swap.swapIn_announces hswap
    refine ⟨_, first, conversions, charged, sold, ?_, hall.1, hall.2.1, hall.2.2.1, hall.2.2.2⟩
    rw [SwapCall.takerFee?, hfirst]
    rfl
  | swapOut route maxIn tokenOut =>
    obtain ⟨sender, v, horigin, hrest⟩ := bind_ok.1 hperform
    obtain ⟨-, rfl⟩ := Origin.requireAccount_ok horigin
    obtain ⟨n, v, hswap, hdone⟩ := bind_ok.1 hrest
    obtain ⟨-, rfl⟩ := Prod.mk.inj hdone
    obtain ⟨route, hlength⟩ := route
    cases route with
    | nil => cases hswap
    | cons first rest =>
      obtain ⟨quoted, ps, split, hquote, hsplit, conversions, charged, sold, hall⟩ :=
        Swap.swapOut_announces hswap
      refine ⟨split.fee, _, conversions, charged, sold, ?_, hall.1, hall.2.1, hall.2.2.1,
        hall.2.2.2⟩
      simp only [SwapCall.takerFee?, hquote, hsplit]

/-- Of token 1, which pays no fees, one percent is swapped for native currency and then charged. -/
theorem SwapCall.announces_in_market :
    let w := Swap.market 1 { providers := 1, sufficients := 1, free := 50 } .native
    let call : SwapCall := .swapIn ⟨[⟨1, .native⟩], by decide⟩ ⟨.issued 1, 100⟩ 99
    let sold := ((Call.swaps call).dispatch (.signed 9)).run Swap.plainSettings w
    sold.1 = .ok () ∧ ∃ conversions charged told,
      sold.2.chain.events = w.chain.events ++ conversions ++ charged ++ [told] ∧
        charged.length = 1 ∧ told.isSwap = true := by
  intro w call sold
  have hok : sold.1 = .ok () := by decide
  obtain ⟨fee, firstHop, conversions, charged, told, hfee, hevents, -, -, hlength, htold⟩ :=
    @announces Swap.plainSettings w sold.2 (.signed 9) call nofun (Prod.ext hok rfl)
  have hcall : call.takerFee? w.chain = some (⟨.issued 1, 1⟩, ⟨1, .native⟩) := by decide
  obtain ⟨rfl, rfl⟩ := Prod.mk.inj (Option.some.inj (hcall.symm.trans hfee))
  exact ⟨hok, conversions, charged, told, hevents, hlength.trans (by decide), htold⟩

/-- Native currency is dear here, so that one of token 1 is swapped for nothing. -/
def Swap.dearMarket : World :=
  let w := market 1 { providers := 1, sufficients := 1, free := 50 } .native
  w.with { w.chain with
    pools := .ofList [(1, ⟨⟨.issued 1, 1000⟩, ⟨.native, 50⟩, .product, .zero⟩)] }

/-- A taker fee of one is then taken from the sender, and no charge is announced. -/
theorem SwapCall.announces_no_charge :
    let w := Swap.dearMarket
    let call : SwapCall := .swapIn ⟨[⟨1, .native⟩], by decide⟩ ⟨.issued 1, 100⟩ 1
    let sold := ((Call.swaps call).dispatch (.signed 9)).run Swap.plainSettings w
    call.takerFee? w.chain = some (⟨.issued 1, 1⟩, ⟨1, .native⟩) ∧ sold.1 = .ok () ∧
      sold.2.chain.balance 9 (.issued 1) = 0 ∧ sold.2.chain.events.all Event.isSwap = true := by
  decide

end SwapFees
