import SwapFees.Proofs.FeeTokens
import SwapFees.Proofs.Headroom
import SwapFees.Proofs.Refusals

namespace SwapFees

theorem Moves.tradable {party : AccountId → Prop} {c c' : Chain} (h : Moves party c c') :
    c.pools.Tradable → c'.pools.Tradable := by
  refine h.lift (R := fun c c' => c.pools.Tradable → c'.pools.Tradable) (fun _ => id)
    (fun h h' => h' ∘ h) fun hm hps => ?_
  cases hm with
  | trade hw ht hx => exact hps.trades ht
  | _ => exact hps

open Effect DispatchError

variable {s : Settings}

namespace Router

theorem faultless_failing (how : RouterFailure) (sender : AccountId) (c : Coin) (w : World) :
    (failing how sender c).Faultless s w := by
  cases how with
  | reject => exact faultless_fail _
  | failAfterDebit => exact faultless_bind (faultless_onLedger _) fun _ _ _ => faultless_fail _
  | zeroOutput => exact faultless_bind (faultless_onLedger _) fun _ _ _ => faultless_pure _

theorem faultless_swapIn (sender : AccountId) (route : List HopIn) (tokenIn : Coin) (minOut : Amount)
    (w : World) : (swapIn sender route tokenIn minOut).Faultless s w := by
  refine faultless_bind_read ?_
  split
  · exact faultless_failing _ _ _ w
  · split
    · exact faultless_fail _
    · refine faultless_bind_chain ?_
      refine faultless_bind (faultless_lift (Pools.faultless_carry _ _ _)) fun (out, ps) v _ => ?_
      dsimp only
      split
      · exact faultless_fail _
      · exact faultless_bind (atWorst_exchange _ _ _ _ v).faultless fun _ _ _ => faultless_pure _

variable {w : World} (hps : w.chain.pools.Tradable)
include hps

theorem faultless_estimate (route : List HopOut) (tokenOut : Coin) :
    (estimate route tokenOut).Faultless s w :=
  faultless_bind_chain <|
    faultless_bind (faultless_lift (Pools.faultless_quote hps _ _)) fun _ _ _ => faultless_pure _

theorem faultless_swapOut (sender : AccountId) (route : List HopOut) (maxIn : Amount)
    (tokenOut : Coin) : (swapOut sender route maxIn tokenOut).Faultless s w := by
  cases route with
  | nil => exact faultless_fail _
  | cons first rest =>
    refine faultless_bind_read ?_
    split
    · exact faultless_failing _ _ _ w
    · refine faultless_bind_chain ?_
      refine faultless_bind (faultless_lift (Pools.faultless_quote hps _ _)) fun (n, ps) v _ => ?_
      dsimp only
      split
      · exact faultless_fail _
      · exact faultless_bind (atWorst_exchange _ _ _ _ v).faultless fun _ _ _ => faultless_pure _

end Router

namespace Conversion

theorem faultless_swapThrough (base : Asset) (t : FeeToken) (fee : Coin) (w : World) :
    (swapThrough base t fee).Faultless s w := by
  refine faultless_bind_read (faultless_bind (Router.faultless_swapIn _ _ _ _ w) fun n v _ => ?_)
  split
  · exact faultless_bind (faultless_report _) fun _ _ _ => faultless_fail _
  · exact faultless_pure _

/-- In any world a conversion has an answer: a swap that fails is taken back. -/
theorem succeeds_convert (base : Asset) (fee : Coin) (w : World) :
    (convert base fee).Succeeds s w := by
  unfold convert
  split
  · exact succeeds_pure _
  · refine succeeds_bind ⟨_, _, rfl⟩ fun c v _ => ?_
    split
    · exact succeeds_pure _
    · refine succeeds_bind
        (succeeds_transact _ (succeeds_attempt (faultless_swapThrough _ _ _ v))) fun r u _ => ?_
      cases r with
      | ok out =>
        refine succeeds_bind ?_ fun _ _ _ => succeeds_pure _
        unfold announce
        refine succeeds_bind ⟨_, _, rfl⟩ fun _ _ _ => ?_
        split <;> exact ⟨_, _, rfl⟩
      | error e => exact succeeds_bind ⟨_, _, rfl⟩ fun _ _ _ => succeeds_pure _

end Conversion

namespace Settlement

theorem atWorst_dispose (how : Disposition) (source : AccountId) (fee : Coin) (w : World) :
    (dispose how source fee).AtWorst s w OfSettlement := by
  cases how with
  | burned =>
    exact atWorst_bind ((Bank.atWorst_burn _ _ w).imp fun _ => .ledger) fun _ _ _ => atWorst_pure _
  | communityPool =>
    refine atWorst_bind_read ?_
    split
    · exact atWorst_fail .communityPool
    · exact atWorst_bind ((Bank.atWorst_transfer _ _ _ _ w).imp fun _ => .ledger) fun _ _ _ =>
        atWorst_pure _

theorem atWorst_payShare (beneficiary : Option AccountId) (c : Coin) (w : World) :
    (payShare beneficiary c).AtWorst s w OfLedger := by
  cases beneficiary with
  | none => exact atWorst_pure _
  | some who =>
    unfold payShare
    dsimp only
    split
    · exact atWorst_pure _
    · refine atWorst_bind_chain ?_
      split
      · exact atWorst_bind_read <|
          atWorst_bind (Bank.atWorst_transfer _ _ _ _ w) fun _ _ _ => atWorst_pure _
      · exact Succeeds.atWorst ⟨_, _, rfl⟩

/-- A conversion always has an answer, so nothing that a pool refuses gets out of a settlement. -/
theorem atWorst_settle (fee : Coin) (beneficiary payer : Option AccountId) (w : World) :
    (settle fee beneficiary payer).AtWorst s w OfSettlement := by
  refine atWorst_bind_read (atWorst_bind_chain ?_)
  refine atWorst_bind (Conversion.succeeds_convert _ _ w).atWorst fun r v _ => ?_
  cases r with
  | unswappable =>
    exact atWorst_bind (atWorst_dispose _ _ _ v) fun how u _ => Succeeds.atWorst ⟨_, _, rfl⟩
  | converted coin =>
    refine atWorst_bind ((atWorst_payShare _ _ v).imp fun _ => .ledger) fun revenue u _ => ?_
    exact atWorst_bind ((Bank.atWorst_burn _ _ u).imp fun _ => .ledger) fun _ _ _ =>
      Succeeds.atWorst ⟨_, _, rfl⟩

theorem atWorst_chargeFrom (payer : AccountId) (fee : Coin) (beneficiary : Option AccountId)
    (w : World) : (chargeFrom payer fee beneficiary).AtWorst s w OfSettlement := by
  unfold chargeFrom
  split
  · exact atWorst_pure _
  · exact atWorst_bind_read <| atWorst_bind ((Bank.atWorst_transfer _ _ _ _ w).imp fun _ => .ledger)
      fun _ v _ => atWorst_settle _ _ _ v

end Settlement

namespace Swap

theorem succeeds_beneficiary (assetIn assetOut : Asset) (w : World) :
    (beneficiary assetIn assetOut).Succeeds s w := by
  refine succeeds_bind ⟨_, _, rfl⟩ fun c v _ => ?_
  split
  · split
    · exact succeeds_pure _
    · exact ⟨_, _, rfl⟩
  · exact succeeds_pure _

theorem atWorst_chargeTakerFee {w : World} {fee : Coin}
    (haccepted : w.chain.isFeeAsset fee.asset = true) (sender : AccountId) (firstHop : HopIn)
    (beneficiary : Option AccountId) :
    (chargeTakerFee sender fee firstHop beneficiary).AtWorst s w OfSettlement := by
  unfold chargeTakerFee
  split
  · exact atWorst_pure _
  · refine atWorst_bind (Succeeds.atWorst ?_) fun _ v _ => Settlement.atWorst_chargeFrom _ _ _ v
    unfold acceptedFee
    refine succeeds_bind ⟨_, _, rfl⟩ fun c v hv => ?_
    cases hv
    rw [if_pos haccepted]
    exact succeeds_pure _

theorem faultless_chargeTakerFee (sender : AccountId) (fee : Coin) (firstHop : HopIn)
    (beneficiary : Option AccountId) (w : World) :
    (chargeTakerFee sender fee firstHop beneficiary).Faultless s w := by
  unfold chargeTakerFee
  split
  · exact faultless_pure _
  · refine faultless_bind ?_ fun _ v _ => (Settlement.atWorst_chargeFrom _ _ _ v).faultless
    refine faultless_bind_chain ?_
    split
    · exact faultless_pure _
    · refine faultless_bind (faultless_report _) fun _ v _ => ?_
      exact faultless_bind (Router.faultless_swapIn _ _ _ _ v) fun _ _ _ => faultless_pure _

theorem tradable_chargeTakerFee {sender : AccountId} {fee : Coin} {firstHop : HopIn}
    {beneficiary : Option AccountId} {w w' : World} (hps : w.chain.pools.Tradable)
    (h : (chargeTakerFee sender fee firstHop beneficiary).run s w = (.ok (), w')) :
    w'.chain.pools.Tradable := by
  have hmoves : Moves (fun _ => True) w.chain
      ((chargeTakerFee sender fee firstHop beneficiary).run s w).2.chain :=
    moving_chargeTakerFee trivial trivial trivial fee firstHop (fun _ _ => trivial) w
  rw [h] at hmoves
  exact Moves.tradable hmoves hps

theorem faultless_depositSwap (sender : AccountId) (pool : PoolId) (tokensIn tokensOut : Coin)
    (rate : Rate) (w : World) :
    (depositSwap sender pool tokensIn tokensOut rate).Faultless s w :=
  faultless_bind_chain (faultless_deposit _)

theorem faultless_swapIn (sender : AccountId) (route : List HopIn) (tokenIn : Coin) (minOut : Amount)
    (w : World) : (swapIn sender route tokenIn minOut).Faultless s w := by
  unfold swapIn
  split
  · refine faultless_bind_chain ?_
    refine faultless_bind (succeeds_beneficiary _ _ w).faultless fun b w₁ _ => ?_
    refine faultless_bind (faultless_chargeTakerFee _ _ _ _ w₁) fun _ w₂ _ => ?_
    refine faultless_bind (Router.faultless_swapIn _ _ _ _ w₂) fun n w₃ _ => ?_
    exact faultless_bind (faultless_depositSwap _ _ _ _ _ w₃) fun _ _ _ => faultless_pure _
  · exact faultless_fail _

/-- A purchase divides by what the taker fee and the fees of the pools leave, and the settlement of
the taker fee changes none of these. -/
theorem faultless_swapOut {w : World} (hrate : w.chain.takerFee.parts < million)
    (hps : w.chain.pools.Tradable) (sender : AccountId) (route : List HopOut) (maxIn : Amount)
    (tokenOut : Coin) : (swapOut sender route maxIn tokenOut).Faultless s w := by
  unfold swapOut
  split
  · refine faultless_bind_chain ?_
    refine faultless_bind (Router.faultless_estimate hps _ _) fun n v hv => ?_
    obtain rfl := (Router.estimate_ok hv).1
    refine faultless_bind (faultless_lift (FeeSplit.faultless_add hrate _)) fun split u hu => ?_
    obtain rfl := (lift_ok.1 hu).2
    split
    · exact faultless_fail _
    · refine faultless_bind (succeeds_beneficiary _ _ u).faultless fun b w₁ hb => ?_
      refine faultless_bind (faultless_chargeTakerFee _ _ _ _ w₁) fun _ w₂ hfee => ?_
      have hps₁ : w₁.chain.pools.Tradable := (beneficiary_ok hb).1 ▸ hps
      have hps₂ := tradable_chargeTakerFee hps₁ hfee
      refine faultless_bind (Router.faultless_swapOut hps₂ _ _ _ _) fun m w₃ _ => ?_
      exact faultless_bind (faultless_depositSwap _ _ _ _ _ w₃) fun _ _ _ => faultless_pure _
  · exact faultless_fail _

end Swap

namespace Sweep

theorem succeeds_visit (base a : Asset) (w : World) : (visit base a).Succeeds s w := by
  refine succeeds_bind ⟨_, _, rfl⟩ fun c v _ => succeeds_bind ⟨_, _, rfl⟩ fun t u _ => ?_
  dsimp only
  split
  · exact succeeds_pure _
  · exact succeeds_bind (Conversion.succeeds_convert _ _ u) fun _ _ _ => succeeds_pure _

theorem succeeds_visitAll (base : Asset) (as : List Asset) (w : World) :
    (visitAll base as).Succeeds s w := by
  induction as generalizing w with
  | nil => exact succeeds_pure _
  | cons a as ih => exact succeeds_bind (succeeds_visit base a w) fun _ v _ => ih v

theorem succeeds_burnResidue (base : Asset) (w : World) : (burnResidue base).Succeeds s w := by
  refine succeeds_bind ⟨_, _, rfl⟩ fun t v _ => succeeds_bind ⟨_, _, rfl⟩ fun c u _ => ?_
  dsimp only
  split
  · exact succeeds_pure _
  · refine succeeds_bind (succeeds_attempt (Bank.atWorst_burn _ _ u).faultless) fun r _ _ => ?_
    cases r <;> exact ⟨_, _, rfl⟩

theorem succeeds_idle (budget : Weight) (w : World) : (idle budget).Succeeds s w := by
  refine succeeds_bind ⟨_, _, rfl⟩ fun c v _ => succeeds_bind ⟨_, _, rfl⟩ fun t u _ => ?_
  refine succeeds_bind (succeeds_visitAll _ _ u) fun _ x _ => ?_
  refine succeeds_bind ⟨_, _, rfl⟩ fun _ y _ => ?_
  dsimp only
  split
  · exact succeeds_bind (succeeds_burnResidue _ y) fun _ _ _ => succeeds_pure _
  · exact succeeds_pure _

end Sweep

theorem Origin.faultless_requireRoot (o : Origin) (w : World) : o.requireRoot.Faultless s w := by
  cases o with
  | root => exact faultless_pure _
  | signed who => exact faultless_fail _
  | none => exact faultless_fail _

theorem Origin.faultless_requireAccount (o : Origin) (w : World) :
    o.requireAccount.Faultless s w := by
  cases o with
  | root => exact faultless_fail _
  | signed who => exact faultless_pure _
  | none => exact faultless_fail _

theorem SwapCall.faultless_dispatch {w : World} (hrate : w.chain.takerFee.parts < million)
    (hps : w.chain.pools.Tradable) (o : Origin) (c : SwapCall) :
    ((Call.swaps c).dispatch o).Faultless s w := by
  refine faultless_atomically ?_
  cases c with
  | swapIn route tokenIn minOut =>
    refine faultless_bind (o.faultless_requireAccount w) fun sender v _ => ?_
    exact faultless_bind (Swap.faultless_swapIn _ _ _ _ v) fun _ _ _ => faultless_pure _
  | swapOut route maxIn tokenOut =>
    refine faultless_bind (o.faultless_requireAccount w) fun sender v hv => ?_
    obtain ⟨-, rfl⟩ := Origin.requireAccount_ok hv
    exact faultless_bind (Swap.faultless_swapOut hrate hps _ _ _ _) fun _ _ _ => faultless_pure _
  | setTakerFee rate =>
    refine faultless_bind (o.faultless_requireRoot w) fun _ v _ => ?_
    unfold Governance.setTakerFee
    split
    · refine faultless_bind_chain ?_
      exact faultless_bind (faultless_modifyChain _) fun _ _ _ => faultless_deposit _
    · exact faultless_fail _

theorem Step.takerFee_lt {growing : Prop} {c c' : Chain} (h : Step s growing c c')
    (hc : c.takerFee.parts < million) : c'.takerFee.parts < million := by
  cases h with
  | move hm => cases hm <;> exact hc
  | setTakerFee hrate => exact hrate
  | _ => exact hc

namespace Genesis

variable {g : Genesis}

theorem takerFee_build (hdefault : g.defaultTakerFee.parts < million) {c : Chain}
    (h : g.build s = .ok c) : c.takerFee.parts < million := by
  obtain ⟨l₁, l₂, l₃, ps, base, registry, rate, -, -, -, hrate, rfl⟩ := build_ok h
  rcases hrate with rfl | hlt
  · exact hdefault
  · exact hlt

theorem Reaches.takerFee_lt {w : World} (h : g.Reaches s w)
    (hdefault : g.defaultTakerFee.parts < million) : w.chain.takerFee.parts < million := by
  obtain ⟨c, ops, hb, rfl⟩ := h
  exact World.replay_keeps_of_steps (P := fun c => c.takerFee.parts < million)
    (fun _ _ _ => trivial) Step.takerFee_lt _ (takerFee_build hdefault hb)

/-- In every world that genesis leads to, the taker fee is below the whole; and whatever pools it is
given, if their fees are below the whole too, every swap call is answered or refused and every sweep
goes through. -/
theorem Reaches.never_faults {w : World} (h : g.Reaches s w)
    (hdefault : g.defaultTakerFee.parts < million) :
    w.chain.takerFee.parts < million ∧
      ∀ ps : Pools, ps.Tradable →
        (∀ (o : Origin) (c : SwapCall) (f : Fault),
          (((Call.swaps c).dispatch o).run s (w.with { w.chain with pools := ps })).1 ≠
            .error (.fault f)) ∧
        ∀ budget, ∃ used w',
          (Sweep.idle budget).run s (w.with { w.chain with pools := ps }) = (.ok used, w') :=
  have hrate := h.takerFee_lt hdefault
  ⟨hrate, fun ps hps =>
    ⟨fun o c => SwapCall.faultless_dispatch (w := w.with { w.chain with pools := ps }) hrate hps o c,
      fun budget => Sweep.succeeds_idle budget _⟩⟩

/-- Also with the largest fees there are below the whole, and nothing in the pool. -/
theorem faultless_of_oneFeeToken :
    ∃ w, oneFeeToken.Reaches .standard w ∧ w.chain.takerFee.parts = 999999 ∧
      ∃ ps : Pools, ps.get? 1 = some ⟨⟨.native, 0⟩, ⟨.issued 1, 0⟩, .product, .ofParts 999999⟩ ∧
        ∀ f, (((Call.swaps (.swapOut ⟨[⟨1, .native⟩], by decide⟩ Word.top ⟨.issued 1, 0⟩)).dispatch
          (.signed 9)).run .standard (w.with { w.chain with pools := ps })).1 ≠
            .error (.fault f) := by
  let raise : Operation := .call .root (.swaps (.setTakerFee (.ofParts 999999)))
  obtain ⟨c, hc⟩ : ∃ c, oneFeeToken.build .standard = .ok c := ⟨_, rfl⟩
  let w := World.replay .standard ⟨c, []⟩ [raise]
  have hr : oneFeeToken.Reaches .standard w := ⟨c, [raise], hc, rfl⟩
  obtain ⟨-, h⟩ := Reaches.never_faults hr (by decide)
  let p : Pool := ⟨⟨.native, 0⟩, ⟨.issued 1, 0⟩, .product, .ofParts 999999⟩
  have hps : Pools.Tradable (SortedMap.empty.insert 1 p) :=
    Pools.Tradable.insert (fun _ _ hp => by cases hp) (by decide : p.fee.parts < million) 1
  exact ⟨w, hr, rfl, _, SortedMap.get?_insert_self .., (h _ hps).1 _ _⟩

end Genesis

end SwapFees
