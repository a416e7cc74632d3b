import SwapFees.Genesis
import SwapFees.Proofs.Moves

namespace SwapFees

/-- The least changes of a chain by an operation. Pools come only while the chain is `growing`. -/
inductive Step (s : Settings) (growing : Prop) : Chain → Chain → Prop
  | move {c c' : Chain} (h : Move (fun _ => True) c c') : Step s growing c c'
  | setBase (c : Chain) (base : Asset) :
    Step s growing c { c with registry := c.registry.eraseAll (Governance.stale c base), base }
  | setFeeToken {c : Chain} {t : FeeToken} (hpath : c.pools.checkPath t c.base = .ok ())
    (hroom : c.registry.contains t.asset = true ∨ c.registry.count < s.maxFeeTokens) :
    Step s growing c { c with registry := c.registry.insert t }
  | removeFeeToken (c : Chain) (a : Asset) :
    Step s growing c { c with registry := c.registry.erase a }
  | setTakerFee (c : Chain) {rate : Rate} (hrate : rate.parts < million) :
    Step s growing c { c with takerFee := rate }
  | addPool {c : Chain} {p : Pool} {id : PoolId} {ps : Pools} (hg : growing)
    (h : c.pools.add p = .ok (id, ps)) : Step s growing c { c with pools := ps }

abbrev Steps (s : Settings) (growing : Prop) : Chain → Chain → Prop :=
  Relation.ReflTransGen (Step s growing)

theorem Steps.keep {s : Settings} {growing : Prop} {P : Chain → Prop}
    (step : ∀ {c c'}, Step s growing c c' → P c → P c') {c c' : Chain} (h : Steps s growing c c') :
    P c → P c' := by
  intro hc
  induction h with
  | refl => exact hc
  | tail _ hs ih => exact step hs ih

variable {s : Settings} {growing : Prop}

theorem Effect.Moving.within {α : Type} {a : Effect α} (h : a.Moving s fun _ => True) :
    a.Within s (Step s growing) :=
  fun w => Relation.ReflTransGen.mono (fun _ _ => Step.move) _ _ (h w)

open Effect

namespace Governance

theorem within_setBase (base : Asset) : (setBase base).Within s (Step s growing) := fun w =>
  .tail (.single (.setBase w.chain base)) (.move (.announce _ _))

theorem within_setFeeToken (t : FeeToken) : (setFeeToken t).Within s (Step s growing) := by
  intro w
  unfold setFeeToken
  rw [run_bind_chain]
  split
  · exact .refl
  · rename_i hpath
    rw [run_bind_read]
    split
    · exact .refl
    · rename_i hfull
      refine .tail (.single (.setFeeToken hpath ?_)) (.move (.announce _ _))
      by_cases hc : w.chain.registry.contains t.asset = true
      · exact .inl hc
      · exact .inr (Nat.lt_of_not_le fun hle => hfull ⟨hc, hle⟩)

theorem within_removeFeeToken (a : Asset) : (removeFeeToken a).Within s (Step s growing) := by
  intro w
  unfold removeFeeToken
  rw [run_bind_chain]
  split
  · exact .tail (.single (.removeFeeToken w.chain a)) (.move (.announce _ _))
  · exact .refl

theorem within_setTakerFee (rate : Rate) : (setTakerFee rate).Within s (Step s growing) := by
  intro w
  unfold setTakerFee
  split
  · rename_i hrate
    exact .tail (.single (.setTakerFee w.chain hrate)) (.move (.announce _ _))
  · exact .refl

end Governance

theorem Origin.within_requireRoot (o : Origin) : o.requireRoot.Within s (Step s growing) := by
  cases o with
  | root => exact within_pure _
  | signed who => exact within_fail _
  | none => exact within_fail _

theorem Origin.within_requireAccount (o : Origin) : o.requireAccount.Within s (Step s growing) := by
  cases o with
  | root => exact within_fail _
  | signed who => exact within_pure _
  | none => exact within_fail _

theorem FeeCall.within_perform (o : Origin) (c : FeeCall) :
    (c.perform o).Within s (Step s growing) := by
  refine within_bind o.within_requireRoot fun _ => ?_
  cases c with
  | setBase a => exact Governance.within_setBase a
  | setFeeToken t => exact Governance.within_setFeeToken t
  | removeFeeToken a => exact Governance.within_removeFeeToken a

theorem SwapCall.within_perform (o : Origin) (c : SwapCall) :
    (c.perform o).Within s (Step s growing) := by
  cases c with
  | swapIn route tokenIn minOut =>
    refine within_bind o.within_requireAccount fun sender => within_bind ?_ fun _ => within_pure _
    exact (Swap.moving_swapIn trivial trivial trivial (fun _ _ _ => trivial) _ _ _).within
  | swapOut route maxIn tokenOut =>
    refine within_bind o.within_requireAccount fun sender => within_bind ?_ fun _ => within_pure _
    exact (Swap.moving_swapOut trivial trivial trivial (fun _ _ _ => trivial) _ _ _).within
  | setTakerFee rate =>
    exact within_bind o.within_requireRoot fun _ => Governance.within_setTakerFee rate

theorem Call.within_dispatch (o : Origin) (c : Call) : (c.dispatch o).Within s (Step s growing) := by
  cases c with
  | fees c => exact within_atomically (c.within_perform o)
  | swaps c => exact within_atomically (c.within_perform o)

theorem Router.within_addPool (hg : growing) (p : Pool) : (addPool p).Within s (Step s growing) := by
  intro w
  unfold addPool
  rw [run_bind_chain, run_bind_lift]
  rcases h : w.chain.pools.add p with _ | ⟨id, ps⟩
  · exact .refl
  · exact .single (.addPool hg h)

namespace Operation

/-- Whether the operation creates a pool. -/
def grows : Operation → Bool
  | addPool _ => true
  | whole op => op.grows
  | _ => false

/-- Every operation is a sequence of steps, however it ends. -/
theorem within_perform (op : Operation) (hg : op.grows = true → growing) :
    op.perform.Within s (Step s growing) := by
  induction op with
  | call o c => exact c.within_dispatch o
  | idle budget => exact within_bind (Sweep.moving_idle trivial budget).within fun _ => within_pure _
  | charge fee beneficiary payer =>
    exact (Settlement.moving_charge trivial trivial fee (fun _ _ => trivial) payer).within
  | chargeFrom payer fee beneficiary =>
    exact (Settlement.moving_chargeFrom trivial trivial trivial fee fun _ _ => trivial).within
  | addPool p => exact within_bind (Router.within_addPool (hg rfl) p) fun _ => within_pure _
  | whole op ih => exact within_atomically (ih hg)

end Operation

namespace World

/-- What each operation keeps, a history keeps. -/
theorem replay_keeps {P : Chain → Prop} {ops : List Operation}
    (step : ∀ op ∈ ops, ∀ w : World, P w.chain → P (op.perform.run s w).2.chain) :
    ∀ w : World, P w.chain → P (replay s w ops).chain := by
  induction ops with
  | nil => exact fun _ h => h
  | cons op ops ih =>
    intro w h
    have h' := step op List.mem_cons_self w h
    have ih := ih fun op hop => step op (List.mem_cons_of_mem _ hop)
    unfold replay
    split
    · -- A fault ends the history in the world that it leaves.
      rename_i hr
      rwa [hr] at h'
    · rename_i hr
      rw [hr] at h'
      exact ih _ h'

theorem replay_keeps_of_steps {P : Chain → Prop} {ops : List Operation}
    (hg : ∀ op ∈ ops, op.grows = true → growing)
    (step : ∀ {c c'}, Step s growing c c' → P c → P c') (w : World) (h : P w.chain) :
    P (replay s w ops).chain :=
  replay_keeps (fun op hop v => Steps.keep step (op.within_perform (hg op hop) v)) w h

end World

namespace Genesis

variable {g : Genesis}

/-- Genesis succeeds, and some history leads from it to `w`. -/
def Reaches (g : Genesis) (s : Settings) (w : World) : Prop :=
  ∃ c ops, g.build s = .ok c ∧ World.replay s ⟨c, []⟩ ops = w

/-- The first ledger is made in four stages. No burn is counted yet and no event told. -/
theorem build_ok {c : Chain} (h : g.build s = .ok c) :
    ∃ l₁ l₂ l₃ ps base registry rate, endow g.minBalance g.balances = .ok l₁ ∧
      define l₁ g.tokens = .ok l₂ ∧ hold l₂ g.holdings = .ok l₃ ∧
      (rate = g.defaultTakerFee ∨ rate.parts < million) ∧
      c = ⟨l₃.addProvider s.feeAccount, ps, base, registry, ∅, none, rate, []⟩ := by
  obtain ⟨l₁, h₁, h⟩ := Answer.bind_ok.1 h
  obtain ⟨l₂, h₂, h⟩ := Answer.bind_ok.1 h
  obtain ⟨l₃, h₃, h⟩ := Answer.bind_ok.1 h
  obtain ⟨ps, -, h⟩ := Answer.bind_ok.1 h
  obtain ⟨c₁, hfees, h⟩ := Answer.bind_ok.1 h
  obtain ⟨base, registry, rfl⟩ : ∃ base registry, c₁ =
      ⟨l₃.addProvider s.feeAccount, ps, base, registry, ∅, none, g.defaultTakerFee, []⟩ := by
    unfold FeeGenesis.build at hfees
    dsimp only at hfees
    split at hfees
    · cases hfees
    · obtain ⟨r, -, hr⟩ := Answer.bind_ok.1 hfees
      cases hr
      exact ⟨_, _, rfl⟩
  unfold SwapGenesis.build at h
  split at h
  · cases h
    exact ⟨l₁, l₂, l₃, ps, base, registry, _, h₁, h₂, h₃, .inl rfl, rfl⟩
  · split at h
    · rename_i hrate
      cases h
      exact ⟨l₁, l₂, l₃, ps, base, registry, _, h₁, h₂, h₃, .inr hrate, rfl⟩
    · cases h

end Genesis

end SwapFees
