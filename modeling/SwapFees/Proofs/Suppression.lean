import Mathlib.Data.List.Forall2
import SwapFees.Proofs.Parallel

namespace SwapFees

open Effect

section Twins

variable {R : Chain → Chain → Prop} (hR : Chain.Twins R) {s : Settings} {emit : Bool}
include hR

namespace Router

theorem parallel_debit (who : AccountId) (c : Coin) :
    Parallel R s emit (debit who c) (debit who c) :=
  parallel_onLedger hR _

theorem parallel_failing (how : RouterFailure) (sender : AccountId) (c : Coin) :
    Parallel R s emit (failing how sender c) (failing how sender c) := by
  cases how with
  | reject => exact parallel_fail _
  | failAfterDebit => exact parallel_bind (parallel_debit hR _ _) fun _ => parallel_fail _
  | zeroOutput => exact parallel_bind (parallel_debit hR _ _) fun _ => parallel_pure _

theorem parallel_exchange (sender : AccountId) (tokenIn tokenOut : Coin) (ps : Pools) :
    Parallel R s emit (exchange sender tokenIn tokenOut ps)
      (exchange sender tokenIn tokenOut ps) := by
  refine parallel_bind (parallel_debit hR _ _) fun _ => parallel_bind ?_ fun _ => ?_
  · unfold credit
    split
    · exact parallel_pure _
    · exact parallel_onLedger hR _
  · exact parallel_write hR fun _ _ _ => ⟨_, _, _, rfl, rfl⟩

theorem parallel_swapIn (sender : AccountId) (route : List HopIn) (tokenIn : Coin)
    (minOut : Amount) :
    Parallel R s emit (swapIn sender route tokenIn minOut) (swapIn sender route tokenIn minOut) := by
  refine parallel_bind_read rfl ?_
  split
  · exact parallel_failing hR _ _ _
  · split
    · exact parallel_fail _
    · refine parallel_bind_chain hR (fun _ _ _ => rfl) fun c => ?_
      refine parallel_bind (parallel_lift _) fun x => ?_
      dsimp only
      split
      · exact parallel_fail _
      · exact parallel_bind (parallel_exchange hR _ _ _ _) fun _ => parallel_pure _

theorem parallel_swapOut (sender : AccountId) (route : List HopOut) (maxIn : Amount)
    (tokenOut : Coin) :
    Parallel R s emit (swapOut sender route maxIn tokenOut)
      (swapOut sender route maxIn tokenOut) := by
  cases route with
  | nil => exact parallel_fail _
  | cons first rest =>
    refine parallel_bind_read rfl ?_
    split
    · exact parallel_failing hR _ _ _
    · refine parallel_bind_chain hR (fun _ _ _ => rfl) fun c => ?_
      refine parallel_bind (parallel_lift _) fun x => ?_
      dsimp only
      split
      · exact parallel_fail _
      · exact parallel_bind (parallel_exchange hR _ _ _ _) fun _ => parallel_pure _

theorem parallel_estimate (route : List HopOut) (tokenOut : Coin) :
    Parallel R s emit (estimate route tokenOut) (estimate route tokenOut) :=
  parallel_bind_chain hR (fun _ _ _ => rfl) fun _ =>
    parallel_bind (parallel_lift _) fun _ => parallel_pure _

theorem parallel_addPool (p : Pool) : Parallel R s emit (addPool p) (addPool p) := by
  refine parallel_bind_chain hR (fun _ _ _ => rfl) fun c => ?_
  refine parallel_bind (parallel_lift _) fun x => parallel_bind ?_ fun _ => parallel_pure _
  exact parallel_write hR fun _ _ _ => ⟨_, _, _, rfl, rfl⟩

end Router

theorem Conversion.parallel_swapThrough (base : Asset) (t : FeeToken) (fee : Coin) :
    Parallel R s emit (swapThrough base t fee) (swapThrough base t fee) := by
  refine parallel_bind_read rfl (parallel_bind (Router.parallel_swapIn hR _ _ _ _) fun n => ?_)
  split
  · exact parallel_bind (parallel_report _) fun _ => parallel_fail _
  · exact parallel_pure _

end Twins

/-- Since the events `past`, `d` left out the conversions that `c` announced; else the two are the
same. -/
def Chain.Muted (past : List Event) (c d : Chain) : Prop :=
  ∃ told, c.events = past ++ told ∧
    d = { c with events := past ++ told.filter fun e => !e.isConversion }

theorem Chain.twins_muted (past : List Event) : Chain.Twins (Chain.Muted past) where
  same := by
    rintro c d ⟨told, -, rfl⟩
    exact ⟨_, _, rfl⟩
  write := by
    rintro c d ⟨told, h, rfl⟩ l ps burned
    exact ⟨told, h, rfl⟩
  tell := by
    rintro c d ⟨told, h, rfl⟩ e he
    refine ⟨told ++ [e], by simp [h], ?_⟩
    simp [he]

/-- Without conversion events the effect does the same, and announces the rest. -/
abbrev Effect.Mutes {α : Type} (past : List Event) (s : Settings) (a : Effect α) : Prop :=
  Parallel (Chain.Muted past) s false a a

variable {past : List Event} {s : Settings}

theorem Chain.muted_write {c d : Chain} (h : c.Muted past d) {f : Chain → Chain}
    (hf : ∀ c es, (f { c with events := es }) = { f c with events := es })
    (he : (f c).events = c.events) : (f c).Muted past (f d) := by
  obtain ⟨told, h, rfl⟩ := h
  exact ⟨told, he.trans h, hf c _⟩

namespace Effect

variable {α : Type}

theorem mutes_bind_chain {f : Chain → Effect α}
    (hf : ∀ c es, f { c with events := es } = f c) (h : ∀ c, Mutes past s (f c)) :
    Mutes past s (chain >>= f) := by
  rintro w v ⟨told, hw, hv⟩
  have hfv : f v.chain = f w.chain := by rw [hv, hf]
  rw [run_bind_chain, run_bind_chain, hfv]
  exact h w.chain ⟨told, hw, hv⟩

theorem mutes_modifyChain {f : Chain → Chain}
    (hf : ∀ c es, (f { c with events := es }) = { f c with events := es })
    (he : ∀ c, (f c).events = c.events) : Mutes past s (modifyChain f) :=
  parallel_modifyChain fun h => Chain.muted_write h hf (he _)

theorem mutes_deposit {e : Event} (he : e.isConversion = false) : Mutes past s (deposit e) :=
  parallel_deposit (Chain.twins_muted past) he

end Effect

namespace Conversion

/-- At most one of the two runs deposits the event of a conversion. -/
theorem mutes_announce {e : Event} (he : e.isConversion = true) : Mutes past s (announce e) := by
  rintro w v ⟨told, hw, hv⟩
  have hwrun : (announce e).run s w =
      (.ok (), if s.emitConversions then w.with { w.chain with events := w.chain.events ++ [e] }
        else w) := by
    rw [announce, run_bind_read]
    split <;> rfl
  have hvrun : (announce e).run (s.emitting false) v = (.ok (), v) := rfl
  rw [hwrun, hvrun]
  split
  · refine .of_quiet rfl ⟨told ++ [e], ?_, ?_⟩ rfl rfl
    · rw [← List.append_assoc, ← hw]
    · rw [hv, List.filter_append, List.filter_singleton, he]
      simp
  · exact .of_quiet rfl ⟨told, hw, hv⟩ rfl rfl

theorem mutes_convert (base : Asset) (fee : Coin) : Mutes past s (convert base fee) := by
  unfold convert
  split
  · exact parallel_pure _
  · refine mutes_bind_chain (fun _ _ => rfl) fun c => ?_
    split
    · exact parallel_pure _
    · refine parallel_bind (parallel_transact _ (parallel_attempt ?_)) fun r => ?_
      · exact parallel_swapThrough (Chain.twins_muted past) _ _ _
      · cases r with
        | ok out => exact parallel_bind (mutes_announce rfl) fun _ => parallel_pure _
        | error e => exact parallel_bind (parallel_report _) fun _ => parallel_pure _

end Conversion

namespace Settlement

theorem mutes_settle (fee : Coin) (beneficiary payer : Option AccountId) :
    Mutes past s (settle fee beneficiary payer) := by
  refine parallel_bind_read rfl (mutes_bind_chain (fun _ _ => rfl) fun c => ?_)
  refine parallel_bind (Conversion.mutes_convert _ _) fun r => ?_
  cases r with
  | unswappable =>
    refine parallel_bind (parallel_dispose (Chain.twins_muted past) _ _ _) fun how => ?_
    exact parallel_bind (parallel_report _) fun _ => mutes_deposit rfl
  | converted coin =>
    refine parallel_bind (parallel_payShare (Chain.twins_muted past) _ _) fun revenue => ?_
    exact parallel_bind (Bank.parallel_burn (Chain.twins_muted past) _ _) fun _ => mutes_deposit rfl

theorem mutes_charge (fee : Coin) (beneficiary payer : Option AccountId) :
    Mutes past s (charge fee beneficiary payer) := by
  unfold charge
  split
  · exact parallel_pure _
  · exact mutes_settle _ _ _

theorem mutes_chargeFrom (payer : AccountId) (fee : Coin) (beneficiary : Option AccountId) :
    Mutes past s (chargeFrom payer fee beneficiary) := by
  unfold chargeFrom
  split
  · exact parallel_pure _
  · refine parallel_bind_read rfl ?_
    exact parallel_bind (Bank.parallel_transfer (Chain.twins_muted past) _ _ _ _) fun _ =>
      mutes_settle _ _ _

end Settlement

namespace Swap

theorem mutes_beneficiary (assetIn assetOut : Asset) :
    Mutes past s (beneficiary assetIn assetOut) := by
  refine parallel_bind_read rfl ?_
  split
  · split
    · exact parallel_pure _
    · exact parallel_bind (parallel_report _) fun _ => parallel_pure _
  · exact parallel_pure _

theorem mutes_acceptedFee (sender : AccountId) (fee : Coin) (firstHop : HopIn) :
    Mutes past s (acceptedFee sender fee firstHop) := by
  refine mutes_bind_chain (fun _ _ => rfl) fun c => ?_
  split
  · exact parallel_pure _
  · refine parallel_bind (parallel_report _) fun _ => ?_
    exact parallel_bind (Router.parallel_swapIn (Chain.twins_muted past) _ _ _ _) fun _ =>
      parallel_pure _

theorem mutes_chargeTakerFee (sender : AccountId) (fee : Coin) (firstHop : HopIn)
    (beneficiary : Option AccountId) :
    Mutes past s (chargeTakerFee sender fee firstHop beneficiary) := by
  unfold chargeTakerFee
  split
  · exact parallel_pure _
  · exact parallel_bind (mutes_acceptedFee _ _ _) fun _ => Settlement.mutes_chargeFrom _ _ _

theorem mutes_depositSwap (sender : AccountId) (pool : PoolId) (tokensIn tokensOut : Coin)
    (rate : Rate) : Mutes past s (depositSwap sender pool tokensIn tokensOut rate) :=
  mutes_bind_chain (fun _ _ => rfl) fun _ => mutes_deposit rfl

theorem mutes_swapIn (sender : AccountId) (route : List HopIn) (tokenIn : Coin) (minOut : Amount) :
    Mutes past s (swapIn sender route tokenIn minOut) := by
  unfold swapIn
  split
  · refine mutes_bind_chain (fun _ _ => rfl) fun c => ?_
    refine parallel_bind (mutes_beneficiary _ _) fun r => ?_
    refine parallel_bind (mutes_chargeTakerFee _ _ _ _) fun _ => ?_
    refine parallel_bind (Router.parallel_swapIn (Chain.twins_muted past) _ _ _ _) fun n => ?_
    exact parallel_bind (mutes_depositSwap _ _ _ _ _) fun _ => parallel_pure _
  · exact parallel_fail _

theorem mutes_swapOut (sender : AccountId) (route : List HopOut) (maxIn : Amount)
    (tokenOut : Coin) : Mutes past s (swapOut sender route maxIn tokenOut) := by
  unfold swapOut
  split
  · refine mutes_bind_chain (fun _ _ => rfl) fun c => ?_
    refine parallel_bind (Router.parallel_estimate (Chain.twins_muted past) _ _) fun n => ?_
    refine parallel_bind (parallel_lift _) fun x => ?_
    split
    · exact parallel_fail _
    · refine parallel_bind (mutes_beneficiary _ _) fun r => ?_
      refine parallel_bind (mutes_chargeTakerFee _ _ _ _) fun _ => ?_
      refine parallel_bind (Router.parallel_swapOut (Chain.twins_muted past) _ _ _ _) fun n => ?_
      exact parallel_bind (mutes_depositSwap _ _ _ _ _) fun _ => parallel_pure _
  · exact parallel_fail _

end Swap

namespace Governance

theorem mutes_setBase (base : Asset) : Mutes past s (setBase base) := by
  refine mutes_bind_chain (fun _ _ => rfl) fun c => ?_
  exact parallel_bind (mutes_modifyChain (fun _ _ => rfl) fun _ => rfl) fun _ => mutes_deposit rfl

theorem mutes_setFeeToken (t : FeeToken) : Mutes past s (setFeeToken t) := by
  refine mutes_bind_chain (fun _ _ => rfl) fun c => ?_
  split
  · exact parallel_fail _
  · refine parallel_bind_read rfl ?_
    split
    · exact parallel_fail _
    · exact parallel_bind (mutes_modifyChain (fun _ _ => rfl) fun _ => rfl) fun _ =>
        mutes_deposit rfl

theorem mutes_removeFeeToken (a : Asset) : Mutes past s (removeFeeToken a) := by
  refine mutes_bind_chain (fun _ _ => rfl) fun c => ?_
  split
  · exact parallel_bind (mutes_modifyChain (fun _ _ => rfl) fun _ => rfl) fun _ =>
      mutes_deposit rfl
  · exact parallel_fail _

theorem mutes_setTakerFee (rate : Rate) : Mutes past s (setTakerFee rate) := by
  unfold setTakerFee
  split
  · refine mutes_bind_chain (fun _ _ => rfl) fun c => ?_
    exact parallel_bind (mutes_modifyChain (fun _ _ => rfl) fun _ => rfl) fun _ =>
      mutes_deposit rfl
  · exact parallel_fail _

end Governance

theorem Origin.mutes_requireRoot (o : Origin) : Mutes past s o.requireRoot := by
  cases o with
  | root => exact parallel_pure _
  | signed who => exact parallel_fail _
  | none => exact parallel_fail _

theorem Origin.mutes_requireAccount (o : Origin) : Mutes past s o.requireAccount := by
  cases o with
  | root => exact parallel_fail _
  | signed who => exact parallel_pure _
  | none => exact parallel_fail _

theorem FeeCall.mutes_perform (o : Origin) (c : FeeCall) : Mutes past s (c.perform o) := by
  refine parallel_bind o.mutes_requireRoot fun _ => ?_
  cases c with
  | setBase a => exact Governance.mutes_setBase a
  | setFeeToken t => exact Governance.mutes_setFeeToken t
  | removeFeeToken a => exact Governance.mutes_removeFeeToken a

theorem SwapCall.mutes_perform (o : Origin) (c : SwapCall) : Mutes past s (c.perform o) := by
  cases c with
  | swapIn route tokenIn minOut =>
    refine parallel_bind o.mutes_requireAccount fun sender => ?_
    exact parallel_bind (Swap.mutes_swapIn _ _ _ _) fun _ => parallel_pure _
  | swapOut route maxIn tokenOut =>
    refine parallel_bind o.mutes_requireAccount fun sender => ?_
    exact parallel_bind (Swap.mutes_swapOut _ _ _ _) fun _ => parallel_pure _
  | setTakerFee rate =>
    exact parallel_bind o.mutes_requireRoot fun _ => Governance.mutes_setTakerFee rate

theorem Call.mutes_dispatch (o : Origin) (c : Call) : Mutes past s (c.dispatch o) := by
  cases c with
  | fees c => exact parallel_atomically (c.mutes_perform o)
  | swaps c => exact parallel_atomically (c.mutes_perform o)

namespace Sweep

theorem mutes_visit (base a : Asset) : Mutes past s (visit base a) := by
  refine mutes_bind_chain (fun _ _ => rfl) fun c => parallel_bind_read rfl ?_
  dsimp only
  split
  · exact parallel_pure _
  · exact parallel_bind (Conversion.mutes_convert _ _) fun _ => parallel_pure _

theorem mutes_visitAll (base : Asset) (as : List Asset) : Mutes past s (visitAll base as) := by
  induction as with
  | nil => exact parallel_pure _
  | cons a as ih => exact parallel_bind (mutes_visit base a) fun _ => ih

theorem mutes_burnResidue (base : Asset) : Mutes past s (burnResidue base) := by
  refine parallel_bind_read rfl (mutes_bind_chain (fun _ _ => rfl) fun c => ?_)
  dsimp only
  split
  · exact parallel_pure _
  · refine parallel_bind (parallel_attempt (Bank.parallel_burn (Chain.twins_muted past) _ _))
      fun r => ?_
    cases r with
    | ok _ => exact mutes_deposit rfl
    | error _ => exact parallel_report _

theorem mutes_idle (budget : Weight) : Mutes past s (idle budget) := by
  refine mutes_bind_chain (fun _ _ => rfl) fun c => parallel_bind_read rfl ?_
  refine parallel_bind (mutes_visitAll _ _) fun _ => ?_
  refine parallel_bind (mutes_modifyChain (fun _ _ => rfl) fun _ => rfl) fun _ => ?_
  dsimp only
  split
  · exact parallel_bind (mutes_burnResidue _) fun _ => parallel_pure _
  · exact parallel_pure _

end Sweep

namespace Operation

inductive Reply
  | done
  | used (weight : Weight)
  | pool (id : PoolId)
  deriving DecidableEq

/-- The operation with its answer. -/
def reply : Operation → Effect Reply
  | call o c => do
    c.dispatch o
    return .done
  | idle budget => do
    let used ← Sweep.idle budget
    return .used used
  | charge fee beneficiary payer => do
    Settlement.charge fee beneficiary payer
    return .done
  | chargeFrom payer fee beneficiary => do
    Settlement.chargeFrom payer fee beneficiary
    return .done
  | addPool p => do
    let id ← Router.addPool p
    return .pool id
  | whole op => Effect.atomically op.reply

theorem run_perform (op : Operation) (w : World) :
    op.perform.run s w = ((op.reply.run s w).1.map fun _ => (), (op.reply.run s w).2) := by
  have forget {α : Type} (a : Effect α) (f : α → Reply) :
      (a >>= fun _ => (pure () : Effect Unit)).run s w =
        (((a >>= fun x => (pure (f x) : Effect Reply)).run s w).1.map fun _ => (),
          ((a >>= fun x => (pure (f x) : Effect Reply)).run s w).2) := by
    rw [run_bind, run_bind]
    rcases a.run s w with ⟨_ | x, w'⟩ <;> rfl
  have done (a : Effect Unit) : a.run s w = (a >>= fun _ => (pure () : Effect Unit)).run s w := by
    rw [run_bind]
    rcases a.run s w with ⟨_ | ⟨⟨⟩⟩, w'⟩ <;> rfl
  induction op with
  | call o c => exact (done _).trans (forget _ fun _ => .done)
  | idle budget => exact forget _ .used
  | charge fee beneficiary payer => exact (done _).trans (forget _ fun _ => .done)
  | chargeFrom payer fee beneficiary => exact (done _).trans (forget _ fun _ => .done)
  | addPool p => exact forget _ .pool
  | whole op ih =>
    simp only [perform, reply, run_atomically, ih]
    rcases op.reply.run s w with ⟨_ | x, w'⟩ <;> rfl

theorem mutes_reply (op : Operation) : Mutes past s op.reply := by
  induction op with
  | call o c => exact parallel_bind (c.mutes_dispatch o) fun _ => parallel_pure _
  | idle budget => exact parallel_bind (Sweep.mutes_idle _) fun _ => parallel_pure _
  | charge fee beneficiary payer =>
    exact parallel_bind (Settlement.mutes_charge _ _ _) fun _ => parallel_pure _
  | chargeFrom payer fee beneficiary =>
    exact parallel_bind (Settlement.mutes_chargeFrom _ _ _) fun _ => parallel_pure _
  | addPool p =>
    exact parallel_bind (Router.parallel_addPool (Chain.twins_muted past) _) fun _ =>
      parallel_pure _
  | whole op ih => exact parallel_atomically ih

end Operation

namespace World

/-- What each operation of a history answers, and the world it leaves. A fault ends the history. -/
def trace (s : Settings) (w : World) :
    List Operation → List (Except Failure Operation.Reply × World)
  | [] => []
  | op :: ops =>
    match op.reply.run s w with
    | (.error (.fault f), w') => [(.error (.fault f), w')]
    | (r, w') => (r, w') :: trace s w' ops

theorem replay_eq_last (s : Settings) (w : World) (ops : List Operation) :
    replay s w ops = ((trace s w ops).getLast?.map Prod.snd).getD w := by
  induction ops generalizing w with
  | nil => rfl
  | cons op ops ih =>
    have next (p : Except Failure Operation.Reply × World) (w' : World) :
        (((p :: trace s w' ops).getLast?).map Prod.snd).getD w =
          ((trace s w' ops).getLast?.map Prod.snd).getD p.2 := by
      rw [List.getLast?_cons]
      cases (trace s w' ops).getLast? <;> rfl
    simp only [replay, trace, op.run_perform]
    rcases op.reply.run s w with ⟨(e | f) | x, w'⟩
    · exact (ih w').trans (next (.error (.error e), w') w').symm
    · rfl
    · exact (ih w').trans (next (.ok x, w') w').symm

/-- Suppressing conversion events changes nothing else, whatever the history: each operation answers
and logs the same and leaves the same chain, but that the events since the beginning are those of the
other history without the conversions. -/
theorem trace_muted (s : Settings) (w : World) (ops : List Operation) :
    List.Forall₂ (fun p q => q.1 = p.1 ∧ q.2.log = p.2.log ∧
        p.2.chain.Muted w.chain.events q.2.chain)
      (trace (s.emitting true) w ops) (trace (s.emitting false) w ops) := by
  -- From worlds that already differ the histories go on alike.
  suffices h : ∀ past w v, w.chain.Muted past v.chain → v.log = w.log →
      List.Forall₂ (fun p q => q.1 = p.1 ∧ q.2.log = p.2.log ∧ p.2.chain.Muted past q.2.chain)
        (trace (s.emitting true) w ops) (trace (s.emitting false) v ops) from
    h w.chain.events w w ⟨[], (List.append_nil _).symm, by rw [List.filter_nil, List.append_nil]⟩ rfl
  intro past
  induction ops with
  | nil => exact fun _ _ _ _ => .nil
  | cons op ops ih =>
    intro w v hwv hlog
    obtain ⟨hx, hc, told, hw, hv⟩ := op.mutes_reply (s := s.emitting true) hwv
    have hlog' : (op.reply.run (s.emitting false) v).2.log =
        (op.reply.run (s.emitting true) w).2.log := by rw [hw, ← hlog]; exact hv
    simp only [trace]
    change (op.reply.run (s.emitting false) v).1 = _ at hx
    change Chain.Muted past _ (op.reply.run (s.emitting false) v).2.chain at hc
    generalize op.reply.run (s.emitting true) w = p, op.reply.run (s.emitting false) v = q at *
    obtain ⟨x, w'⟩ := p
    obtain ⟨y, v'⟩ := q
    obtain rfl : y = x := hx
    have head := And.intro (Eq.refl y) (And.intro hlog' hc)
    rcases y with (e | f) | x
    · exact .cons head (ih _ _ hc hlog')
    · exact .cons head .nil
    · exact .cons head (ih _ _ hc hlog')

end World

end SwapFees
