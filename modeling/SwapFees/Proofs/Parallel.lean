import SwapFees.Proofs.Settlement

namespace SwapFees

/-- The settings with conversion events wanted or not. -/
abbrev Settings.emitting (s : Settings) (emit : Bool) : Settings := { s with emitConversions := emit }

/-- Related chains differ in fee tokens and events only, and stay related when both are written alike
or are told the same, conversions apart. -/
structure Chain.Twins (R : Chain → Chain → Prop) : Prop where
  same {c d : Chain} : R c d → ∃ r es, d = { c with registry := r, events := es }
  write {c d : Chain} : R c d → ∀ l ps burned,
    R { c with ledger := l, pools := ps, burned } { d with ledger := l, pools := ps, burned }
  tell {c d : Chain} : R c d → ∀ e : Event, e.isConversion = false →
    R { c with events := c.events ++ [e] } { d with events := d.events ++ [e] }

namespace Effect

variable {α β : Type} {R : Chain → Chain → Prop} {s : Settings} {emit : Bool}

/-- Two runs, from `w` and from `v`, answered and logged the same and left related chains. -/
structure Agree (R : Chain → Chain → Prop) (w v : World) (p q : Except Failure α × World) : Prop where
  answer : q.1 = p.1
  chain : R p.2.chain q.2.chain
  log : ∃ told, p.2.log = w.log ++ told ∧ q.2.log = v.log ++ told

/-- From related chains `a` and `b` agree, whether or not conversion events are wanted of `b`. -/
def Parallel (R : Chain → Chain → Prop) (s : Settings) (emit : Bool) (a b : Effect α) : Prop :=
  ∀ ⦃w v : World⦄, R w.chain v.chain → Agree R w v (a.run s w) (b.run (s.emitting emit) v)

theorem Agree.of_quiet {w v w' v' : World} {x y : Except Failure α} (hx : y = x)
    (h : R w'.chain v'.chain) (hw : w'.log = w.log) (hv : v'.log = v.log) :
    Agree R w v (x, w') (y, v') :=
  ⟨hx, h, [], by rw [hw, List.append_nil], by rw [hv, List.append_nil]⟩

theorem parallel_pure (x : α) : Parallel R s emit (pure x) (pure x) :=
  fun _ _ h => .of_quiet rfl h rfl rfl

theorem parallel_fail (e : DispatchError) : Parallel R s emit (fail e : Effect α) (fail e) :=
  fun _ _ h => .of_quiet rfl h rfl rfl

theorem parallel_lift (a : Answer α) : Parallel R s emit (lift a) (lift a) := by
  intro w v h
  rw [run_lift, run_lift]
  exact .of_quiet rfl h rfl rfl

theorem parallel_report (e : LogEntry) : Parallel R s emit (report e) (report e) :=
  fun _ _ h => ⟨rfl, h, [e], rfl, rfl⟩

theorem parallel_modifyChain {f g : Chain → Chain} (h : ∀ {c d}, R c d → R (f c) (g d)) :
    Parallel R s emit (modifyChain f) (modifyChain g) :=
  fun _ _ hR => .of_quiet rfl (h hR) rfl rfl

theorem parallel_bind {a b : Effect α} {f g : α → Effect β} (h : Parallel R s emit a b)
    (hf : ∀ x, Parallel R s emit (f x) (g x)) : Parallel R s emit (a >>= f) (b >>= g) := by
  intro w v hR
  have hab := h hR
  rw [run_bind, run_bind]
  generalize a.run s w = p, b.run (s.emitting emit) v = q at hab ⊢
  obtain ⟨x, w'⟩ := p
  obtain ⟨y, v'⟩ := q
  obtain ⟨hx, hc, told, hw, hv⟩ := hab
  obtain rfl : y = x := hx
  cases y with
  | error e => exact ⟨rfl, hc, told, hw, hv⟩
  | ok x =>
    obtain ⟨hy, hc', told', hw', hv'⟩ := hf x hc
    refine ⟨hy, hc', told ++ told', ?_, ?_⟩
    · rw [← List.append_assoc, ← hw]
      exact hw'
    · rw [← List.append_assoc, ← hv]
      exact hv'

theorem parallel_bind_read {f : Settings → Effect β} (hf : f (s.emitting emit) = f s)
    (h : Parallel R s emit (f s) (f s)) :
    Parallel R s emit ((read : Effect Settings) >>= f) ((read : Effect Settings) >>= f) := by
  intro w v hR
  rw [run_bind_read, run_bind_read, hf]
  exact h hR

theorem parallel_bind_chain (hR : Chain.Twins R) {f : Chain → Effect β}
    (hf : ∀ c r es, f { c with registry := r, events := es } = f c)
    (h : ∀ c, Parallel R s emit (f c) (f c)) : Parallel R s emit (chain >>= f) (chain >>= f) := by
  intro w v hwv
  obtain ⟨r, es, e⟩ := hR.same hwv
  have hfv : f v.chain = f w.chain := by rw [e, hf]
  rw [run_bind_chain, run_bind_chain, hfv]
  exact h w.chain hwv

theorem parallel_deposit (hR : Chain.Twins R) {e : Event} (he : e.isConversion = false) :
    Parallel R s emit (deposit e) (deposit e) :=
  parallel_modifyChain fun h => hR.tell h e he

theorem parallel_write (hR : Chain.Twins R) {f : Chain → Chain}
    (hf : ∀ c r es, ∃ l ps burned, f c = { c with ledger := l, pools := ps, burned } ∧
      f { c with registry := r, events := es } =
        { c with ledger := l, pools := ps, burned, registry := r, events := es }) :
    Parallel R s emit (modifyChain f) (modifyChain f) := by
  refine parallel_modifyChain fun {c d} h => ?_
  obtain ⟨r, es, rfl⟩ := hR.same h
  obtain ⟨l, ps, burned, hc, hd⟩ := hf c r es
  rw [hc, hd]
  exact hR.write h l ps burned

theorem parallel_onLedger (hR : Chain.Twins R) (f : Ledger → LedgerResult Ledger) :
    Parallel R s emit (onLedger f) (onLedger f) := by
  refine parallel_bind_chain hR (fun _ _ _ => rfl) fun c => ?_
  split
  · exact parallel_write hR fun _ _ _ => ⟨_, _, _, rfl, rfl⟩
  · exact parallel_fail _

theorem parallel_attempt {a b : Effect α} (h : Parallel R s emit a b) :
    Parallel R s emit (attempt a) (attempt b) := by
  intro w v hR
  have hab := h hR
  rw [run_attempt, run_attempt]
  generalize a.run s w = p, b.run (s.emitting emit) v = q at hab ⊢
  obtain ⟨x, w'⟩ := p
  obtain ⟨y, v'⟩ := q
  obtain rfl : y = x := hab.answer
  rcases y with (e | f) | x <;> exact ⟨rfl, hab.chain, hab.log⟩

theorem parallel_transact (keep : α → Bool) {a b : Effect α} (h : Parallel R s emit a b) :
    Parallel R s emit (transact keep a) (transact keep b) := by
  intro w v hR
  have hab := h hR
  rw [run_transact, run_transact]
  generalize a.run s w = p, b.run (s.emitting emit) v = q at hab ⊢
  obtain ⟨x, w'⟩ := p
  obtain ⟨y, v'⟩ := q
  obtain rfl : y = x := hab.answer
  cases y with
  | error e => exact ⟨rfl, hR, hab.log⟩
  | ok x =>
    dsimp only
    split
    · exact ⟨rfl, hab.chain, hab.log⟩
    · exact ⟨rfl, hR, hab.log⟩

theorem parallel_atomically {a b : Effect α} (h : Parallel R s emit a b) :
    Parallel R s emit (atomically a) (atomically b) := by
  intro w v hR
  have hab := h hR
  rw [run_atomically, run_atomically]
  generalize a.run s w = p, b.run (s.emitting emit) v = q at hab ⊢
  obtain ⟨x, w'⟩ := p
  obtain ⟨y, v'⟩ := q
  obtain rfl : y = x := hab.answer
  cases y with
  | error e => exact ⟨rfl, hR, hab.log⟩
  | ok x => exact ⟨rfl, hab.chain, hab.log⟩

end Effect

open Effect

section Twins

variable {R : Chain → Chain → Prop} (hR : Chain.Twins R) {s : Settings} {emit : Bool}
include hR

namespace Bank

theorem parallel_transfer (source dest : AccountId) (c : Coin) (p : Preservation) :
    Parallel R s emit (transfer source dest c p) (transfer source dest c p) := by
  unfold transfer
  split
  · exact parallel_pure _
  · exact parallel_onLedger hR _

theorem parallel_burn (who : AccountId) (c : Coin) :
    Parallel R s emit (burn who c) (burn who c) := by
  unfold burn
  split
  · exact parallel_pure _
  · refine parallel_bind_chain hR (fun _ _ _ => rfl) fun d => ?_
    split
    · exact parallel_fail _
    · exact parallel_write hR fun _ _ _ => ⟨_, _, _, rfl, rfl⟩

end Bank

namespace Settlement

theorem parallel_dispose (how : Disposition) (source : AccountId) (fee : Coin) :
    Parallel R s emit (dispose how source fee) (dispose how source fee) := by
  cases how with
  | burned => exact parallel_bind (Bank.parallel_burn hR _ _) fun _ => parallel_pure _
  | communityPool =>
    refine parallel_bind_read rfl ?_
    split
    · exact parallel_fail _
    · exact parallel_bind (Bank.parallel_transfer hR _ _ _ _) fun _ => parallel_pure _

theorem parallel_payShare (beneficiary : Option AccountId) (c : Coin) :
    Parallel R s emit (payShare beneficiary c) (payShare beneficiary c) := by
  cases beneficiary with
  | none => exact parallel_pure _
  | some who =>
    unfold payShare
    dsimp only
    split
    · exact parallel_pure _
    · refine parallel_bind_chain hR (fun _ _ _ => rfl) fun c => ?_
      split
      · exact parallel_bind_read rfl <|
          parallel_bind (Bank.parallel_transfer hR _ _ _ _) fun _ => parallel_pure _
      · exact parallel_bind (parallel_report _) fun _ => parallel_pure _

end Settlement

end Twins

end SwapFees
