import SwapFees.Router

/-- Whatever is answered has the property. -/
def Except.All {ε α : Type} (x : Except ε α) (P : α → Prop) : Prop := ∀ a, x = .ok a → P a

instance {ε α : Type} (x : Except ε α) (P : α → Prop) [DecidablePred P] : Decidable (x.All P) :=
  match x with
  | .ok a => decidable_of_iff (P a) ⟨fun h _ e => Except.ok.inj e ▸ h, fun h => h a rfl⟩
  | .error _ => isTrue nofun

namespace SwapFees

instance decidableEqExcept {ε α : Type} [DecidableEq ε] [DecidableEq α] :
    DecidableEq (Except ε α)
  | .ok x, .ok y => decidable_of_iff (x = y) ⟨congrArg _, Except.ok.inj⟩
  | .error d, .error e => decidable_of_iff (d = e) ⟨congrArg _, Except.error.inj⟩
  | .ok _, .error _ => isFalse nofun
  | .error _, .ok _ => isFalse nofun

/-- The world with another chain. -/
abbrev World.with (w : World) (c : Chain) : World := { w with chain := c }

theorem Answer.bind_ok {α β : Type} {x : Answer α} {f : α → Answer β} {y : β} :
    (x >>= f) = .ok y ↔ ∃ a, x = .ok a ∧ f a = .ok y := by
  cases x with
  | error e => simp [bind, Except.bind]
  | ok a => simp [bind, Except.bind]

namespace Effect

variable {α β : Type} {s : Settings} {w w' : World}

def All (a : Effect α) (s : Settings) (w : World) (P : α → World → Prop) : Prop :=
  ∀ x w', a.run s w = (.ok x, w') → P x w'

instance (a : Effect α) (P : α → World → Prop) [∀ x w, Decidable (P x w)] :
    Decidable (a.All s w P) :=
  match h : a.run s w with
  | (.ok x, w') => decidable_of_iff (P x w')
    ⟨fun hp y v e => by rw [h] at e; cases e; exact hp, fun hp => hp x w' h⟩
  | (.error _, _) => isTrue fun y v e => by rw [h] at e; cases e

attribute [simp] run_pure

@[simp] theorem run_read : (read : Effect Settings).run s w = (.ok s, w) := rfl

@[simp] theorem run_chain : chain.run s w = (.ok w.chain, w) := rfl

@[simp] theorem run_modifyChain (f : Chain → Chain) :
    (modifyChain f).run s w = (.ok (), w.with (f w.chain)) := rfl

@[simp] theorem run_report (e : LogEntry) :
    (report e).run s w = (.ok (), { w with log := w.log ++ [e] }) := rfl

@[simp] theorem run_deposit (e : Event) :
    (deposit e).run s w =
      (.ok (), w.with { w.chain with events := w.chain.events ++ [e] }) := rfl

@[simp] theorem run_fail (e : DispatchError) : (fail e : Effect α).run s w = (.error (.error e), w) :=
  rfl

@[simp] theorem run_fault (f : Fault) :
    (Effect.fault f : Effect α).run s w = (.error (.fault f), w) := rfl

@[simp] theorem run_lift (a : Answer α) : (lift a).run s w = (a, w) := by
  cases a <;> rfl

@[simp] theorem run_bind_read (f : Settings → Effect β) :
    ((read : Effect Settings) >>= f).run s w = (f s).run s w := rfl

@[simp] theorem run_bind_chain (f : Chain → Effect β) :
    (chain >>= f).run s w = (f w.chain).run s w := rfl

@[simp] theorem run_bind_modifyChain (f : Chain → Chain) (g : Unit → Effect β) :
    (modifyChain f >>= g).run s w = (g ()).run s (w.with (f w.chain)) := rfl

@[simp] theorem run_bind_report (e : LogEntry) (g : Unit → Effect β) :
    (report e >>= g).run s w = (g ()).run s { w with log := w.log ++ [e] } := rfl

@[simp] theorem run_bind_deposit (e : Event) (g : Unit → Effect β) :
    (deposit e >>= g).run s w =
      (g ()).run s (w.with { w.chain with events := w.chain.events ++ [e] }) := rfl

theorem run_bind_lift (a : Answer α) (f : α → Effect β) :
    (lift a >>= f).run s w =
      match a with
      | .ok x => (f x).run s w
      | .error e => (.error e, w) := by
  cases a <;> rfl

theorem run_onLedger (f : Ledger → LedgerResult Ledger) :
    (onLedger f).run s w =
      match f w.chain.ledger with
      | .ok l => (.ok (), w.with { w.chain with ledger := l })
      | .error e => (.error (.error e), w) := by
  rw [onLedger, run_bind, run_chain]
  dsimp only
  cases f w.chain.ledger <;> rfl

theorem run_attempt (a : Effect α) :
    (attempt a).run s w =
      match a.run s w with
      | (.ok x, w') => (.ok (.ok x), w')
      | (.error (.error e), w') => (.ok (.error e), w')
      | (.error (.fault f), w') => (.error (.fault f), w') := rfl

theorem run_transact (keep : α → Bool) (a : Effect α) :
    (transact keep a).run s w =
      match a.run s w with
      | (.ok x, w') => (.ok x, if keep x then w' else w'.with w.chain)
      | (.error e, w') => (.error e, w'.with w.chain) := rfl

theorem run_atomically (a : Effect α) :
    (atomically a).run s w =
      match a.run s w with
      | (.ok x, w') => (.ok x, w')
      | (.error e, w') => (.error e, w'.with w.chain) := rfl

/-- A sequence succeeds when its first part does and the rest does from there. -/
theorem bind_ok {a : Effect α} {f : α → Effect β} {y : β} :
    (a >>= f).run s w = (.ok y, w') ↔
      ∃ x v, a.run s w = (.ok x, v) ∧ (f x).run s v = (.ok y, w') := by
  rw [run_bind]
  rcases a.run s w with ⟨_ | x, v⟩ <;> simp [and_assoc]

theorem fst_ok_iff {a : Effect α} {x : α} : (a.run s w).1 = .ok x ↔ ∃ w', a.run s w = (.ok x, w') :=
  ⟨fun h => ⟨_, Prod.ext h rfl⟩, fun ⟨_, h⟩ => by rw [h]⟩

theorem lift_ok {a : Answer α} {x : α} : (lift a).run s w = (.ok x, w') ↔ a = .ok x ∧ w' = w := by
  rw [run_lift, Prod.mk.injEq, eq_comm (a := w)]

theorem onLedger_ok {f : Ledger → LedgerResult Ledger} :
    (onLedger f).run s w = (.ok (), w') ↔
      ∃ l, f w.chain.ledger = .ok l ∧ w' = w.with { w.chain with ledger := l } := by
  rw [run_onLedger]
  cases f w.chain.ledger <;> simp [eq_comm]

theorem attempt_ok {a : Effect α} {r : Except DispatchError α} :
    (attempt a).run s w = (.ok r, w') ↔
      (∃ x, r = .ok x ∧ a.run s w = (.ok x, w')) ∨
        ∃ e, r = .error e ∧ a.run s w = (.error (.error e), w') := by
  rw [run_attempt]
  rcases a.run s w with ⟨(_ | _) | _, v⟩ <;> simp [eq_comm (a := r), and_assoc, and_comm]

theorem atomically_ok {a : Effect α} {x : α} :
    (atomically a).run s w = (.ok x, w') ↔ a.run s w = (.ok x, w') := by
  rw [run_atomically]
  rcases a.run s w with ⟨_ | _, v⟩ <;> simp

theorem atomically_error {a : Effect α} {e : Failure} (h : (atomically a).run s w = (.error e, w')) :
    w'.chain = w.chain := by
  rw [run_atomically] at h
  rcases h' : a.run s w with ⟨_ | _, v⟩
  · rw [h'] at h
    obtain ⟨-, rfl⟩ := Prod.mk.inj h
    rfl
  · rw [h'] at h
    cases h

end Effect

end SwapFees
