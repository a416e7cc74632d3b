import SwapFees.Chain

namespace SwapFees

/-- A step that changes a world and may fail. What it wrote before it failed stays, unless it runs
under `transact` or `atomically`. -/
abbrev Effect := ReaderT Settings (ExceptT Failure (StateM World))

namespace Effect

variable {α β : Type}

def run (a : Effect α) (s : Settings) (w : World) : Except Failure α × World := a s w

def ofRun (f : Settings → World → Except Failure α × World) : Effect α := f

theorem run_pure (x : α) (s : Settings) (w : World) : (pure x : Effect α).run s w = (.ok x, w) :=
  rfl

theorem run_bind (a : Effect α) (f : α → Effect β) (s : Settings) (w : World) :
    (a >>= f).run s w =
      match a.run s w with
      | (.ok x, w') => (f x).run s w'
      | (.error e, w') => (.error e, w') := by
  show (ExceptT.bind (a s) fun x => f x s) w = _
  simp only [ExceptT.bind, ExceptT.mk, run, bind, StateT.bind, ExceptT.bindCont]
  rcases a s w with ⟨_ | _, _⟩ <;> rfl

def fail (e : DispatchError) : Effect α := throw (.error e)

def fault (f : Fault) : Effect α := throw (.fault f)

def chain : Effect Chain := return (← get).chain

def modifyChain (f : Chain → Chain) : Effect Unit := modify fun w => { w with chain := f w.chain }

def report (e : LogEntry) : Effect Unit := modify fun w => { w with log := w.log ++ [e] }

def deposit (e : Event) : Effect Unit :=
  modifyChain fun c => { c with events := c.events ++ [e] }

def lift : Answer α → Effect α
  | .ok x => pure x
  | .error e => throw e

/-- A ledger operation that takes effect as a whole or not at all. -/
def onLedger (f : Ledger → LedgerResult Ledger) : Effect Unit := do
  match f (← chain).ledger with
  | .ok l => modifyChain fun c => { c with ledger := l }
  | .error e => fail e

/-- Answers an error instead of failing with it. A fault still ends the run. -/
def attempt (a : Effect α) : Effect (Except DispatchError α) := ofRun fun s w =>
  match a.run s w with
  | (.ok x, w') => (.ok (.ok x), w')
  | (.error (.error e), w') => (.ok (.error e), w')
  | (.error (.fault f), w') => (.error (.fault f), w')

/-- Takes the chain back to where it was unless the answer is to be kept. -/
def transact (keep : α → Bool) (a : Effect α) : Effect α := ofRun fun s w =>
  match a.run s w with
  | (.ok x, w') => (.ok x, if keep x then w' else { w' with chain := w.chain })
  | (.error e, w') => (.error e, { w' with chain := w.chain })

/-- Takes the chain back if `a` fails. -/
def atomically (a : Effect α) : Effect α := ofRun fun s w =>
  match a.run s w with
  | (.ok x, w') => (.ok x, w')
  | (.error e, w') => (.error e, { w' with chain := w.chain })

end Effect

end SwapFees
