import SwapFees.Effect

namespace SwapFees

/-- Layers of state that may lie over each other. -/
def maxLayers : Nat := 255

/-- What a scope does, step by step, and the error it ends with, if any. -/
inductive ScopePlan (ε : Type)
  | finish (failure : Option DispatchError)
  | record (e : ε) (rest : ScopePlan ε)
  | setBurned (a : Asset) (n : Amount) (rest : ScopePlan ε)
  | nested (inner rest : ScopePlan ε)

/-- How a scope ended, the events it leaves, and how the scopes inside it ended. -/
inductive ScopeReport (ε : Type)
  | mk (failure : Option DispatchError) (events : List ε) (inner : List (ScopeReport ε))

namespace ScopeReport

variable {ε : Type}

def failure : ScopeReport ε → Option DispatchError
  | mk f _ _ => f

def succeeded (r : ScopeReport ε) : Bool := r.failure.isNone

/-- Adds an event recorded earlier. Nothing recorded outlives a failure. -/
def recording (e : ε) : ScopeReport ε → ScopeReport ε
  | mk none events inner => mk none (e :: events) inner
  | mk (some f) _ inner => mk (some f) [] inner

/-- Adds the report of a scope that ran earlier inside. -/
def containing (first : ScopeReport ε) : ScopeReport ε → ScopeReport ε
  | mk f events inner => mk f events (first :: inner)

end ScopeReport

namespace ScopePlan

open Effect

variable {ε : Type}

/-- Performs a plan under `layers` open layers. -/
def perform (layers : Nat) : ScopePlan ε → Effect (ScopeReport ε)
  | finish failure => return .mk failure [] []
  | record e rest => return (← perform layers rest).recording e
  | setBurned a n rest => do
    modifyChain fun c => { c with burned := c.burned.insert a n }
    perform layers rest
  | nested inner rest => do
    let report ←
      if layers < maxLayers then transact ScopeReport.succeeded (perform (layers + 1) inner)
      else return .mk (some .layerLimitReached) [] []
    return ScopeReport.containing report (← perform layers rest)

def run (p : ScopePlan ε) : Effect (ScopeReport ε) :=
  transact ScopeReport.succeeded (perform 1 p)

end ScopePlan

/-- The depth reached by `n` scopes, each around the next. -/
def nestScopes (n : Nat) : LedgerResult Nat :=
  if n ≤ maxLayers then .ok n else .error .layerLimitReached

end SwapFees
