import SwapFees.Settlement
import SwapFees.Weight

namespace SwapFees

/-- Which fee tokens one sweep visits, the weight this takes, and whether it ran out of them. -/
structure Visits where
  visited : List Asset
  used : Weight
  exhausted : Bool
  deriving DecidableEq

namespace Visits

/-- Each visit takes `unit`; there are at most `max` of them and their weight fits `budget`. Only a
further visit that finds no token left makes the tokens exhausted. -/
def plan (unit budget : Weight) (max : Nat) (used : Weight) : List Asset → Visits
  | [] => ⟨[], used, 0 < max ∧ (used + unit).fits budget⟩
  | a :: as =>
    if 0 < max ∧ (used + unit).fits budget then
      let v := plan unit budget (max - 1) (used + unit) as
      { v with visited := a :: v.visited }
    else ⟨[], used, false⟩

/-- Where the next sweep starts: from the beginning after the last token, else behind the last one
visited. -/
def cursor (v : Visits) (old : Option Asset) : Option Asset :=
  if v.exhausted then none else v.visited.getLast?.or old

end Visits

namespace Sweep

open Effect

/-- Converts what the fee account holds of `a`. -/
def visit (base a : Asset) : Effect Unit := do
  let n := (← chain).balance (← read).feeAccount a
  if n = 0 then return
  else
    let _ ← Conversion.convert base ⟨a, n⟩
    return

def visitAll (base : Asset) : List Asset → Effect Unit
  | [] => pure ()
  | a :: as => do
    visit base a
    visitAll base as

/-- Burns what the fee account holds of the base asset. -/
def burnResidue (base : Asset) : Effect Unit := do
  let account := (← read).feeAccount
  let residue : Coin := ⟨base, (← chain).balance account base⟩
  if residue.isZero then return
  else match ← attempt (Bank.burn account residue) with
    | .ok () => deposit (.residueBurned residue)
    | .error e => report (.burnFailed residue e)

/-- The visits that a sweep with weight `budget` makes. -/
def visits (s : Settings) (c : Chain) (budget : Weight) : Visits :=
  Visits.plan Schedule.flat.visit budget s.maxVisits.toNat Weight.zero
    ((c.registry.after c.cursor).map FeeToken.asset)

/-- Sweeps within the weight `budget`; answers the weight taken. -/
def idle (budget : Weight) : Effect Weight := do
  let c ← chain
  let v := visits (← read) c budget
  visitAll c.base v.visited
  modifyChain fun c => { c with cursor := v.cursor c.cursor }
  let used := v.used + Schedule.flat.burnResidue
  if used.fits budget then
    burnResidue c.base
    return used
  else return v.used

end Sweep

end SwapFees
