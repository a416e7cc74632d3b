import SwapFees.Rate

namespace SwapFees

/-- Which combination of the two reserves a pool keeps: their sum or their product. -/
inductive Curve
  | sum
  | product
  deriving DecidableEq

inductive Side
  | left
  | right
  deriving DecidableEq

structure Pool where
  left : Coin
  right : Coin
  curve : Curve
  fee : Rate
  deriving DecidableEq

abbrev Pools := SortedMap PoolId Pool

namespace Pool

def assets (p : Pool) : List Asset := [p.left.asset, p.right.asset]

def reserve (p : Pool) : Side → Amount
  | .left => p.left.amount
  | .right => p.right.amount

def setReserve (p : Pool) (s : Side) (n : Amount) : Pool :=
  match s with
  | .left => { p with left := p.left.withAmount n }
  | .right => { p with right := p.right.withAmount n }

def side? (p : Pool) (a : Asset) : Option Side :=
  if p.left.asset = a then some .left
  else if p.right.asset = a then some .right
  else none

/-- The sides a swap takes from and pays to. -/
def sides (p : Pool) (assetIn assetOut : Asset) : Answer (Side × Side) :=
  match p.side? assetIn, p.side? assetOut with
  | some i, some o => if i = o then refuse (.pool .identicalAssets) else .ok (i, o)
  | _, _ => refuse (.pool .assetNotInPool)

/-- The pool after `paid` came in on side `i` and `given` left on side `o`. -/
def settle (p : Pool) (i o : Side) (paid given : Amount) : Answer Pool := do
  let rest ← (p.reserve o).sub given
  .ok ((p.setReserve i ((p.reserve i).addSat paid)).setReserve o rest)

/-- What the curve gives for an input from which the fee is already taken. -/
def outputFor (p : Pool) (i o : Side) (net : Amount) : Answer Amount :=
  match p.curve with
  | .sum => .ok net
  | .product =>
    if p.reserve i = 0 ∨ p.reserve o = 0 then refuse (.pool .emptyReserves)
    else
      let depth := (p.reserve i).addSat net
      if depth = 0 then halt .zeroDivisor
      else .ok (Word.saturate ((net.mulSat (p.reserve o)).toNat / depth.toNat))

/-- What the curve needs, before the fee, for an output. -/
def inputFor (p : Pool) (i o : Side) (given : Amount) : Answer Amount :=
  match p.curve with
  | .sum => .ok given
  | .product => do
    let rest ← (p.reserve o).sub given
    if rest = 0 then halt .zeroDivisor
    else .ok (Word.saturate ((((p.reserve i).mulSat given).toNat + rest.toNat - 1) / rest.toNat))

/-- Takes exactly `paid` and answers the output. -/
def swapIn (p : Pool) (assetIn assetOut : Asset) (paid : Amount) : Answer (Amount × Pool) := do
  let (i, o) ← p.sides assetIn assetOut
  let given ← p.outputFor i o (p.fee.complement.mulFloor paid)
  if p.reserve o ≤ given then refuse (.pool .insufficientLiquidity)
  else
    let p' ← p.settle i o paid given
    .ok (given, p')

/-- Gives exactly `given` and answers the input. -/
def swapOut (p : Pool) (assetIn assetOut : Asset) (given : Amount) : Answer (Amount × Pool) := do
  let (i, o) ← p.sides assetIn assetOut
  if p.reserve o ≤ given then refuse (.pool .insufficientLiquidity)
  else
    let net ← p.inputFor i o given
    let paid ← p.fee.complement.divCeil net
    let p' ← p.settle i o paid given
    .ok (paid, p')

/-- Units of `quote` paid for one unit of `asset`. -/
def spotPrice (p : Pool) (asset quote : Asset) : Answer Price := do
  let (i, o) ← p.sides asset quote
  match p.curve with
  | .sum => .ok Price.one
  | .product =>
    match Price.ofRatio? (p.reserve o) (p.reserve i) with
    | none => refuse (.pool .emptyReserves)
    | some price => .ok price

end Pool

namespace Pools

def find (ps : Pools) (id : PoolId) : Answer Pool :=
  match ps.get? id with
  | none => refuse (.pool .poolNotFound)
  | some p => .ok p

/-- Adds a pool under the number after the highest, counting from 1. -/
def add (ps : Pools) (p : Pool) : Answer (PoolId × Pools) :=
  match ps.keys.getLast? with
  | none => .ok (1, ps.insert 1 p)
  | some id =>
    match id.add? 1 with
    | none => halt .additionOverflow
    | some next => .ok (next, ps.insert next p)

/-- An unknown pool stays unknown. -/
def setFee (ps : Pools) (id : PoolId) (fee : Rate) : Pools :=
  match ps.get? id with
  | none => ps
  | some p => ps.insert id { p with fee }

/-- Carries a coin along a route; answers what arrives and the pools after it. -/
def carry (ps : Pools) (c : Coin) : List HopIn → Answer (Coin × Pools)
  | [] => .ok (c, ps)
  | hop :: rest => do
    let p ← ps.find hop.pool
    let (n, p') ← p.swapIn c.asset hop.assetOut c.amount
    carry (ps.insert hop.pool p') ⟨hop.assetOut, n⟩ rest

/-- The input a route needs to deliver `tokenOut`, worked out from its end, and the pools after it. -/
def require (ps : Pools) (tokenOut : Coin) : List HopOut → Answer (Amount × Pools)
  | [] => .ok (tokenOut.amount, ps)
  | hop :: rest => do
    let (n, ps') ← require ps tokenOut rest
    let p ← ps'.find hop.pool
    let (m, p') ← p.swapOut hop.assetIn (HopOut.next tokenOut.asset rest) n
    .ok (m, ps'.insert hop.pool p')

/-- What `tokenOut` costs along a route, nothing being moved. -/
def quote (ps : Pools) (tokenOut : Coin) (route : List HopOut) : Answer (Amount × Pools) :=
  if route.isEmpty then refuse (.pool .emptyRoute) else ps.require tokenOut route

def spotPrice (ps : Pools) (id : PoolId) (asset quote : Asset) : Answer Price := do
  (← ps.find id).spotPrice asset quote

end Pools

end SwapFees
