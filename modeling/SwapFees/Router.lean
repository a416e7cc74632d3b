import SwapFees.Effect

namespace SwapFees.Router

open Effect

def credit (who : AccountId) (c : Coin) : Effect Unit :=
  if c.isZero then pure () else onLedger fun l => l.mint who c

def debit (who : AccountId) (c : Coin) : Effect Unit :=
  onLedger fun l => (l.burn who c).map Prod.snd

/-- What an injected failure does instead of a swap that may take `c`. -/
def failing (how : RouterFailure) (sender : AccountId) (c : Coin) : Effect Amount :=
  match how with
  | .reject => fail (.pool .rejected)
  | .failAfterDebit => do
    debit sender c
    fail (.pool .exploded)
  | .zeroOutput => do
    debit sender c
    return 0

/-- Takes `tokenIn`, pays `tokenOut` and leaves the pools as given. -/
def exchange (sender : AccountId) (tokenIn tokenOut : Coin) (ps : Pools) : Effect Unit := do
  debit sender tokenIn
  credit sender tokenOut
  modifyChain fun c => { c with pools := ps }

/-- Swaps exactly `tokenIn`; answers the amount of the last hop's asset. -/
def swapIn (sender : AccountId) (route : List HopIn) (tokenIn : Coin) (minOut : Amount) :
    Effect Amount := do
  match (← read).routerFailure with
  | some how => failing how sender tokenIn
  | none =>
    if route.isEmpty then fail (.pool .emptyRoute)
    else
      let (out, ps) ← lift ((← chain).pools.carry tokenIn route)
      if out.amount < minOut then fail (.pool .slippageExceeded)
      else
        exchange sender tokenIn out ps
        return out.amount

/-- Buys exactly `tokenOut`; answers the amount of the first hop's asset paid. -/
def swapOut (sender : AccountId) (route : List HopOut) (maxIn : Amount) (tokenOut : Coin) :
    Effect Amount := do
  match route with
  | [] => fail (.pool .emptyRoute)
  | first :: _ =>
    match (← read).routerFailure with
    | some how => failing how sender ⟨first.assetIn, maxIn⟩
    | none =>
      let (n, ps) ← lift ((← chain).pools.quote tokenOut route)
      if maxIn < n then fail (.pool .excessiveInput)
      else
        exchange sender ⟨first.assetIn, n⟩ tokenOut ps
        return n

/-- The input that `swapOut` would take. -/
def estimate (route : List HopOut) (tokenOut : Coin) : Effect Amount := do
  let (n, _) ← lift ((← chain).pools.quote tokenOut route)
  return n

def addPool (p : Pool) : Effect PoolId := do
  let (id, ps) ← lift ((← chain).pools.add p)
  modifyChain fun c => { c with pools := ps }
  return id

def setFee (id : PoolId) (fee : Rate) : Effect Unit :=
  modifyChain fun c => { c with pools := c.pools.setFee id fee }

end SwapFees.Router
