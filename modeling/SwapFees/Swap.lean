import SwapFees.FeeSplit
import SwapFees.Settlement

namespace SwapFees.Swap

open Effect

/-- The owner of the input asset is rewarded before the owner of the output asset. -/
def beneficiary (assetIn assetOut : Asset) : Effect (Option AccountId) := do
  let s ← read
  if s.ownersDeployed then
    match (s.owners.get? assetIn).or (s.owners.get? assetOut) with
    | some owner => return some owner
    | none =>
      report (.noBeneficiary assetIn assetOut)
      return none
  else return none

/-- A fee in an asset that is not accepted is first swapped by the sender through `firstHop`. -/
def acceptedFee (sender : AccountId) (fee : Coin) (firstHop : HopIn) : Effect Coin := do
  if (← chain).isFeeAsset fee.asset then return fee
  else
    report (.feeNotAccepted fee firstHop.pool)
    let n ← Router.swapIn sender [firstHop] fee 0
    return ⟨firstHop.assetOut, n⟩

def chargeTakerFee (sender : AccountId) (fee : Coin) (firstHop : HopIn)
    (beneficiary : Option AccountId) : Effect Unit := do
  if fee.isZero then return
  else
    let fee ← acceptedFee sender fee firstHop
    Settlement.chargeFrom sender fee beneficiary

/-- `pool` is the last of the route. A swap that delivers nothing has price zero. -/
def depositSwap (sender : AccountId) (pool : PoolId) (tokensIn tokensOut : Coin) (takerFee : Rate) :
    Effect Unit := do
  let swapFee := (((← chain).pools.get? pool).map Pool.fee).getD Rate.zero
  let price := (Price.ofRatio? tokensIn.amount tokensOut.amount).getD 0
  deposit (.tokenSwapped sender pool tokensIn tokensOut price takerFee swapFee)

/-- Swaps `tokenIn`, taker fee included; answers the amount of the last hop's asset received. -/
def swapIn (sender : AccountId) (route : List HopIn) (tokenIn : Coin) (minOut : Amount) :
    Effect Amount := do
  match route.head?, route.getLast? with
  | some first, some last =>
    let rate := (← chain).takerFee
    let split := FeeSplit.subtract tokenIn rate
    let beneficiary ← beneficiary tokenIn.asset last.assetOut
    chargeTakerFee sender split.fee first beneficiary
    let n ← Router.swapIn sender route split.net minOut
    depositSwap sender last.pool split.net ⟨last.assetOut, n⟩ rate
    return n
  | _, _ => fail (.swaps .emptyRoute)

/-- Buys `tokenOut`; answers the amount of the first hop's asset paid, taker fee included. The fee
is computed from a quote; the swap may use whatever the fee leaves of the maximum. -/
def swapOut (sender : AccountId) (route : List HopOut) (maxIn : Amount) (tokenOut : Coin) :
    Effect Amount := do
  match route, route.getLast? with
  | first :: rest, some last =>
    let rate := (← chain).takerFee
    let required ← Router.estimate route tokenOut
    let split ← lift (FeeSplit.add ⟨first.assetIn, required⟩ rate)
    if maxIn < split.gross.amount then fail (.swaps .inputExceedsMaximum)
    else
      let beneficiary ← beneficiary first.assetIn tokenOut.asset
      chargeTakerFee sender split.fee ⟨first.pool, HopOut.next tokenOut.asset rest⟩ beneficiary
      let n ← Router.swapOut sender route (maxIn.subSat split.fee.amount) tokenOut
      depositSwap sender last.pool ⟨first.assetIn, n⟩ tokenOut rate
      return n.addSat split.fee.amount
  | _, _ => fail (.swaps .emptyRoute)

end SwapFees.Swap
