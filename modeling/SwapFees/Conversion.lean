import SwapFees.Router

namespace SwapFees

inductive Conversion
  | converted (c : Coin)
  | unswappable
  deriving DecidableEq

/-- Whether the token's pool can price and convert it into `base`. -/
def Pools.checkPath (ps : Pools) (t : FeeToken) (base : Asset) : Except FeeError Unit :=
  if t.asset = base then .error .feeTokenIsBase
  else match ps.get? t.pool with
    | none => .error .poolNotFound
    | some p =>
      if t.asset ∈ p.assets ∧ base ∈ p.assets then
        match p.spotPrice t.asset base with
        | .error _ => .error .spotPriceUnavailable
        | .ok price => if price = 0 then .error .spotPriceUnavailable else .ok ()
      else .error .poolAssetsMismatch

namespace Chain

/-- The registered token of `a`, seen while `base` is the base asset, which has none. -/
def lookup? (c : Chain) (base a : Asset) : Option FeeToken :=
  if a = base then none else c.registry.token? a

def isFeeAsset (c : Chain) (a : Asset) : Bool := a = c.base ∨ (c.lookup? c.base a).isSome

/-- The value of a coin in the base asset at its pool's spot price. -/
def valueInBase (c : Chain) (coin : Coin) : Answer Coin :=
  if coin.asset = c.base then .ok coin
  else match c.registry.pool? coin.asset with
    | none => refuse (.fees .feeTokenNotFound)
    | some pool => do
      let price ← c.pools.spotPrice pool coin.asset c.base
      .ok ⟨c.base, price.value coin.amount⟩

end Chain

namespace Conversion

open Effect

/-- Swaps a fee held by the fee account through the pool registered for it. -/
def swapThrough (base : Asset) (t : FeeToken) (fee : Coin) : Effect Coin := do
  let n ← Router.swapIn (← read).feeAccount [⟨t.pool, base⟩] fee 0
  if n = 0 then
    report (.emptyConversion fee t.pool)
    fail (.fees .zeroConversionOutput)
  else return ⟨base, n⟩

/-- Deposits the event of a conversion, unless these are not wanted. -/
def announce (e : Event) : Effect Unit := do
  if (← read).emitConversions then deposit e else return

/-- Never fails with an error: a swap that fails or gives nothing is taken back, and the fee is
unswappable. -/
def convert (base : Asset) (fee : Coin) : Effect Conversion := do
  if fee.asset = base then return .converted fee
  else match (← chain).lookup? base fee.asset with
    | none => return .unswappable
    | some t =>
      match ← transact Except.isOk (attempt (swapThrough base t fee)) with
      | .ok out =>
        announce (.feeTokenSwapped t.pool fee out)
        return .converted out
      | .error e =>
        report (.conversionFailed fee t.pool e)
        return .unswappable

end Conversion

end SwapFees
