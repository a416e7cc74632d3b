import SwapFees.Conversion

namespace SwapFees.Governance

open Effect

/-- The fee tokens that cannot stay when `base` becomes the base asset: `base` itself, and those
whose pool does not hold it. -/
def stale (c : Chain) (base : Asset) : List Asset :=
  (c.registry.entries.toList.filter fun e =>
    e.1 = base ∨ ¬ (c.pools.get? e.2).any fun p => base ∈ p.assets).map Prod.fst

def setBase (base : Asset) : Effect Unit := do
  let c ← chain
  let stale := stale c base
  modifyChain fun c => { c with registry := c.registry.eraseAll stale, base }
  deposit (.baseUpdated c.base base stale.length)

def setFeeToken (t : FeeToken) : Effect Unit := do
  let c ← chain
  match c.pools.checkPath t c.base with
  | .error e => fail (.fees e)
  | .ok () =>
    if ¬ c.registry.contains t.asset ∧ (← read).maxFeeTokens ≤ c.registry.count then
      fail (.fees .tooManyFeeTokens)
    else
      modifyChain fun c => { c with registry := c.registry.insert t }
      deposit (.feeTokenSet t)

def removeFeeToken (a : Asset) : Effect Unit := do
  if (← chain).registry.contains a then
    modifyChain fun c => { c with registry := c.registry.erase a }
    deposit (.feeTokenRemoved a)
  else fail (.fees .feeTokenNotFound)

def setTakerFee (rate : Rate) : Effect Unit := do
  if rate.parts < million then
    let old := (← chain).takerFee
    modifyChain fun c => { c with takerFee := rate }
    deposit (.takerFeeUpdated old rate)
  else fail (.swaps .takerFeeTooHigh)

end SwapFees.Governance
