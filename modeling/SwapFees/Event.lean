import SwapFees.Rate

namespace SwapFees

/-- Where a fee that cannot be converted goes. -/
inductive Disposition
  | communityPool
  | burned
  deriving DecidableEq

namespace Disposition

def isCommunityPool : Disposition → Bool
  | communityPool => true
  | burned => false

def debug : Disposition → String
  | communityPool => "CommunityPool"
  | burned => "Burned"

end Disposition

inductive Event
  /-- `fee` is what was burned, or the whole fee where it could not be converted. -/
  | feeCharged (payer : Option AccountId) (fee : Coin) (beneficiary : Option AccountId)
    (revenue : Option Coin) (communityPool : Bool)
  | feeTokenSwapped (pool : PoolId) (tokenIn tokenOut : Coin)
  | residueBurned (burned : Coin)
  | baseUpdated (old new : Asset) (pruned : Nat)
  | feeTokenSet (token : FeeToken)
  | feeTokenRemoved (asset : Asset)
  /-- The amounts leave out the taker fee; the price is input paid per output. -/
  | tokenSwapped (sender : AccountId) (pool : PoolId) (tokensIn tokensOut : Coin) (price : Price)
    (takerFee swapFee : Rate)
  | takerFeeUpdated (old new : Rate)
  deriving DecidableEq

inductive LogLevel
  | debug
  | warn
  | error
  deriving DecidableEq

def LogLevel.text : LogLevel → String
  | debug => "DEBUG"
  | warn => "WARN"
  | error => "ERROR"

inductive LogEntry
  | disposed (fee : Coin) (how : Disposition)
  | shareRefused (who : AccountId) (share : Coin)
  | emptyConversion (fee : Coin) (pool : PoolId)
  | conversionFailed (fee : Coin) (pool : PoolId) (e : DispatchError)
  | burnFailed (residue : Coin) (e : DispatchError)
  | noBeneficiary (assetIn assetOut : Asset)
  | feeNotAccepted (fee : Coin) (pool : PoolId)
  deriving DecidableEq

def feeLogTarget : String := "runtime::tx-fees"

def swapLogTarget : String := "runtime::gamm"

namespace LogEntry

def level : LogEntry → LogLevel
  | emptyConversion .. => .error
  | burnFailed .. => .warn
  | _ => .debug

def target : LogEntry → String
  | noBeneficiary .. | feeNotAccepted .. => swapLogTarget
  | _ => feeLogTarget

def text : LogEntry → String
  | disposed fee how =>
    s!"fee {fee.text} has no conversion path to the base asset, disposed: {how.debug}"
  | shareRefused who share =>
    s!"beneficiary {who} cannot receive {share.text}, burning the whole fee"
  | emptyConversion fee pool => s!"swapping fee {fee.text} through pool {pool} returned nothing"
  | conversionFailed fee pool e =>
    s!"failed to swap fee {fee.text} through pool {pool}: {e.debug}"
  | burnFailed residue e => s!"failed to burn residual fees {residue.text}: {e.debug}"
  | noBeneficiary assetIn assetOut =>
    s!"swap without beneficiary: neither {assetIn.debug} nor {assetOut.debug} is a rollapp asset"
  | feeNotAccepted fee pool =>
    s!"taker fee {fee.text} is not accepted by the fee settlement, swapping through pool {pool}"

end LogEntry

end SwapFees
