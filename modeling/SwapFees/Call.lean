import SwapFees.Rate
import SwapFees.Weight

namespace SwapFees

inductive FeeCall
  | setBase (asset : Asset)
  | setFeeToken (token : FeeToken)
  | removeFeeToken (asset : Asset)
  deriving DecidableEq

/-- The bounds of a swap include the taker fee. -/
inductive SwapCall
  | swapIn (route : Route HopIn) (tokenIn : Coin) (minOut : Amount)
  | swapOut (route : Route HopOut) (maxIn : Amount) (tokenOut : Coin)
  | setTakerFee (rate : Rate)
  deriving DecidableEq

inductive Call
  | fees (c : FeeCall)
  | swaps (c : SwapCall)
  deriving DecidableEq

/-- Who a call comes from: governance, an account, or nobody. -/
inductive Origin
  | root
  | signed (who : AccountId)
  | none
  deriving DecidableEq

def FeeCall.weight (s : Schedule) (maxFeeTokens : Word 32) : FeeCall → Weight
  | setBase _ => s.setBase maxFeeTokens
  | setFeeToken _ => s.setFeeToken
  | removeFeeToken _ => s.removeFeeToken

def SwapCall.weight (s : Schedule) : SwapCall → Weight
  | swapIn route _ _ => s.swapIn (Word.saturate route.val.length)
  | swapOut route _ _ => s.swapOut (Word.saturate route.val.length)
  | setTakerFee _ => s.setTakerFee

def Call.weight (s : Schedule) (maxFeeTokens : Word 32) : Call → Weight
  | fees c => c.weight s maxFeeTokens
  | swaps c => c.weight s

end SwapFees
