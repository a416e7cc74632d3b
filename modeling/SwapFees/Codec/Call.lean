import SwapFees.Call
import SwapFees.Codec.Asset

namespace SwapFees.Codec

def swapInFields : Codec (Route HopIn × Coin × Amount) :=
  (shortList maxHops hopIn).pair (coin.pair amount)

def swapOutFields : Codec (Route HopOut × Amount × Coin) :=
  (shortList maxHops hopOut).pair (amount.pair coin)

def feeCall : Codec FeeCall where
  encode
    | .setBase a => 0 :: asset.encode a
    | .setFeeToken t => 1 :: feeToken.encode t
    | .removeFeeToken a => 2 :: asset.encode a
  decode
    | 0 :: bs => (asset.decode bs).map fun (a, bs) => (.setBase a, bs)
    | 1 :: bs => (feeToken.decode bs).map fun (t, bs) => (.setFeeToken t, bs)
    | 2 :: bs => (asset.decode bs).map fun (a, bs) => (.removeFeeToken a, bs)
    | _ => none

def swapCall : Codec SwapCall where
  encode
    | .swapIn route tokenIn minOut => 0 :: swapInFields.encode (route, tokenIn, minOut)
    | .swapOut route maxIn tokenOut => 1 :: swapOutFields.encode (route, maxIn, tokenOut)
    | .setTakerFee r => 2 :: rate.encode r
  decode
    | 0 :: bs => (swapInFields.decode bs).map fun ((route, tokenIn, minOut), bs) =>
      (.swapIn route tokenIn minOut, bs)
    | 1 :: bs => (swapOutFields.decode bs).map fun ((route, maxIn, tokenOut), bs) =>
      (.swapOut route maxIn tokenOut, bs)
    | 2 :: bs => (rate.decode bs).map fun (r, bs) => (.setTakerFee r, bs)
    | _ => none

end SwapFees.Codec
