import SwapFees.Codec.Basic
import SwapFees.Rate

namespace SwapFees.Codec

def asset : Codec Asset where
  encode
    | .native => [0]
    | .issued id => 1 :: (word 4).encode id
    | .bridged id => 2 :: (word 4).encode id
  decode
    | 0 :: bs => some (.native, bs)
    | 1 :: bs => ((word 4).decode bs).map fun (id, bs) => (.issued id, bs)
    | 2 :: bs => ((word 4).decode bs).map fun (id, bs) => (.bridged id, bs)
    | _ => none

def amount : Codec Amount := word 16

def poolId : Codec PoolId := word 8

def coin : Codec Coin := (asset.pair amount).iso (fun v => ⟨v.1, v.2⟩) fun c => (c.asset, c.amount)

def feeToken : Codec FeeToken :=
  (asset.pair poolId).iso (fun v => ⟨v.1, v.2⟩) fun t => (t.asset, t.pool)

def hopIn : Codec HopIn :=
  (poolId.pair asset).iso (fun v => ⟨v.1, v.2⟩) fun h => (h.pool, h.assetOut)

def hopOut : Codec HopOut :=
  (poolId.pair asset).iso (fun v => ⟨v.1, v.2⟩) fun h => (h.pool, h.assetIn)

/-- Parts above a million are no rate. -/
def rate : Codec Rate :=
  (word 4 : Codec (Word 32)).refine (fun n => Rate.ofParts? n.toNat) fun r => Word.saturate r.parts

/-- The longest encodings. -/
def assetSize : Nat := 5
def coinSize : Nat := assetSize + 16
def feeTokenSize : Nat := assetSize + 8
def hopSize : Nat := 8 + assetSize

end SwapFees.Codec
