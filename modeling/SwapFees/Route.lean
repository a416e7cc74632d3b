import SwapFees.Asset

namespace SwapFees

structure HopIn where
  pool : PoolId
  assetOut : Asset
  deriving DecidableEq

structure HopOut where
  pool : PoolId
  assetIn : Asset
  deriving DecidableEq

def maxHops : Nat := 8

/-- A route short enough for a call. -/
abbrev Route (η : Type) := { hops : List η // hops.length ≤ maxHops }

def Route.ofList? {η : Type} (hops : List η) : Option (Route η) :=
  if h : hops.length ≤ maxHops then some ⟨hops, h⟩ else none

def HopIn.debug (h : HopIn) : String :=
  "SwapAmountInRoute \x7b pool_id: " ++ toString h.pool ++ ", token_out_denom: " ++
    h.assetOut.debug ++ " \x7d"

def HopOut.debug (h : HopOut) : String :=
  "SwapAmountOutRoute \x7b pool_id: " ++ toString h.pool ++ ", token_in_denom: " ++
    h.assetIn.debug ++ " \x7d"

/-- The asset a route delivers after the hop before `rest`. -/
def HopOut.next (tokenOut : Asset) : List HopOut → Asset
  | [] => tokenOut
  | hop :: _ => hop.assetIn

/-- The exact-in hops along the pools of an exact-out route. -/
def HopOut.forward (tokenOut : Asset) : List HopOut → List HopIn
  | [] => []
  | hop :: rest => ⟨hop.pool, HopOut.next tokenOut rest⟩ :: HopOut.forward tokenOut rest

end SwapFees
