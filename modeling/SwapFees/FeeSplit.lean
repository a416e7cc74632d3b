import SwapFees.Rate

namespace SwapFees

/-- A payment split into what reaches the pools and the taker fee on top, both in one asset. -/
structure FeeSplit where
  net : Coin
  fee : Coin
  deriving DecidableEq

namespace FeeSplit

def gross (s : FeeSplit) : Coin := s.net.withAmount (s.net.amount.addSat s.fee.amount)

/-- Takes the fee out of a payment. The net amount is rounded down. -/
def subtract (gross : Coin) (rate : Rate) : FeeSplit :=
  if rate.isZero then ⟨gross, Coin.zero gross.asset⟩
  else
    let net := rate.complement.mulFloor gross.amount
    ⟨gross.withAmount net, gross.withAmount (gross.amount.subSat net)⟩

/-- Puts the fee on top of a net amount. The gross amount is rounded up. -/
def add (net : Coin) (rate : Rate) : Answer FeeSplit :=
  if rate.isZero then .ok ⟨net, Coin.zero net.asset⟩
  else do
    let gross ← rate.complement.divCeil net.amount
    .ok ⟨net, net.withAmount (gross.subSat net.amount)⟩

end FeeSplit

end SwapFees
