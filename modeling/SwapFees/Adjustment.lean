import SwapFees.Chain

namespace SwapFees

/-- New values for some of the settings; of the owners, one at a time. -/
structure Adjustment where
  emitConversions : Option Bool := none
  policy : Option Disposition := none
  communityPoolFails : Option Bool := none
  ownersDeployed : Option Bool := none
  owner : Option (Asset × AccountId) := none
  deriving DecidableEq

namespace Adjustment

def apply (a : Adjustment) (s : Settings) : Settings :=
  { s with
    emitConversions := a.emitConversions.getD s.emitConversions
    policy := a.policy.getD s.policy
    communityPoolFails := a.communityPoolFails.getD s.communityPoolFails
    ownersDeployed := a.ownersDeployed.getD s.ownersDeployed
    owners := match a.owner with
      | none => s.owners
      | some (asset, who) => s.owners.insert asset who }

/-- Where fees are only settled, nothing else is open to change. -/
def forSettlement (a : Adjustment) : Adjustment where
  emitConversions := a.emitConversions
  communityPoolFails := a.communityPoolFails

/-- Where owners are rewarded for swaps, only they are open to change. -/
def forOwners (a : Adjustment) : Adjustment where
  ownersDeployed := a.ownersDeployed
  owner := a.owner

end Adjustment

end SwapFees
