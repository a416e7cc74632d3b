import SwapFees.Event
import SwapFees.Ledger.Coins
import SwapFees.Pool
import SwapFees.Registry

namespace SwapFees

/-- Ways in which the router may be made to fail. -/
inductive RouterFailure
  | reject
  | failAfterDebit
  | zeroOutput
  deriving DecidableEq

/-- What no operation changes. -/
structure Settings where
  feeAccount : AccountId
  communityPool : AccountId
  maxFeeTokens : Word 32
  /-- Most fee tokens visited by one idle sweep. -/
  maxVisits : Word 32
  emitConversions : Bool
  policy : Disposition
  communityPoolFails : Bool
  ownersDeployed : Bool
  /-- Who is rewarded for trades of an asset. -/
  owners : SortedMap Asset AccountId
  routerFailure : Option RouterFailure
  deriving DecidableEq

/-- The account of a module: the first eight bytes of `modl` and the module's name. -/
def moduleAccount (name : Bytes) : AccountId :=
  Word.saturate (Bytes.toNat (([0x6d, 0x6f, 0x64, 0x6c] ++ name).take 8))

/-- What a failed operation may take back. -/
structure Chain where
  ledger : Ledger
  pools : Pools
  base : Asset
  registry : Registry
  burned : SortedMap Asset Amount
  /-- The fee token that the idle sweep visited last. -/
  cursor : Option Asset
  takerFee : Rate
  events : List Event
  deriving DecidableEq

def Chain.totalBurned (c : Chain) (a : Asset) : Amount := (c.burned.get? a).getD 0

def Chain.balance (c : Chain) (who : AccountId) (a : Asset) : Amount := c.ledger.balance who a

/-- A chain, and the log, which nothing takes back. -/
structure World where
  chain : Chain
  log : List LogEntry
  deriving DecidableEq

end SwapFees
