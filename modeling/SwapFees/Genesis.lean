import SwapFees.Conversion

namespace SwapFees

structure FeeGenesis where
  /-- Replaces the default base asset. -/
  base : Option Asset
  tokens : List FeeToken
  deriving DecidableEq

structure SwapGenesis where
  /-- Replaces the default taker fee. -/
  takerFee : Option Rate
  deriving DecidableEq

structure Genesis where
  minBalance : Amount
  defaultBase : Asset
  defaultTakerFee : Rate
  balances : List (AccountId × Amount)
  tokens : List (AssetId × Token)
  holdings : List (AssetId × AccountId × Amount)
  pools : List Pool
  fees : FeeGenesis
  swaps : SwapGenesis
  deriving DecidableEq

namespace FeeGenesis

/-- Registers fee tokens in order; each must be new and convertible. -/
def register (ps : Pools) (base : Asset) (r : Registry) : List FeeToken → Answer Registry
  | [] => .ok r
  | t :: ts =>
    if r.contains t.asset then halt (.duplicateFeeToken t.asset)
    else match ps.checkPath t base with
      | .error e => halt (.unconvertibleFeeToken t (.fees e))
      | .ok () => register ps base (r.insert t) ts

/-- The fee account gets a provider, so that it survives without a native balance. The list is
counted in 32 bits. -/
def build (g : FeeGenesis) (s : Settings) (c : Chain) : Answer Chain := do
  let base := g.base.getD c.base
  if s.maxFeeTokens.toNat < g.tokens.length % 2 ^ (32 : Nat) then halt .tooManyFeeTokens
  else
    let registry ← register c.pools base c.registry g.tokens
    .ok { c with base, registry, ledger := c.ledger.addProvider s.feeAccount }

end FeeGenesis

namespace SwapGenesis

def build (g : SwapGenesis) (c : Chain) : Answer Chain :=
  match g.takerFee with
  | none => .ok c
  | some rate =>
    if rate.parts < million then .ok { c with takerFee := rate } else halt .takerFeeTooHigh

end SwapGenesis

namespace Genesis

/-- The accounts with their first native balances, each coming with a provider, however small it is.
The total is taken first and must fit. -/
def endow (minBalance : Amount) (balances : List (AccountId × Amount)) : Answer Ledger :=
  match Word.ofNat? (balances.map fun e => e.2.toNat).sum with
  | none => halt .additionOverflow
  | some issuance =>
    if balances.any fun e => e.2 < minBalance then halt .balanceBelowMinimum
    else if (balances.map Prod.fst).Nodup then
      let accounts := balances.map fun e => (e.1, ({ providers := 1, free := e.2 } : Account))
      .ok ⟨minBalance, issuance, .ofList accounts, ∅⟩
    else halt .duplicateBalance

def define : Ledger → List (AssetId × Token) → Answer Ledger
  | l, [] => .ok l
  | l, (id, t) :: ts =>
    if l.tokens.contains id then halt .duplicateToken
    else if t.minBalance = 0 then halt .zeroMinBalance
    else define (l.putToken id t) ts

def hold : Ledger → List (AssetId × AccountId × Amount) → Answer Ledger
  | l, [] => .ok l
  | l, (id, who, n) :: hs =>
    match l.mintToken id who n with
    | .error _ => halt .genesisMintRefused
    | .ok l' => hold l' hs

def seed : Pools → List Pool → Answer Pools
  | ps, [] => .ok ps
  | ps, p :: rest => do
    let (_, ps) ← ps.add p
    seed ps rest

def build (g : Genesis) (s : Settings) : Answer Chain := do
  let ledger ← endow g.minBalance g.balances
  let ledger ← define ledger g.tokens
  let ledger ← hold ledger g.holdings
  let pools ← seed ∅ g.pools
  let chain : Chain := ⟨ledger, pools, g.defaultBase, .empty, ∅, none, g.defaultTakerFee, []⟩
  g.swaps.build (← g.fees.build s chain)

end Genesis

end SwapFees
