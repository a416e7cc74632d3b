import SwapFees.Digest.Blake2b
import SwapFees.Dispatch
import SwapFees.Sweep

namespace SwapFees

inductive Benchmark
  | setBase
  | setFeeToken
  | removeFeeToken
  | visit
  | burnResidue
  | swapIn
  | swapOut
  | setTakerFee
  deriving DecidableEq

inductive BenchmarkError
  | notFound
  | missingComponent
  | refused (e : DispatchError)
  | fault (f : Fault)
  deriving DecidableEq

namespace BenchmarkError

def report : BenchmarkError → Report
  | notFound => ⟨"Benchmark", some "Could not find extrinsic."⟩
  | missingComponent => ⟨"Benchmark", some "Could not find component during benchmark preparation."⟩
  | refused (.fees e) => ⟨"Benchmark", some e.name⟩
  | refused (.swaps e) => ⟨"Benchmark", some e.name⟩
  | refused (.assets e) => ⟨"Benchmark", some e.name⟩
  | refused e => ⟨"Benchmark", e.report.message⟩
  | fault f => (Failure.fault f).report

end BenchmarkError

namespace Benchmark

open Effect

def ofFees : List Benchmark := [setBase, setFeeToken, removeFeeToken, visit, burnResidue]

def ofSwaps : List Benchmark := [swapIn, swapOut, setTakerFee]

def name : Benchmark → String
  | setBase => "set_base_denom"
  | setFeeToken => "set_fee_token"
  | removeFeeToken => "remove_fee_token"
  | visit => "sweep_fee_token"
  | burnResidue => "burn_residual"
  | swapIn => "swap_exact_amount_in"
  | swapOut => "swap_exact_amount_out"
  | setTakerFee => "set_taker_fee"

/-- The least and greatest size of the set-up, where it has one. -/
def sizes? (maxFeeTokens : Nat) : Benchmark → Option (Nat × Nat)
  | setBase => some (0, maxFeeTokens)
  | swapIn | swapOut => some (1, maxHops)
  | _ => none

def createPool (a b : Coin) : Effect PoolId := Router.addPool ⟨a, b, .product, Rate.zero⟩

/-- Makes sure that an asset can be minted. -/
def createToken (a : Asset) : Effect Unit :=
  match a.id? with
  | none => pure ()
  | some id => modifyChain fun c =>
    match c.ledger.tokens.get? id with
    | some _ => c
    | none => { c with ledger := c.ledger.putToken id { sufficient := true, minBalance := 1 } }

def feeReserve : Amount := 1000000000000

def feeAmount : Amount := 1000000000

/-- Registers `a` as a fee token through a new pool, if `registered`. -/
def feeTokenPool (a : Asset) (registered : Bool) : Effect FeeToken := do
  let pool ← createPool ⟨a, feeReserve⟩ ⟨(← chain).base, feeReserve⟩
  if registered then
    modifyChain fun c => { c with registry := c.registry.insert ⟨a, pool⟩ }
  return ⟨a, pool⟩

def feeTokenPools (ids : List Nat) : Effect Unit :=
  ids.forM fun i => do
    let _ ← feeTokenPool (.bridged (Word.saturate i)) true

def swapReserve : Amount := 1000000000000000

def swapAmount : Amount := 1000000000

/-- Pools from `a` through the bridged tokens `i`, `i + 1` and so on. -/
def poolChain (a : Asset) (i : Nat) : Nat → Effect (List (PoolId × Asset × Asset))
  | 0 => return []
  | n + 1 => do
    let b : Asset := .bridged (Word.saturate i)
    createToken a
    createToken b
    let pool ← createPool ⟨a, swapReserve⟩ ⟨b, swapReserve⟩
    return (pool, a, b) :: (← poolChain b (i + 1) n)

/-- The account that makes the swaps. It is the digest of a tag and two zero numbers. -/
def caller : AccountId :=
  let tag := "whitelisted_caller".toUTF8.toList
  let seed := UInt8.ofNat (4 * tag.length) :: tag ++ List.replicate 8 0
  Word.saturate (Bytes.toNat ((Blake2b.digest 32 seed).take 8))

def fund (what : String) (who : AccountId) (c : Coin) : Effect Unit := do
  match ← attempt (Router.credit who c) with
  | .ok () => return
  | .error e => Effect.fault (.setupFailed what e)

/-- Sets the chain up and answers what is measured. -/
def setUp (n : Nat) : Benchmark → Effect (Effect Unit)
  | setBase => do
    feeTokenPools (List.range n)
    return Call.dispatch .root (.fees (.setBase (.issued Word.top)))
  | setFeeToken => do
    let t ← feeTokenPool (.issued 1) false
    return Call.dispatch .root (.fees (.setFeeToken t))
  | removeFeeToken => do
    let t ← feeTokenPool (.issued 1) true
    return Call.dispatch .root (.fees (.removeFeeToken t.asset))
  | visit => do
    let fee : Coin := ⟨.issued 1, feeAmount⟩
    let _ ← feeTokenPool fee.asset true
    fund "Failed to fund fee account" (← read).feeAccount fee
    let base := (← chain).base
    return do
      let _ ← Conversion.convert base fee
  | burnResidue => do
    let account := (← read).feeAccount
    let base : Coin := ⟨(← chain).base, feeAmount⟩
    fund "Failed to fund fee account" account base
    return Bank.burn account base
  | swapIn => do
    fund "Failed to fund caller" caller ⟨.native, swapAmount.addSat swapAmount⟩
    let hops := (← poolChain .native 0 n).map fun (pool, _, b) => (⟨pool, b⟩ : HopIn)
    match Route.ofList? hops with
    | none => Effect.fault (.routeInTooLong hops)
    | some route =>
      return Call.dispatch (.signed caller) (.swaps (.swapIn route ⟨.native, swapAmount⟩ 0))
  | swapOut => do
    fund "Failed to fund caller" caller ⟨.native, swapAmount.mulSat 4⟩
    let hops := (← poolChain .native 0 n).map fun (pool, a, _) => (⟨pool, a⟩ : HopOut)
    match Route.ofList? hops, n with
    | none, _ => Effect.fault (.routeOutTooLong hops)
    | some _, 0 => Effect.fault .subtractionOverflow
    | some route, last + 1 =>
      let tokenOut : Coin := ⟨.bridged (Word.saturate last), swapAmount.half⟩
      return Call.dispatch (.signed caller)
        (.swaps (.swapOut route (swapAmount.addSat swapAmount) tokenOut))
  | setTakerFee => return Call.dispatch .root (.swaps (.setTakerFee (Rate.percent 2)))

/-- Sets up, forgets the events of the set-up, and performs what is measured. -/
def perform (b : Benchmark) (n : Nat) : Effect Unit := do
  let measured ← b.setUp n
  modifyChain fun c => { c with events := [] }
  measured

/-- The chain after a benchmark. One that has sizes needs to be given one. -/
def run (b : Benchmark) (n : Option Nat) (s : Settings) (c : Chain) : Except BenchmarkError Chain :=
  if (b.sizes? 0).isSome ∧ n = none then .error .missingComponent
  else match (b.perform (n.getD 0)).run s ⟨c, []⟩ with
    | (.ok (), w) => .ok w.chain
    | (.error (.error e), _) => .error (.refused e)
    | (.error (.fault f), _) => .error (.fault f)

end Benchmark

end SwapFees
