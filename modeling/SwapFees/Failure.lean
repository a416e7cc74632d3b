import SwapFees.Route

namespace SwapFees

inductive TokenError
  | fundsUnavailable
  | belowMinimum
  | cannotCreate
  | unknownAsset
  | frozen
  | notExpendable
  deriving DecidableEq

inductive ArithmeticError
  | overflow
  | underflow
  deriving DecidableEq

inductive AssetError
  | unknown
  | notLive
  | notFrozen
  deriving DecidableEq

inductive FeeError
  | feeTokenIsBase
  | poolNotFound
  | poolAssetsMismatch
  | spotPriceUnavailable
  | feeTokenNotFound
  | tooManyFeeTokens
  | zeroConversionOutput
  deriving DecidableEq

inductive SwapError
  | emptyRoute
  | takerFeeTooHigh
  | inputExceedsMaximum
  deriving DecidableEq

/-- Refusals of the pools and of the router over them. -/
inductive PoolError
  | assetNotInPool
  | identicalAssets
  | emptyReserves
  | insufficientLiquidity
  | poolNotFound
  | emptyRoute
  | slippageExceeded
  | excessiveInput
  | rejected
  | exploded
  deriving DecidableEq

inductive DispatchError
  | badOrigin
  | token (e : TokenError)
  | arithmetic (e : ArithmeticError)
  | layerLimitReached
  | assets (e : AssetError)
  | fees (e : FeeError)
  | swaps (e : SwapError)
  | pool (e : PoolError)
  | communityPoolUnavailable
  | other (reason : String)
  deriving DecidableEq

inductive Fault
  | zeroDivisor
  | zeroRemainderDivisor
  | subtractionOverflow
  | additionOverflow
  | tooManyFeeTokens
  | duplicateFeeToken (asset : Asset)
  | unconvertibleFeeToken (token : FeeToken) (e : DispatchError)
  | takerFeeTooHigh
  | mintRefused (e : DispatchError)
  | balanceBelowMinimum
  | duplicateBalance
  | duplicateToken
  | zeroMinBalance
  | genesisMintRefused
  | setupFailed (what : String) (e : DispatchError)
  | routeInTooLong (hops : List HopIn)
  | routeOutTooLong (hops : List HopOut)
  deriving DecidableEq

/-- An error is an answer to the caller; a fault ends the whole run. -/
inductive Failure
  | error (e : DispatchError)
  | fault (f : Fault)
  deriving DecidableEq

def TokenError.name : TokenError → String
  | fundsUnavailable => "FundsUnavailable"
  | belowMinimum => "BelowMinimum"
  | cannotCreate => "CannotCreate"
  | unknownAsset => "UnknownAsset"
  | frozen => "Frozen"
  | notExpendable => "NotExpendable"

def ArithmeticError.name : ArithmeticError → String
  | overflow => "Overflow"
  | underflow => "Underflow"

def AssetError.name : AssetError → String
  | unknown => "Unknown"
  | notLive => "AssetNotLive"
  | notFrozen => "NotFrozen"

def AssetError.code : AssetError → Nat
  | unknown => 3
  | notLive => 16
  | notFrozen => 18

def FeeError.name : FeeError → String
  | feeTokenIsBase => "FeeTokenIsBaseDenom"
  | poolNotFound => "PoolNotFound"
  | poolAssetsMismatch => "PoolAssetsMismatch"
  | spotPriceUnavailable => "SpotPriceUnavailable"
  | feeTokenNotFound => "FeeTokenNotFound"
  | tooManyFeeTokens => "TooManyFeeTokens"
  | zeroConversionOutput => "ZeroConversionOutput"

def FeeError.code : FeeError → Nat
  | feeTokenIsBase => 0
  | poolNotFound => 1
  | poolAssetsMismatch => 2
  | spotPriceUnavailable => 3
  | feeTokenNotFound => 4
  | tooManyFeeTokens => 5
  | zeroConversionOutput => 6

def SwapError.name : SwapError → String
  | emptyRoute => "EmptyRoutes"
  | takerFeeTooHigh => "TakerFeeTooHigh"
  | inputExceedsMaximum => "TokenInExceedsMax"

def SwapError.code : SwapError → Nat
  | emptyRoute => 0
  | takerFeeTooHigh => 1
  | inputExceedsMaximum => 2

def PoolError.message : PoolError → String
  | assetNotInPool => "asset not in pool"
  | identicalAssets => "identical assets"
  | emptyReserves => "empty reserves"
  | insufficientLiquidity => "insufficient liquidity"
  | poolNotFound => "pool not found"
  | emptyRoute => "empty route"
  | slippageExceeded => "slippage exceeded"
  | excessiveInput => "excessive input"
  | rejected => "router rejected swap"
  | exploded => "pool exploded"

/-- How an error is reported: its kind, and a message where the kind has several causes. -/
structure Report where
  kind : String
  message : Option String
  deriving DecidableEq

namespace DispatchError

def report : DispatchError → Report
  | badOrigin => ⟨"BadOrigin", none⟩
  | token e => ⟨"Token", some e.name⟩
  | arithmetic e => ⟨"Arithmetic", some e.name⟩
  | layerLimitReached => ⟨"Transactional", some "LimitReached"⟩
  | assets e => ⟨"Module", some ("Assets." ++ e.name)⟩
  | fees e => ⟨"Module", some ("TxFees." ++ e.name)⟩
  | swaps e => ⟨"Module", some ("Gamm." ++ e.name)⟩
  | pool e => ⟨"Other", some e.message⟩
  | communityPoolUnavailable => ⟨"Other", some "community pool unavailable"⟩
  | other reason => ⟨"Other", some reason⟩

/-- A module's error in diagnostics: the module's position, the error's, and its name. -/
def moduleDebug (index code : Nat) (name : String) : String :=
  "Module(ModuleError \x7b index: " ++ toString index ++ ", error: [" ++ toString code ++
    ", 0, 0, 0], message: Some(\"" ++ name ++ "\") \x7d)"

def otherDebug (reason : String) : String := "Other(\"" ++ reason ++ "\")"

def debug : DispatchError → String
  | badOrigin => "BadOrigin"
  | token e => "Token(" ++ e.name ++ ")"
  | arithmetic e => "Arithmetic(" ++ e.name ++ ")"
  | layerLimitReached => "Transactional(LimitReached)"
  | assets e => moduleDebug 2 e.code e.name
  | fees e => moduleDebug 3 e.code e.name
  | swaps e => moduleDebug 4 e.code e.name
  | pool e => otherDebug e.message
  | communityPoolUnavailable => otherDebug "community pool unavailable"
  | other reason => otherDebug reason

end DispatchError

def Fault.message : Fault → String
  | zeroDivisor => "attempt to divide by zero"
  | zeroRemainderDivisor => "attempt to calculate the remainder with a divisor of zero"
  | subtractionOverflow => "attempt to subtract with overflow"
  | additionOverflow => "attempt to add with overflow"
  | tooManyFeeTokens => "Fee tokens exceed max limit"
  | duplicateFeeToken a => "Duplicate fee token " ++ a.debug
  | unconvertibleFeeToken t e =>
    "Fee token " ++ t.asset.debug ++ " cannot be converted through pool " ++ toString t.pool ++
      ": " ++ e.debug
  | takerFeeTooHigh => "Taker fee must be below 100%"
  | mintRefused e => "called `Result::unwrap()` on an `Err` value: " ++ e.debug
  | balanceBelowMinimum =>
    "the balance of any account should always be at least the existential deposit."
  | duplicateBalance => "duplicate balances in genesis."
  | duplicateToken => "Asset id already in use"
  | zeroMinBalance => "Min balance should not be zero"
  | genesisMintRefused => "assertion failed: result.is_ok()"
  | setupFailed what e => what ++ ": " ++ e.debug
  | routeInTooLong hops =>
    "Route within bounds: [" ++ ", ".intercalate (hops.map HopIn.debug) ++ "]"
  | routeOutTooLong hops =>
    "Route within bounds: [" ++ ", ".intercalate (hops.map HopOut.debug) ++ "]"

def Failure.report : Failure → Report
  | error e => e.report
  | fault f => ⟨"Panic", some f.message⟩

/-- A value, or the reason why there is none. -/
abbrev Answer := Except Failure

def refuse {α : Type} (e : DispatchError) : Answer α := .error (.error e)

def halt {α : Type} (f : Fault) : Answer α := .error (.fault f)

/-- Subtraction that must not pass below zero. -/
def Word.sub {w : Nat} (a b : Word w) : Answer (Word w) :=
  if b ≤ a then .ok (a.subSat b) else halt .subtractionOverflow

end SwapFees
