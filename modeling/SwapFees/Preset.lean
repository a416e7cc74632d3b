import SwapFees.Genesis

namespace SwapFees

namespace Default

/-- The name of the fee module, from which its account is derived. -/
def feeModule : String := "py/txfee"

def takerFee : Rate := Rate.percent 1

def maxFeeTokens : Word 32 := 8

def maxVisits : Word 32 := 4

def communityPool : AccountId := 777

end Default

def Settings.standard : Settings where
  feeAccount := moduleAccount Default.feeModule.toUTF8.toList
  communityPool := Default.communityPool
  maxFeeTokens := Default.maxFeeTokens
  maxVisits := Default.maxVisits
  emitConversions := true
  policy := .communityPool
  communityPoolFails := false
  ownersDeployed := true
  owners := ∅
  routerFailure := none

/-- Nothing but the defaults. -/
def Genesis.standard : Genesis where
  minBalance := 1
  defaultBase := .native
  defaultTakerFee := Default.takerFee
  balances := []
  tokens := []
  holdings := []
  pools := []
  fees := ⟨none, []⟩
  swaps := ⟨none⟩

namespace Preset

def initialBalance : Amount := 1000000000

/-- Accounts and sufficient tokens numbered from 1 to `n`; account 1 holds the tokens. -/
def genesis (n : Nat) : Genesis :=
  let numbers := List.range' 1 n
  { Genesis.standard with
    balances := numbers.map fun i => (Word.saturate i, initialBalance)
    tokens := numbers.map fun i => (Word.saturate i, { sufficient := true, minBalance := 1 })
    holdings := numbers.map fun i => (Word.saturate i, 1, initialBalance) }

def settlementGenesis : Genesis := genesis 3

def exchangeGenesis : Genesis := genesis 4

/-- Accounts 3 and 4 are rewarded for trades of tokens 2 and 3. -/
def exchangeSettings : Settings :=
  { Settings.standard with owners := .ofList [(.issued 2, 3), (.issued 3, 4)] }

end Preset

end SwapFees
