import SwapFees.Bank
import SwapFees.Conversion

namespace SwapFees.Settlement

open Effect

/-- Disposes of a fee held by `source`; answers where it went. -/
def dispose (how : Disposition) (source : AccountId) (fee : Coin) : Effect Disposition := do
  match how with
  | .burned =>
    Bank.burn source fee
    return .burned
  | .communityPool =>
    let s ← read
    if s.communityPoolFails then fail .communityPoolUnavailable
    else
      Bank.transfer source s.communityPool fee .expendable
      return .communityPool

/-- Pays half of `c` to the beneficiary. A share that it cannot hold is not paid. -/
def payShare (beneficiary : Option AccountId) (c : Coin) : Effect (Option Coin) := do
  match beneficiary with
  | none => return none
  | some who =>
    let share := c.withAmount c.amount.half
    if share.isZero then return none
    else if (← chain).ledger.canReceive who share then
      Bank.transfer (← read).feeAccount who share .expendable
      return some share
    else
      report (.shareRefused who share)
      return none

/-- Settles a fee held by the fee account; `payer` is only told in the event. -/
def settle (fee : Coin) (beneficiary payer : Option AccountId) : Effect Unit := do
  let s ← read
  match ← Conversion.convert (← chain).base fee with
  | .unswappable =>
    let how ← dispose s.policy s.feeAccount fee
    report (.disposed fee how)
    deposit (.feeCharged payer fee beneficiary none how.isCommunityPool)
  | .converted c =>
    let revenue ← payShare beneficiary c
    let burned := match revenue with
      | none => c
      | some share => c.withAmount (c.amount.subSat share.amount)
    Bank.burn s.feeAccount burned
    deposit (.feeCharged payer burned beneficiary revenue false)

/-- Settles a fee that the fee account already holds. -/
def charge (fee : Coin) (beneficiary payer : Option AccountId) : Effect Unit :=
  if fee.isZero then pure () else settle fee beneficiary payer

/-- Moves a fee from `payer`, which it must leave alive, to the fee account and settles it. -/
def chargeFrom (payer : AccountId) (fee : Coin) (beneficiary : Option AccountId) : Effect Unit := do
  if fee.isZero then return
  else
    Bank.transfer payer (← read).feeAccount fee .preserve
    settle fee beneficiary (some payer)

end SwapFees.Settlement
