import SwapFees.Ledger.Native
import SwapFees.Ledger.Tokens

namespace SwapFees.Ledger

def balance (l : Ledger) (who : AccountId) (asset : Asset) : Amount :=
  match asset.id? with
  | none => l.free who
  | some id => l.holding id who

/-- Whether a deposit of `c` into `who` would succeed, minimum balance included. -/
def canReceive (l : Ledger) (who : AccountId) (c : Coin) : Bool :=
  match c.asset.id? with
  | none => (l.checkDeposit who c.amount).isOk
  | some id => (l.checkIncrease id who c.amount false).isOk

def mint (l : Ledger) (who : AccountId) (c : Coin) : LedgerResult Ledger :=
  match c.asset.id? with
  | none => l.mintNative who c.amount
  | some id => l.mintToken id who c.amount

/-- Burns a coin of an account that need not survive; answers the amount counted as burned. -/
def burn (l : Ledger) (who : AccountId) (c : Coin) : LedgerResult (Amount × Ledger) :=
  match c.asset.id? with
  | none => (l.burnNative who c.amount).map fun l' => (c.amount, l')
  | some id => l.burnToken id who c.amount

def transfer (l : Ledger) (source dest : AccountId) (c : Coin) (p : Preservation) :
    LedgerResult Ledger :=
  match c.asset.id? with
  | none => l.transferNative source dest c.amount p
  | some id => l.transferToken id source dest c.amount p

end SwapFees.Ledger
