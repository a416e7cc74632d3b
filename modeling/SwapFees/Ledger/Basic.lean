import SwapFees.Failure

namespace SwapFees

/-- Native balance of an account and the references that keep it alive. -/
structure Account where
  providers : Nat := 0
  consumers : Nat := 0
  sufficients : Nat := 0
  free : Amount := 0
  deriving DecidableEq, Inhabited

/-- A token. Holding a sufficient one keeps an account alive; holding another one leans on it. -/
structure Token where
  sufficient : Bool
  minBalance : Amount
  supply : Amount := 0
  frozen : Bool := false
  holdings : SortedMap AccountId Amount := ∅
  deriving DecidableEq

structure Ledger where
  /-- The least native balance that an account keeps. -/
  minBalance : Amount
  issuance : Amount
  accounts : SortedMap AccountId Account
  tokens : SortedMap AssetId Token
  deriving DecidableEq

/-- How far a payment may draw an account down. -/
inductive Preservation
  | preserve
  | protect
  | expendable
  deriving DecidableEq

abbrev LedgerResult := Except DispatchError

/-- An account leaning on its provider may take on at most this many references. -/
def maxConsumers : Nat := 16

def Account.canDropProvider (a : Account) : Bool := a.consumers = 0 ∨ 1 < a.providers

/-- Two more references must fit, so that one always stays free. -/
def Account.hasRoom (a : Account) : Bool := a.providers ≠ 0 ∧ a.consumers + 2 ≤ maxConsumers

namespace Ledger

def account (l : Ledger) (who : AccountId) : Account := (l.accounts.get? who).getD {}

/-- An account that nothing keeps alive is gone. -/
def putAccount (l : Ledger) (who : AccountId) (a : Account) : Ledger :=
  if a.providers = 0 ∧ a.sufficients = 0 then { l with accounts := l.accounts.erase who }
  else { l with accounts := l.accounts.insert who a }

def addProvider (l : Ledger) (who : AccountId) : Ledger :=
  let a := l.account who
  l.putAccount who { a with providers := a.providers + 1 }

def putToken (l : Ledger) (id : AssetId) (t : Token) : Ledger :=
  { l with tokens := l.tokens.insert id t }

def freeze (l : Ledger) (id : AssetId) : LedgerResult Ledger :=
  match l.tokens.get? id with
  | none => .error (.assets .unknown)
  | some t => if t.frozen then .error (.assets .notLive) else .ok (l.putToken id { t with frozen := true })

def thaw (l : Ledger) (id : AssetId) : LedgerResult Ledger :=
  match l.tokens.get? id with
  | none => .error (.assets .unknown)
  | some t => if t.frozen then .ok (l.putToken id { t with frozen := false }) else .error (.assets .notFrozen)

end Ledger

end SwapFees
