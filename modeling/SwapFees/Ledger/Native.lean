import SwapFees.Ledger.Basic

namespace SwapFees.Ledger

def free (l : Ledger) (who : AccountId) : Amount := (l.account who).free

/-- A balance of at least `minBalance` holds one provider; a smaller one is dust, which leaves the
issuance. -/
def setFree (l : Ledger) (who : AccountId) (n : Amount) : Ledger :=
  let a := l.account who
  let held := l.minBalance ≤ a.free
  if l.minBalance ≤ n then
    l.putAccount who { a with free := n, providers := if held then a.providers else a.providers + 1 }
  else
    { l.putAccount who { a with free := 0, providers := if held then a.providers - 1 else a.providers }
      with issuance := l.issuance.subSat n }

/-- What a payment under `p` may take. -/
def reducible (l : Ledger) (who : AccountId) (p : Preservation) : Amount :=
  let a := l.account who
  let keep : Bool := match p with
    | .preserve => true
    | .protect => a.free ≠ 0 ∧ a.providers = 1
    | .expendable => a.free ≠ 0 ∧ ¬ a.canDropProvider
  if keep then a.free.subSat l.minBalance else a.free

def checkDeposit (l : Ledger) (who : AccountId) (n : Amount) : LedgerResult Unit :=
  if n = 0 then .ok ()
  else match (l.free who).add? n with
    | none => .error (.arithmetic .overflow)
    | some total => if total < l.minBalance then .error (.token .belowMinimum) else .ok ()

def mintNative (l : Ledger) (who : AccountId) (n : Amount) : LedgerResult Ledger :=
  match l.issuance.add? n, (l.free who).add? n with
  | some issuance, some total =>
    if total < l.minBalance then .error (.token .belowMinimum)
    else .ok { l.setFree who total with issuance }
  | _, _ => .error (.arithmetic .overflow)

def burnNative (l : Ledger) (who : AccountId) (n : Amount) : LedgerResult Ledger :=
  if l.reducible who .expendable < n then .error (.token .fundsUnavailable)
  else
    let l' := l.setFree who ((l.free who).subSat n)
    .ok { l' with issuance := l'.issuance.subSat n }

def transferNative (l : Ledger) (source dest : AccountId) (n : Amount) (p : Preservation) :
    LedgerResult Ledger :=
  if l.issuance < n then .error (.arithmetic .underflow)
  else if l.free source < n then .error (.token .fundsUnavailable)
  else if l.reducible source .expendable < n then .error (.token .frozen)
  else if (l.free source).subSat n < l.minBalance ∧ p ≠ .expendable then .error (.token .notExpendable)
  else match l.checkDeposit dest n with
    | .error e => .error e
    | .ok () =>
      if source = dest then .ok l
      else
        let l' := l.setFree source ((l.free source).subSat n)
        .ok (l'.setFree dest ((l'.free dest).addSat n))

end SwapFees.Ledger
