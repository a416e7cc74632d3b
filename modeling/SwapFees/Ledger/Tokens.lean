import SwapFees.Ledger.Basic

namespace SwapFees.Ledger

def holding? (l : Ledger) (id : AssetId) (who : AccountId) : Option Amount :=
  (l.tokens.get? id).bind fun t => t.holdings.get? who

def holding (l : Ledger) (id : AssetId) (who : AccountId) : Amount := (l.holding? id who).getD 0

def supply (l : Ledger) (id : AssetId) : Amount := ((l.tokens.get? id).map Token.supply).getD 0

/-- Each holding takes one reference on its account, a sufficient or a consumer. -/
def takeReference (l : Ledger) (t : Token) (who : AccountId) : Ledger :=
  let a := l.account who
  l.putAccount who <|
    if t.sufficient then { a with sufficients := a.sufficients + 1 }
    else { a with consumers := a.consumers + 1 }

def giveReference (l : Ledger) (t : Token) (who : AccountId) : Ledger :=
  let a := l.account who
  l.putAccount who <|
    if t.sufficient then { a with sufficients := a.sufficients - 1 }
    else { a with consumers := a.consumers - 1 }

/-- Whether `who` can hold `n` more of a token, and with `minted` whether the supply can too. -/
def checkIncrease (l : Ledger) (id : AssetId) (who : AccountId) (n : Amount) (minted : Bool) :
    LedgerResult Token :=
  match l.tokens.get? id with
  | none => .error (.token .unknownAsset)
  | some t =>
    if minted ∧ t.supply.add? n = none then .error (.arithmetic .overflow)
    else match t.holdings.get? who with
      | some b => if b.add? n = none then .error (.arithmetic .overflow) else .ok t
      | none =>
        if n < t.minBalance then .error (.token .belowMinimum)
        else if ¬ t.sufficient ∧ ¬ (l.account who).hasRoom then .error (.token .cannotCreate)
        else .ok t

/-- Gives `who` a holding of `n` more. -/
def addHolding (l : Ledger) (id : AssetId) (t : Token) (who : AccountId) (n : Amount) : Ledger :=
  match t.holdings.get? who with
  | some b => l.putToken id { t with holdings := t.holdings.insert who (b.addSat n) }
  | none => (l.takeReference t who).putToken id { t with holdings := t.holdings.insert who n }

/-- Takes `n` of a holding of `b`, or all of it if the rest is under the minimum. -/
def takeHolding (l : Ledger) (id : AssetId) (t : Token) (who : AccountId) (b n : Amount) :
    Amount × Ledger :=
  let rest := b.subSat n
  if rest < t.minBalance then
    (b, (l.giveReference t who).putToken id { t with holdings := t.holdings.erase who })
  else
    (n, l.putToken id { t with holdings := t.holdings.insert who rest })

def increase (l : Ledger) (id : AssetId) (who : AccountId) (n : Amount) : LedgerResult Ledger :=
  if n = 0 then .ok l
  else match l.checkIncrease id who n true with
    | .error e => .error e
    | .ok t => if t.frozen then .error (.assets .notLive) else .ok (l.addHolding id t who n)

def setSupply (l : Ledger) (id : AssetId) (n : Amount) : Ledger :=
  match l.tokens.get? id with
  | none => l
  | some t => l.putToken id { t with supply := n }

def mintToken (l : Ledger) (id : AssetId) (who : AccountId) (n : Amount) : LedgerResult Ledger :=
  match (l.supply id).add? n with
  | none => .error (.arithmetic .overflow)
  | some supply => (l.increase id who n).map fun l' => l'.setSupply id supply

/-- What may be taken of a holding that need not survive. -/
def reducibleToken (l : Ledger) (id : AssetId) (who : AccountId) : Amount :=
  match l.tokens.get? id with
  | none => 0
  | some t =>
    match t.holdings.get? who with
    | none => 0
    | some b => if t.frozen then 0 else if b ≤ t.supply then b else t.supply

/-- Burns `n` and with it a rest under the minimum; answers what was burned. -/
def burnToken (l : Ledger) (id : AssetId) (who : AccountId) (n : Amount) :
    LedgerResult (Amount × Ledger) :=
  if l.reducibleToken id who < n then .error (.token .fundsUnavailable)
  else if n = 0 then .ok (0, l)
  else match l.tokens.get? id with
    | none => .error (.token .unknownAsset)
    | some t =>
      let (burned, l') := l.takeHolding id t who (l.holding id who) n
      .ok (burned, l'.setSupply id (t.supply.subSat burned))

/-- The receiving side is checked without the supply before anything moves; a supply too large for
the check on arrival loses the amount. -/
def transferToken (l : Ledger) (id : AssetId) (source dest : AccountId) (n : Amount)
    (p : Preservation) : LedgerResult Ledger :=
  match l.tokens.get? id with
  | none => .error (.token .unknownAsset)
  | some t =>
    if t.supply < n then .error (.arithmetic .underflow)
    else if t.frozen then .error (.token .frozen)
    else match t.holdings.get? source with
      | none => .error (.token .fundsUnavailable)
      | some b =>
        if b < n then .error (.token .fundsUnavailable)
        else if b.subSat n < t.minBalance ∧ p ≠ .expendable then .error (.token .notExpendable)
        else match l.checkIncrease id dest n false with
          | .error e => .error e
          | .ok _ =>
            if source = dest then .ok l
            else
              let l' := (l.takeHolding id t source b n).2
              .ok ((l'.increase id dest n).toOption.getD l')

end SwapFees.Ledger
