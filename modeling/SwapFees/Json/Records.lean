import SwapFees.Genesis
import SwapFees.Json.Parser

namespace SwapFees

namespace Json

def word? {w : Nat} : Json → Option (Word w)
  | number n => n.natural?.bind Word.ofNat?
  | _ => none

def optional? {α : Type} (f : Json → Option α) : Json → Option (Option α)
  | null => some none
  | j => (f j).map some

def named (name : String) (fields : List (Text × Json)) : List Json :=
  (fields.filter fun f => f.1 = .proper name).map Prod.snd

def one? : List Json → Option Json
  | [v] => some v
  | _ => none

/-- A field that must stand exactly once. -/
def field? {α : Type} (f : Json → Option α) (name : String) (fields : List (Text × Json)) :
    Option α :=
  (one? (named name fields)).bind f

/-- A field that may be missing or null. -/
def optionalField? {α : Type} (f : Json → Option α) (name : String)
    (fields : List (Text × Json)) : Option (Option α) :=
  if (named name fields).isEmpty then some none else field? (optional? f) name fields

/-- Whether the name of every field is text, as it must be to be recognised. -/
def readable (fields : List (Text × Json)) : Bool := fields.all fun f => f.1 ≠ .broken

def onlyNamed (names : List String) (fields : List (Text × Json)) : Bool :=
  fields.all fun f => names.any fun name => f.1 = .proper name

/-- A record of two fields; others are ignored. -/
def record? {α β γ : Type} (a : String) (f : Json → Option α) (b : String) (g : Json → Option β)
    (make : α → β → γ) : Json → Option γ
  | array [x, y] => do return make (← f x) (← g y)
  | object fields =>
    if readable fields then do return make (← field? f a fields) (← field? g b fields) else none
  | _ => none

end Json

open Json

namespace Asset

def toJson : Asset → Json
  | native => str "Native"
  | issued id => object [(.proper "Local", nat id.toNat)]
  | bridged id => object [(.proper "Foreign", nat id.toNat)]

def ofJson? : Json → Option Asset
  | .text (.proper name) => if name = "Native" then some native else none
  | object [(.proper name, v)] =>
    if name = "Native" then (match v with | null => some native | _ => none)
    else if name = "Local" then v.word?.map issued
    else if name = "Foreign" then v.word?.map bridged
    else none
  | _ => none

end Asset

namespace Coin

def toJson (c : Coin) : Json :=
  object [(.proper "asset", c.asset.toJson), (.proper "amount", nat c.amount.toNat)]

def ofJson? : Json → Option Coin := record? "asset" Asset.ofJson? "amount" word? Coin.mk

end Coin

namespace FeeToken

def toJson (t : FeeToken) : Json :=
  object [(.proper "denom", t.asset.toJson), (.proper "pool_id", nat t.pool.toNat)]

def ofJson? : Json → Option FeeToken := record? "denom" Asset.ofJson? "pool_id" word? FeeToken.mk

def ofPair? : Json → Option FeeToken
  | array [a, p] => do return ⟨← Asset.ofJson? a, ← p.word?⟩
  | _ => none

def ofPairs? : Json → Option (List FeeToken)
  | array items => items.mapM ofPair?
  | _ => none

end FeeToken

def FeeGenesis.ofJson? : Json → Option FeeGenesis
  | array [base, tokens] => do return ⟨← optional? Asset.ofJson? base, ← FeeToken.ofPairs? tokens⟩
  | object fields =>
    if onlyNamed ["baseDenom", "feeTokens"] fields then do
      return ⟨← optionalField? Asset.ofJson? "baseDenom" fields,
        ← field? FeeToken.ofPairs? "feeTokens" fields⟩
    else none
  | _ => none

/-- The parts of the taker fee, which may be more than a million here. -/
def SwapGenesis.partsOfJson? : Json → Option (Option (Word 32))
  | array [fee] => optional? word? fee
  | object fields =>
    if onlyNamed ["takerFee"] fields then optionalField? word? "takerFee" fields else none
  | _ => none

end SwapFees
