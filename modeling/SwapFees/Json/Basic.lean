import SwapFees.Json.Number
import SwapFees.Json.Text

namespace SwapFees

/-- A JSON document. An object keeps its fields as written, repeated ones too. -/
inductive Json
  | null
  | bool (b : Bool)
  | number (n : Json.Number)
  | text (t : Json.Text)
  | array (items : List Json)
  | object (fields : List (Json.Text × Json))
  deriving Inhabited

namespace Json

def str (s : String) : Json := text (.proper s)

def nat (n : Nat) : Json := number (.ofNat n)

mutual

/-- The document without blanks. -/
def render : Json → List Char
  | null => "null".toList
  | bool true => "true".toList
  | bool false => "false".toList
  | number n => n.render
  | text t => t.render
  | array items => '[' :: renderItems items
  | object fields => '\x7b' :: renderFields fields

/-- Items with commas between them, and the closing bracket. -/
def renderItems : List Json → List Char
  | [] => [']']
  | [v] => v.render ++ [']']
  | v :: vs => v.render ++ ',' :: renderItems vs

def renderFields : List (Text × Json) → List Char
  | [] => ['\x7d']
  | [(k, v)] => k.render ++ ':' :: (v.render ++ ['\x7d'])
  | (k, v) :: fs => k.render ++ ':' :: (v.render ++ ',' :: renderFields fs)

end

def toText (j : Json) : String := String.ofList j.render

end Json

end SwapFees
