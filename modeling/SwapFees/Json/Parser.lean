import SwapFees.Json.Basic

namespace SwapFees.Json

def isBlank (c : Char) : Bool := c = ' ' ∨ c = '\t' ∨ c = '\n' ∨ c = '\r'

def skipBlanks (cs : List Char) : List Char := cs.dropWhile isBlank

mutual

/-- The number bounds how deep values may nest and how many items may follow each other. Twice the
length of the text is always enough. -/
def readValue : Nat → List Char → Option (Json × List Char)
  | 0, _ => none
  | n + 1, cs =>
    match skipBlanks cs with
    | 'n' :: 'u' :: 'l' :: 'l' :: cs => some (null, cs)
    | 't' :: 'r' :: 'u' :: 'e' :: cs => some (bool true, cs)
    | 'f' :: 'a' :: 'l' :: 's' :: 'e' :: cs => some (bool false, cs)
    | '"' :: cs => (Text.read cs).map fun (t, cs) => (text t, cs)
    | '[' :: cs =>
      match skipBlanks cs with
      | ']' :: cs => some (array [], cs)
      | cs => (readItems n cs).map fun (vs, cs) => (array vs, cs)
    | '\x7b' :: cs =>
      match skipBlanks cs with
      | '\x7d' :: cs => some (object [], cs)
      | cs => (readFields n cs).map fun (fs, cs) => (object fs, cs)
    | cs => (Number.read cs).map fun (m, cs) => (number m, cs)

/-- Reads one item or more, up to the closing bracket and past it. -/
def readItems : Nat → List Char → Option (List Json × List Char)
  | 0, _ => none
  | n + 1, cs => do
    let (v, cs) ← readValue n cs
    match skipBlanks cs with
    | ',' :: cs =>
      let (vs, cs) ← readItems n cs
      return (v :: vs, cs)
    | ']' :: cs => return ([v], cs)
    | _ => none

def readFields : Nat → List Char → Option (List (Text × Json) × List Char)
  | 0, _ => none
  | n + 1, cs =>
    match skipBlanks cs with
    | '"' :: cs => do
      let (k, cs) ← Text.read cs
      match skipBlanks cs with
      | ':' :: cs =>
        let (v, cs) ← readValue n cs
        match skipBlanks cs with
        | ',' :: cs =>
          let (fs, cs) ← readFields n cs
          return ((k, v) :: fs, cs)
        | '\x7d' :: cs => return ([(k, v)], cs)
        | _ => none
      | _ => none
    | _ => none

end

def parse (cs : List Char) : Option Json := do
  let (j, cs) ← readValue (2 * cs.length + 1) cs
  if (skipBlanks cs).isEmpty then return j else none

def ofText? (s : String) : Option Json := parse s.toList

end SwapFees.Json
