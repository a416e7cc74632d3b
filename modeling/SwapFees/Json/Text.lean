namespace SwapFees.Json

/-- A string as JSON writes it. One that holds half of a surrogate pair stands for no text. -/
inductive Text
  | proper (s : String)
  | broken
  deriving DecidableEq

namespace Text

/-- A character as it stands, or a 16-bit unit written in hexadecimal. -/
inductive Piece
  | char (c : Char)
  | unit (n : Nat)

def isHigh (n : Nat) : Bool := 0xD800 ≤ n ∧ n < 0xDC00

def isLow (n : Nat) : Bool := 0xDC00 ≤ n ∧ n < 0xE000

/-- Units outside the surrogates are characters, and so are a high and a low one together. -/
def join : List Piece → Option (List Char)
  | [] => some []
  | .char c :: ps => (join ps).map (c :: ·)
  | .unit n :: ps =>
    if isLow n then none
    else if isHigh n then
      match ps with
      | .unit m :: ps =>
        if isLow m then
          (join ps).map (Char.ofNat (0x10000 + (n - 0xD800) * 0x400 + (m - 0xDC00)) :: ·)
        else none
      | _ => none
    else (join ps).map (Char.ofNat n :: ·)

def ofPieces (ps : List Piece) : Text :=
  match join ps with
  | none => broken
  | some cs => proper (String.ofList cs)

def hexDigit (n : Nat) : Char := "0123456789abcdef".toList.getD n '0'

def hexValue? (c : Char) : Option Nat :=
  if '0'.toNat ≤ c.toNat ∧ c.toNat ≤ '9'.toNat then some (c.toNat - '0'.toNat)
  else if 'a'.toNat ≤ c.toNat ∧ c.toNat ≤ 'f'.toNat then some (c.toNat - 'a'.toNat + 10)
  else if 'A'.toNat ≤ c.toNat ∧ c.toNat ≤ 'F'.toNat then some (c.toNat - 'A'.toNat + 10)
  else none

def unit? (a b c d : Char) : Option Nat := do
  return ((← hexValue? a) * 16 + (← hexValue? b)) * 256 + (← hexValue? c) * 16 + (← hexValue? d)

/-- The character that a letter after a backslash stands for. -/
def escaped? : Char → Option Char
  | '"' => some '"'
  | '\\' => some '\\'
  | '/' => some '/'
  | 'b' => some '\x08'
  | 'f' => some '\x0c'
  | 'n' => some '\n'
  | 'r' => some '\r'
  | 't' => some '\t'
  | _ => none

/-- Reads up to the closing quote and past it. -/
def readPieces : List Char → Option (List Piece × List Char)
  | [] => none
  | '"' :: cs => some ([], cs)
  | '\\' :: 'u' :: a :: b :: c :: d :: cs => do
    let n ← unit? a b c d
    let (ps, cs) ← readPieces cs
    return (.unit n :: ps, cs)
  | '\\' :: c :: cs => do
    let e ← escaped? c
    let (ps, cs) ← readPieces cs
    return (.char e :: ps, cs)
  | c :: cs =>
    if c.toNat < 0x20 then none
    else do
      let (ps, cs) ← readPieces cs
      return (.char c :: ps, cs)

/-- Reads a string whose opening quote is already read. -/
def read (cs : List Char) : Option (Text × List Char) :=
  (readPieces cs).map fun (ps, cs) => (ofPieces ps, cs)

def escape (c : Char) : List Char :=
  if c = '"' then ['\\', '"']
  else if c = '\\' then ['\\', '\\']
  else if c = '\x08' then ['\\', 'b']
  else if c = '\x0c' then ['\\', 'f']
  else if c = '\n' then ['\\', 'n']
  else if c = '\r' then ['\\', 'r']
  else if c = '\t' then ['\\', 't']
  else if c.toNat < 0x20 then
    ['\\', 'u', '0', '0', hexDigit (c.toNat / 16), hexDigit (c.toNat % 16)]
  else [c]

def render : Text → List Char
  | proper s => '"' :: (s.toList.flatMap escape ++ ['"'])
  | broken => "\"\\ud800\"".toList

end Text

end SwapFees.Json
