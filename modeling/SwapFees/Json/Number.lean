namespace SwapFees.Json

abbrev Digit := Fin 10

def Digit.char (d : Digit) : Char := Char.ofNat ('0'.toNat + d.val)

def digit? (c : Char) : Option Digit :=
  if h : '0'.toNat ≤ c.toNat ∧ c.toNat ≤ '9'.toNat then
    some ⟨c.toNat - '0'.toNat, by
      have : '0'.toNat = 48 := rfl
      have : '9'.toNat = 57 := rfl
      omega⟩
  else none

/-- The digits of `n`, the highest first and never a needless zero. -/
def decimal (n : Nat) : List Digit :=
  if h : n < 10 then [⟨n, h⟩] else decimal (n / 10) ++ [⟨n % 10, Nat.mod_lt n (by decide)⟩]

def ofDecimal (ds : List Digit) : Nat := ds.foldl (fun n d => 10 * n + d.val) 0

structure Exponent where
  mark : Bool
  /-- The sign, where one is written: true for minus. -/
  sign : Option Bool
  first : Digit
  rest : List Digit
  deriving DecidableEq

/-- A number as written. Without a point the fraction is empty. -/
structure Number where
  negative : Bool
  whole : Nat
  fraction : List Digit
  exponent : Option Exponent
  deriving DecidableEq

namespace Number

def ofNat (n : Nat) : Number := ⟨false, n, [], none⟩

/-- A number written as a plain natural. -/
def natural? (n : Number) : Option Nat :=
  if n = ofNat n.whole then some n.whole else none

def renderFraction : List Digit → List Char
  | [] => []
  | ds => '.' :: ds.map Digit.char

def renderExponent : Option Exponent → List Char
  | none => []
  | some e =>
    (if e.mark then 'E' else 'e') ::
      ((match e.sign with
        | none => []
        | some true => ['-']
        | some false => ['+']) ++
        (e.first :: e.rest).map Digit.char)

def render (n : Number) : List Char :=
  (if n.negative then ['-'] else []) ++ (decimal n.whole).map Digit.char ++
    renderFraction n.fraction ++ renderExponent n.exponent

/-- The longest run of digits, and what follows it. -/
def readDigits : List Char → List Digit × List Char
  | [] => ([], [])
  | c :: cs =>
    match digit? c with
    | none => ([], c :: cs)
    | some d => (d :: (readDigits cs).1, (readDigits cs).2)

def readSign : List Char → Option Bool × List Char
  | '-' :: cs => (some true, cs)
  | '+' :: cs => (some false, cs)
  | cs => (none, cs)

/-- No digit may follow a zero. -/
def readWhole (cs : List Char) : Option (Nat × List Char) :=
  match readDigits cs with
  | ([], _) => none
  | (d :: ds, cs) => if d = 0 ∧ ds ≠ [] then none else some (ofDecimal (d :: ds), cs)

def readFraction : List Char → Option (List Digit × List Char)
  | '.' :: cs =>
    match readDigits cs with
    | ([], _) => none
    | (ds, cs) => some (ds, cs)
  | cs => some ([], cs)

def readExponentBody (mark : Bool) (cs : List Char) : Option (Option Exponent × List Char) :=
  let (sign, cs) := readSign cs
  match readDigits cs with
  | ([], _) => none
  | (d :: ds, cs) => some (some ⟨mark, sign, d, ds⟩, cs)

def readExponent : List Char → Option (Option Exponent × List Char)
  | 'e' :: cs => readExponentBody false cs
  | 'E' :: cs => readExponentBody true cs
  | cs => some (none, cs)

def read (cs : List Char) : Option (Number × List Char) := do
  let (negative, cs) := match cs with
    | '-' :: cs => (true, cs)
    | cs => (false, cs)
  let (whole, cs) ← readWhole cs
  let (fraction, cs) ← readFraction cs
  let (exponent, cs) ← readExponent cs
  return (⟨negative, whole, fraction, exponent⟩, cs)

end Number

end SwapFees.Json
