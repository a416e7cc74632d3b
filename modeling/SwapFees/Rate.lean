import SwapFees.Failure

namespace SwapFees

def million : Nat := 1000000

/-- A fraction in parts per million. -/
structure Rate where
  parts : Nat
  le_million : parts ≤ million
  deriving DecidableEq

namespace Rate

def ofParts (n : Nat) : Rate := ⟨min n million, Nat.min_le_right ..⟩

def ofParts? (n : Nat) : Option Rate := if h : n ≤ million then some ⟨n, h⟩ else none

def percent (n : Nat) : Rate := ofParts (n * 10000)

def zero : Rate := ⟨0, by decide⟩

def one : Rate := ⟨million, Nat.le_refl _⟩

instance : Inhabited Rate := ⟨zero⟩

def isZero (r : Rate) : Bool := r.parts = 0

/-- What `r` leaves of the whole. -/
def complement (r : Rate) : Rate := ⟨million - r.parts, Nat.sub_le ..⟩

theorem scaled_le (r : Rate) (n : Nat) : n * r.parts / million ≤ n := by
  refine Nat.div_le_of_le_mul ?_
  rw [Nat.mul_comm million]
  exact Nat.mul_le_mul_left n r.le_million

/-- The fraction `r` of an amount, rounded down. -/
def mulFloor (r : Rate) (x : Amount) : Amount :=
  ⟨x.toNat * r.parts / million, Nat.lt_of_le_of_lt (r.scaled_le x.toNat) x.isLt⟩

/-- The least amount, short of saturation, whose fraction `r` is at least `x`. -/
def divCeil (r : Rate) (x : Amount) : Answer Amount :=
  if r.parts = 0 then halt .zeroRemainderDivisor
  else .ok (Word.saturate ((x.toNat * million + r.parts - 1) / r.parts))

@[simp] theorem toNat_mulFloor (r : Rate) (x : Amount) :
    (r.mulFloor x).toNat = x.toNat * r.parts / million := rfl

@[simp] theorem parts_complement (r : Rate) : r.complement.parts = million - r.parts := rfl

end Rate

/-- A price in units of 10^-18. -/
abbrev Price := Word 128

namespace Price

def unit : Nat := 10 ^ (18 : Nat)

def one : Price := Word.saturate unit

/-- The quotient of two amounts, rounded down. -/
def ofRatio? (n d : Amount) : Option Price :=
  if d = 0 then none else Word.ofNat? (n.toNat * unit / d.toNat)

/-- The value of an amount at price `p`, rounded down. -/
def value (p : Price) (x : Amount) : Amount := Word.saturate (p.toNat * x.toNat / unit)

end Price

end SwapFees
