import SwapFees.Word

namespace SwapFees

/-- Execution time and proof size, each saturating on its own. -/
structure Weight where
  time : Word 64
  size : Word 64
  deriving DecidableEq

namespace Weight

def zero : Weight := ⟨0, 0⟩

def top : Weight := ⟨Word.top, Word.top⟩

def add (a b : Weight) : Weight := ⟨a.time.addSat b.time, a.size.addSat b.size⟩

instance : Add Weight := ⟨add⟩

def times (w : Weight) (n : Word 32) : Weight :=
  ⟨Word.saturate (w.time.toNat * n.toNat), Word.saturate (w.size.toNat * n.toNat)⟩

/-- `a.fits b`: neither component of `a` exceeds that of `b`. -/
def fits (a b : Weight) : Bool := a.time ≤ b.time ∧ a.size ≤ b.size

/-- Time of `n` database reads. -/
def reads (n : Nat) : Weight := ⟨Word.saturate (25000000 * n), 0⟩

/-- Time of `n` database writes. -/
def writes (n : Nat) : Weight := ⟨Word.saturate (100000000 * n), 0⟩

end Weight

/-- What each operation is charged. Counted ones are given the registry's capacity or the number of
hops. -/
structure Schedule where
  setBase : Word 32 → Weight
  setFeeToken : Weight
  removeFeeToken : Weight
  visit : Weight
  burnResidue : Weight
  swapIn : Word 32 → Weight
  swapOut : Word 32 → Weight
  setTakerFee : Weight

namespace Schedule

open Weight

/-- Database time is charged for swaps and the taker fee only, and not by the hop. -/
def flat : Schedule where
  setBase n := ⟨20000000, 2000⟩ + (⟨8000000, 1500⟩ : Weight).times n
  setFeeToken := ⟨30000000, 3000⟩
  removeFeeToken := ⟨20000000, 2000⟩
  visit := ⟨90000000, 7000⟩
  burnResidue := ⟨40000000, 3500⟩
  swapIn n := ⟨160000000, 12000⟩ + (⟨45000000, 4000⟩ : Weight).times n + reads 12 + writes 9
  swapOut n := ⟨175000000, 12000⟩ + (⟨52000000, 4000⟩ : Weight).times n + reads 12 + writes 9
  setTakerFee := ⟨9000000, 1500⟩ + reads 1 + writes 1

/-- Database time is charged for every operation. -/
def metered : Schedule where
  setBase n := flat.setBase n + reads 1 + reads (2 * n.toNat) + writes 1 + writes (2 * n.toNat)
  setFeeToken := flat.setFeeToken + reads 4 + writes 2
  removeFeeToken := flat.removeFeeToken + reads 2 + writes 2
  visit := flat.visit + reads 8 + writes 6
  burnResidue := flat.burnResidue + reads 3 + writes 3
  swapIn n := flat.swapIn n + reads (3 * n.toNat) + writes (3 * n.toNat)
  swapOut n := flat.swapOut n + reads (4 * n.toNat) + writes (3 * n.toNat)
  setTakerFee := flat.setTakerFee

end Schedule

end SwapFees
