namespace SwapFees

-- Here powers and sums of naturals are the core ones, also beside a library with its own instances.
scoped instance (priority := 2000) natPow : Pow Nat Nat := instPowNat
scoped instance (priority := 2000) natZero : Zero Nat := Zero.ofOfNat0

/-- A natural below a power of two. Arithmetic saturates or reports that it does not fit; it never
wraps. -/
structure Word (w : Nat) where
  toNat : Nat
  isLt : toNat < 2 ^ w
  deriving DecidableEq

namespace Word

variable {w : Nat}

theorem ext {a b : Word w} (h : a.toNat = b.toNat) : a = b := by
  cases a; cases b; simpa using h

theorem toNat_inj {a b : Word w} : a.toNat = b.toNat ↔ a = b := ⟨ext, congrArg toNat⟩

instance : LE (Word w) := ⟨fun a b => a.toNat ≤ b.toNat⟩
instance : LT (Word w) := ⟨fun a b => a.toNat < b.toNat⟩
instance (a b : Word w) : Decidable (a ≤ b) := inferInstanceAs (Decidable (a.toNat ≤ b.toNat))
instance (a b : Word w) : Decidable (a < b) := inferInstanceAs (Decidable (a.toNat < b.toNat))

theorem le_def {a b : Word w} : a ≤ b ↔ a.toNat ≤ b.toNat := Iff.rfl
theorem lt_def {a b : Word w} : a < b ↔ a.toNat < b.toNat := Iff.rfl

/-- The largest word. -/
def top : Word w := ⟨2 ^ w - 1, Nat.sub_lt (Nat.two_pow_pos w) Nat.one_pos⟩

/-- The word nearest to `n`. -/
def saturate (n : Nat) : Word w := if h : n < 2 ^ w then ⟨n, h⟩ else top

def ofNat? (n : Nat) : Option (Word w) := if h : n < 2 ^ w then some ⟨n, h⟩ else none

instance (n : Nat) : OfNat (Word w) n := ⟨saturate n⟩
instance : Inhabited (Word w) := ⟨0⟩

def addSat (a b : Word w) : Word w := saturate (a.toNat + b.toNat)
def mulSat (a b : Word w) : Word w := saturate (a.toNat * b.toNat)
def subSat (a b : Word w) : Word w := ⟨a.toNat - b.toNat, Nat.lt_of_le_of_lt (Nat.sub_le ..) a.isLt⟩
def add? (a b : Word w) : Option (Word w) := ofNat? (a.toNat + b.toNat)
def half (a : Word w) : Word w := ⟨a.toNat / 2, Nat.lt_of_le_of_lt (Nat.div_le_self ..) a.isLt⟩

instance : ToString (Word w) := ⟨fun a => toString a.toNat⟩

theorem toNat_saturate (n : Nat) : (saturate n : Word w).toNat = min n (2 ^ w - 1) := by
  unfold saturate top
  split <;> simp only <;> omega

theorem toNat_saturate_of_lt {n : Nat} (h : n < 2 ^ w) : (saturate n : Word w).toNat = n := by
  simp [saturate, h]

theorem saturate_toNat (a : Word w) : saturate a.toNat = a := ext (toNat_saturate_of_lt a.isLt)

@[simp] theorem toNat_zero : (0 : Word w).toNat = 0 := toNat_saturate_of_lt (Nat.two_pow_pos w)

theorem toNat_eq_zero {a : Word w} : a.toNat = 0 ↔ a = 0 := by
  rw [← toNat_inj, toNat_zero]

@[simp] theorem toNat_subSat (a b : Word w) : (a.subSat b).toNat = a.toNat - b.toNat := rfl
@[simp] theorem toNat_half (a : Word w) : a.half.toNat = a.toNat / 2 := rfl

theorem toNat_addSat (a b : Word w) : (a.addSat b).toNat = min (a.toNat + b.toNat) (2 ^ w - 1) :=
  toNat_saturate _

theorem toNat_mulSat (a b : Word w) : (a.mulSat b).toNat = min (a.toNat * b.toNat) (2 ^ w - 1) :=
  toNat_saturate _

theorem saturate_eq_zero {n : Nat} (h : 2 ^ w = 1 → n = 0) : (saturate n : Word w) = 0 ↔ n = 0 := by
  have hpos := Nat.two_pow_pos w
  rw [← toNat_eq_zero, toNat_saturate]
  omega

theorem addSat_eq_zero {a b : Word w} : a.addSat b = 0 ↔ a = 0 ∧ b = 0 := by
  have ha := a.isLt
  have hb := b.isLt
  rw [← toNat_eq_zero (a := a), ← toNat_eq_zero (a := b), addSat, saturate_eq_zero (by omega)]
  omega

theorem mulSat_eq_zero {a b : Word w} : a.mulSat b = 0 ↔ a = 0 ∨ b = 0 := by
  have ha := a.isLt
  rw [← toNat_eq_zero (a := a), ← toNat_eq_zero (a := b), mulSat, saturate_eq_zero, Nat.mul_eq_zero]
  intro hone
  have hz : a.toNat = 0 := by omega
  simp [hz]

theorem le_top (a : Word w) : a ≤ top := Nat.le_pred_of_lt a.isLt

theorem ne_top_iff {a : Word w} : a ≠ top ↔ a.toNat < 2 ^ w - 1 := by
  have hle : a.toNat ≤ 2 ^ w - 1 := le_top a
  constructor
  · intro hne
    exact Nat.lt_of_le_of_ne hle fun e => hne (ext e)
  · rintro hlt rfl
    exact Nat.lt_irrefl _ hlt

theorem ofNat?_eq_some {n : Nat} {a : Word w} : ofNat? n = some a ↔ a.toNat = n := by
  unfold ofNat?
  constructor
  · intro h
    split at h
    · cases h; rfl
    · cases h
  · rintro rfl
    simp [a.isLt]

theorem ofNat?_eq_none {n : Nat} : (ofNat? n : Option (Word w)) = none ↔ 2 ^ w ≤ n := by
  simp [ofNat?]

@[simp] theorem ofNat?_toNat (a : Word w) : ofNat? a.toNat = some a := ofNat?_eq_some.2 rfl

theorem add?_eq_some {a b c : Word w} : a.add? b = some c ↔ c.toNat = a.toNat + b.toNat :=
  ofNat?_eq_some

theorem add?_of_lt {a b : Word w} (h : a.toNat + b.toNat < 2 ^ w) : a.add? b = some (a.addSat b) :=
  add?_eq_some.2 (toNat_saturate_of_lt h)

theorem add?_eq_none {a b : Word w} : a.add? b = none ↔ 2 ^ w ≤ a.toNat + b.toNat :=
  ofNat?_eq_none

end Word

/-- An amount of one asset. -/
abbrev Amount := Word 128

/-- An account number. -/
abbrev AccountId := Word 64

abbrev PoolId := Word 64

end SwapFees
