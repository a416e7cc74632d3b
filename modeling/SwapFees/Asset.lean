import SwapFees.SortedMap

namespace SwapFees

/-- The number under which the token ledger keeps an asset. -/
abbrev AssetId := Word 32

/-- The native currency, a token issued here, or a token bridged from elsewhere. -/
inductive Asset
  | native
  | issued (id : AssetId)
  | bridged (id : AssetId)
  deriving DecidableEq

namespace Asset

instance : Inhabited Asset := ⟨native⟩

/-- Issued and bridged tokens of one number share a ledger entry; the native currency has none. -/
def id? : Asset → Option AssetId
  | native => none
  | issued id => some id
  | bridged id => some id

theorem id?_eq_none {a : Asset} : a.id? = none ↔ a = native := by
  cases a <;> simp [id?]

/-- Native first, then issued, then bridged, each by number. -/
def rank : Asset → Nat
  | native => 0
  | issued id => 1 + id.toNat
  | bridged id => 1 + 2 ^ (32 : Nat) + id.toNat

theorem rank_inj {a b : Asset} (h : a.rank = b.rank) : a = b := by
  cases a <;> cases b <;> simp only [rank, issued.injEq, bridged.injEq, reduceCtorEq] at h ⊢
  all_goals first
    | omega
    | exact Word.ext (by omega)
    | (rename_i x y; have := x.isLt; have := y.isLt; omega)

instance : Ranked Asset := ⟨rank, rank_inj⟩

def text : Asset → String
  | native => "native"
  | issued id => s!"local/{id}"
  | bridged id => s!"foreign/{id}"

def debug : Asset → String
  | native => "Native"
  | issued id => s!"Local({id})"
  | bridged id => s!"Foreign({id})"

def sort (as : List Asset) : List Asset := as.mergeSort fun a b => a.rank ≤ b.rank

end Asset

structure Coin where
  asset : Asset
  amount : Amount
  deriving DecidableEq, Inhabited

namespace Coin

def zero (asset : Asset) : Coin := ⟨asset, 0⟩

def isZero (c : Coin) : Bool := c.amount = 0

def withAmount (c : Coin) (amount : Amount) : Coin := ⟨c.asset, amount⟩

def text (c : Coin) : String := s!"{c.amount}{c.asset.text}"

def debug (c : Coin) : String :=
  "Coin \x7b asset: " ++ c.asset.debug ++ ", amount: " ++ toString c.amount ++ " \x7d"

end Coin

/-- An asset accepted for fees, and the pool that converts it to the base asset. -/
structure FeeToken where
  asset : Asset
  pool : PoolId
  deriving DecidableEq

end SwapFees
