import SwapFees.Codec.Asset
import SwapFees.Digest.Blake2b

namespace SwapFees

instance : Ranked Nat := ⟨id, id⟩

namespace Asset

/-- An encoding filled up to the longest. -/
def padded (a : Asset) : Bytes :=
  let bytes := Codec.asset.encode a
  bytes ++ List.replicate (Codec.assetSize - bytes.length) 0

/-- Digest and encoding as one number, the first byte highest. -/
def position (a : Asset) : Nat :=
  Bytes.toNat (Blake2b.digest 16 (Codec.asset.encode a)).reverse * 256 ^ Codec.assetSize +
    Bytes.toNat a.padded.reverse

theorem length_padded (a : Asset) : a.padded.length = Codec.assetSize := by
  cases a <;> simp [padded, Codec.asset, Codec.word, Codec.assetSize]

theorem padded_inj {a b : Asset} (h : a.padded = b.padded) : a = b := by
  have word {x y : AssetId} (h : Bytes.ofNat 4 x.toNat = Bytes.ofNat 4 y.toNat) : x = y := by
    have mod (z : AssetId) : z.toNat % 256 ^ (4 : Nat) = z.toNat :=
      Nat.mod_eq_of_lt (by have := z.isLt; omega)
    have := congrArg Bytes.toNat h
    rw [Bytes.toNat_ofNat, Bytes.toNat_ofNat, mod x, mod y] at this
    exact Word.ext this
  cases a <;> cases b <;> simp [padded, Codec.asset, Codec.word, Codec.assetSize] at h ⊢
  · exact word h
  · exact word h

theorem position_inj {a b : Asset} (h : a.position = b.position) : a = b := by
  have lt (c : Asset) : Bytes.toNat c.padded.reverse < 256 ^ Codec.assetSize := by
    have := Bytes.toNat_lt c.padded.reverse
    rwa [List.length_reverse, length_padded] at this
  have low := congrArg (· % 256 ^ Codec.assetSize) h
  simp only [position, Nat.mul_add_mod_self_right, Nat.mod_eq_of_lt (lt _)] at low
  have rev : a.padded.reverse = b.padded.reverse := by
    rw [← Bytes.ofNat_toNat a.padded.reverse, ← Bytes.ofNat_toNat b.padded.reverse, low]
    simp [length_padded]
  exact padded_inj (List.reverse_inj.1 rev)

end Asset

structure Registry where
  entries : SortedMap Asset PoolId
  /-- Kept beside the entries, so that the capacity is checked without counting them. -/
  count : Word 32
  deriving DecidableEq

namespace Registry

def empty : Registry := ⟨∅, 0⟩

def pool? (r : Registry) (a : Asset) : Option PoolId := r.entries.get? a

def contains (r : Registry) (a : Asset) : Bool := r.entries.contains a

def insert (r : Registry) (t : FeeToken) : Registry where
  entries := r.entries.insert t.asset t.pool
  count := if r.contains t.asset then r.count else r.count.addSat 1

def erase (r : Registry) (a : Asset) : Registry where
  entries := r.entries.erase a
  count := if r.contains a then r.count.subSat 1 else r.count

def eraseAll (r : Registry) (as : List Asset) : Registry := as.foldl erase r

def token? (r : Registry) (a : Asset) : Option FeeToken := (r.pool? a).map fun p => ⟨a, p⟩

/-- Fee tokens by position. -/
def slots (r : Registry) : SortedMap Nat FeeToken :=
  .ofList (r.entries.toList.map fun e => (e.1.position, ⟨e.1, e.2⟩))

def inOrder (r : Registry) : List FeeToken := r.slots.toList.map Prod.snd

/-- The fee tokens strictly behind a cursor, which need not be one of them. -/
def after (r : Registry) : Option Asset → List FeeToken
  | none => r.inOrder
  | some last =>
    let bound := last.position
    (r.slots.toList.filter fun e => bound < e.1).map Prod.snd

end Registry

end SwapFees
