import SwapFees.Bytes

namespace SwapFees

/-- How a value is written as bytes, and how one is read from the front of a byte string. -/
structure Codec (α : Type) where
  encode : α → Bytes
  decode : Bytes → Option (α × Bytes)

namespace Codec

variable {α β : Type}

/-- A word of `k` bytes, lowest first. -/
def word {w : Nat} (k : Nat) : Codec (Word w) where
  encode n := Bytes.ofNat k n.toNat
  decode bs :=
    if bs.length < k then none
    else (Word.ofNat? (Bytes.toNat (bs.take k))).map fun n => (n, bs.drop k)

def pair (a : Codec α) (b : Codec β) : Codec (α × β) where
  encode v := a.encode v.1 ++ b.encode v.2
  decode bs := do
    let (x, bs) ← a.decode bs
    let (y, bs) ← b.decode bs
    return ((x, y), bs)

/-- Reads as `c` and keeps the values that `wrap` admits. -/
def refine (c : Codec α) (wrap : α → Option β) (unwrap : β → α) : Codec β where
  encode v := c.encode (unwrap v)
  decode bs := do
    let (x, bs) ← c.decode bs
    return (← wrap x, bs)

def iso (c : Codec α) (wrap : α → β) (unwrap : β → α) : Codec β :=
  c.refine (fun x => some (wrap x)) unwrap

def decodeMany (c : Codec α) : Nat → Bytes → Option (List α × Bytes)
  | 0, bs => some ([], bs)
  | n + 1, bs => do
    let (x, bs) ← c.decode bs
    let (xs, bs) ← c.decodeMany n bs
    return (x :: xs, bs)

/-- A number in `k` bytes above the two bits of its mode. Numbers below `least` have a shorter form. -/
def narrow (k least : Nat) (bs : Bytes) : Option (Word 32 × Bytes) := do
  let (raw, bs) ← (word k : Codec (Word 32)).decode bs
  if least ≤ raw.toNat / 4 then return (Word.saturate (raw.toNat / 4), bs) else none

/-- A number in its shortest form. The two lowest bits of the first byte are the mode: the number
takes one, two or four bytes with these, or a byte for the mode and four of its own. -/
def compact : Codec (Word 32) where
  encode n :=
    if n.toNat < 2 ^ (6 : Nat) then Bytes.ofNat 1 (4 * n.toNat)
    else if n.toNat < 2 ^ (14 : Nat) then Bytes.ofNat 2 (4 * n.toNat + 1)
    else if n.toNat < 2 ^ (30 : Nat) then Bytes.ofNat 4 (4 * n.toNat + 2)
    else 3 :: Bytes.ofNat 4 n.toNat
  decode
    | [] => none
    | b :: bs =>
      if b.toNat % 4 = 0 then narrow 1 0 (b :: bs)
      else if b.toNat % 4 = 1 then narrow 2 (2 ^ (6 : Nat)) (b :: bs)
      else if b.toNat % 4 = 2 then narrow 4 (2 ^ (14 : Nat)) (b :: bs)
      else if b = 3 then do
        let (n, bs) ← (word 4).decode bs
        if 2 ^ (30 : Nat) ≤ n.toNat then return (n, bs) else none
      else none

/-- A list of at most `limit` elements behind its length. -/
def shortList (limit : Nat) (c : Codec α) : Codec { xs : List α // xs.length ≤ limit } where
  encode xs := compact.encode (Word.saturate xs.val.length) ++ xs.val.flatMap c.encode
  decode bs := do
    let (n, bs) ← compact.decode bs
    if n.toNat ≤ limit then
      let (xs, bs) ← c.decodeMany n.toNat bs
      if h : xs.length ≤ limit then return (⟨xs, h⟩, bs) else none
    else none

end Codec

end SwapFees
