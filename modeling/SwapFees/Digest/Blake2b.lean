import SwapFees.Bytes

namespace SwapFees.Blake2b

/-- A state or message block of 64-bit words. -/
abbrev Block (n : Nat) := Vector UInt64 n

def iv : Block 8 := #v[
  0x6a09e667f3bcc908, 0xbb67ae8584caa73b, 0x3c6ef372fe94f82b, 0xa54ff53a5f1d36f1,
  0x510e527fade682d1, 0x9b05688c2b3e6c1f, 0x1f83d9abfb41bd6b, 0x5be0cd19137e2179]

/-- The order in which each round reads the message. -/
def schedule : List (Vector (Fin 16) 16) := [
  #v[0, 1, 2, 3, 4, 5, 6, 7, 8, 9, 10, 11, 12, 13, 14, 15],
  #v[14, 10, 4, 8, 9, 15, 13, 6, 1, 12, 0, 2, 11, 7, 5, 3],
  #v[11, 8, 12, 0, 5, 2, 15, 13, 10, 14, 3, 6, 7, 1, 9, 4],
  #v[7, 9, 3, 1, 13, 12, 11, 14, 2, 6, 5, 10, 4, 0, 15, 8],
  #v[9, 0, 5, 7, 2, 4, 10, 15, 14, 1, 11, 12, 6, 8, 3, 13],
  #v[2, 12, 6, 10, 0, 11, 8, 3, 4, 13, 7, 5, 15, 14, 1, 9],
  #v[12, 5, 1, 15, 14, 13, 4, 10, 0, 7, 6, 3, 9, 2, 8, 11],
  #v[13, 11, 7, 14, 12, 1, 3, 9, 5, 0, 15, 4, 8, 6, 2, 10],
  #v[6, 15, 14, 9, 11, 3, 0, 8, 12, 2, 13, 7, 1, 4, 10, 5],
  #v[10, 2, 8, 4, 7, 6, 1, 5, 15, 11, 9, 14, 3, 12, 13, 0],
  #v[0, 1, 2, 3, 4, 5, 6, 7, 8, 9, 10, 11, 12, 13, 14, 15],
  #v[14, 10, 4, 8, 9, 15, 13, 6, 1, 12, 0, 2, 11, 7, 5, 3]]

/-- The columns, then the diagonals, that a round mixes. -/
def lanes : List (Fin 16 × Fin 16 × Fin 16 × Fin 16 × Fin 16 × Fin 16) := [
  (0, 4, 8, 12, 0, 1), (1, 5, 9, 13, 2, 3), (2, 6, 10, 14, 4, 5), (3, 7, 11, 15, 6, 7),
  (0, 5, 10, 15, 8, 9), (1, 6, 11, 12, 10, 11), (2, 7, 8, 13, 12, 13), (3, 4, 9, 14, 14, 15)]

def rotateRight (x : UInt64) (n : UInt64) : UInt64 := (x >>> n) ||| (x <<< (64 - n))

def mix (v : Block 16) (a b c d : Fin 16) (x y : UInt64) : Block 16 :=
  let va := v[a] + v[b] + x
  let vd := rotateRight (v[d] ^^^ va) 32
  let vc := v[c] + vd
  let vb := rotateRight (v[b] ^^^ vc) 24
  let va := va + vb + y
  let vd := rotateRight (vd ^^^ va) 16
  let vc := vc + vd
  let vb := rotateRight (vb ^^^ vc) 63
  ((((v.set a va).set b vb).set c vc).set d vd)

def round (m : Block 16) (v : Block 16) (order : Vector (Fin 16) 16) : Block 16 :=
  lanes.foldl (fun v (a, b, c, d, i, j) => mix v a b c d m[order[i]] m[order[j]]) v

/-- `count` bytes are read so far, those of `m` included. -/
def compress (h : Block 8) (m : Block 16) (count : Nat) (last : Bool) : Block 8 :=
  let v : Block 16 := h ++ iv
  let v := v.set 12 (v[12] ^^^ UInt64.ofNat count)
  let v := v.set 13 (v[13] ^^^ UInt64.ofNat (count / 2 ^ (64 : Nat)))
  let v := if last then v.set 14 (~~~ v[14]) else v
  let v := schedule.foldl (round m) v
  Vector.ofFn fun i : Fin 8 => h[i] ^^^ v[i.val] ^^^ v[i.val + 8]

def word (bytes : Bytes) : UInt64 := UInt64.ofNat (Bytes.toNat bytes)

/-- The first 128 bytes as words, filled up with zeros. -/
def message (bytes : Bytes) : Block 16 :=
  Vector.ofFn fun i : Fin 16 => word ((bytes.drop (8 * i.val)).take 8)

/-- Reads `blocks` full blocks and then the last one. -/
def absorb (h : Block 8) (count : Nat) : Nat → Bytes → Block 8
  | 0, bytes => compress h (message bytes) (count + bytes.length) true
  | blocks + 1, bytes =>
    absorb (compress h (message bytes) (count + 128) false) (count + 128) blocks (bytes.drop 128)

/-- The digest of `size` bytes, at most 64. -/
def digest (size : Nat) (bytes : Bytes) : Bytes :=
  let h := iv.set 0 (iv[0] ^^^ 0x01010000 ^^^ UInt64.ofNat size)
  let h := absorb h 0 ((bytes.length - 1) / 128) bytes
  (h.toList.flatMap fun w => Bytes.ofNat 8 w.toNat).take size

end SwapFees.Blake2b
