import SwapFees.Codec.Call

namespace SwapFees.Codec

variable {α β : Type} {c : Codec α} {b r : Bytes}

structure Canonical (c : Codec α) : Prop where
  decode_encode (v : α) (s : Bytes) : c.decode (c.encode v ++ s) = some (v, s)
  encode_of_decode (b : Bytes) (v : α) (r : Bytes) : c.decode b = some (v, r) → b = c.encode v ++ r

/-- No encoding is longer than `size`. -/
def Within (c : Codec α) (size : Nat) : Prop := ∀ v, (c.encode v).length ≤ size

theorem canonical_of_iff (h : ∀ b v r, c.decode b = some (v, r) ↔ b = c.encode v ++ r) :
    c.Canonical :=
  ⟨fun v s => (h _ v s).2 rfl, fun b v r => (h b v r).1⟩

theorem Canonical.decode_iff (h : c.Canonical) {v : α} :
    c.decode b = some (v, r) ↔ b = c.encode v ++ r :=
  ⟨h.encode_of_decode b v r, fun e => e ▸ h.decode_encode v r⟩

section Numbers

variable {w k least : Nat} {n : Word w}

theorem word_decode_iff :
    (word k).decode b = some (n, r) ↔ n.toNat < 256 ^ k ∧ b = Bytes.ofNat k n.toNat ++ r := by
  constructor
  · intro h
    simp only [word] at h
    split at h
    · cases h
    · rename_i hlen
      obtain ⟨m, hm, e⟩ := Option.map_eq_some_iff.1 h
      obtain ⟨rfl, rfl⟩ := Prod.mk.inj e
      have htake : (b.take k).length = k := List.length_take_of_le (Nat.le_of_not_lt hlen)
      have hn := Word.ofNat?_eq_some.1 hm
      have hlt := Bytes.toNat_lt (b.take k)
      have hbytes := Bytes.ofNat_toNat (b.take k)
      rw [htake, ← hn] at hlt hbytes
      exact ⟨hlt, by rw [hbytes, List.take_append_drop]⟩
  · rintro ⟨hn, rfl⟩
    have hlen : ¬(Bytes.ofNat k n.toNat ++ r).length < k := by
      rw [List.length_append, Bytes.length_ofNat]
      omega
    simp only [word]
    rw [if_neg hlen, List.take_left' (Bytes.length_ofNat ..), List.drop_left' (Bytes.length_ofNat ..),
      Bytes.toNat_ofNat, Nat.mod_eq_of_lt hn, Word.ofNat?_toNat]
    rfl

theorem canonical_word (h : 2 ^ w ≤ 256 ^ k) : (word k : Codec (Word w)).Canonical :=
  canonical_of_iff fun _ n _ =>
    word_decode_iff.trans (and_iff_right (Nat.lt_of_lt_of_le n.isLt h))

theorem narrow_iff {n : Word 32} :
    narrow k least b = some (n, r) ↔
      least ≤ n.toNat ∧ ∃ mode < 4, 4 * n.toNat + mode < 2 ^ (32 : Nat) ∧
        4 * n.toNat + mode < 256 ^ k ∧ b = Bytes.ofNat k (4 * n.toNat + mode) ++ r := by
  constructor
  · intro h
    obtain ⟨⟨raw, rest⟩, hraw, h⟩ := Option.bind_eq_some_iff.1 h
    dsimp only at h
    split at h
    · rename_i hleast
      obtain ⟨rfl, rfl⟩ := Prod.mk.inj (Option.some.inj h)
      obtain ⟨hk, rfl⟩ := word_decode_iff.1 hraw
      have hraw := raw.isLt
      have hn : (Word.saturate (raw.toNat / 4) : Word 32).toNat = raw.toNat / 4 :=
        Word.toNat_saturate_of_lt (by omega)
      have hsplit : 4 * (raw.toNat / 4) + raw.toNat % 4 = raw.toNat := Nat.div_add_mod ..
      refine ⟨by rwa [hn], raw.toNat % 4, Nat.mod_lt _ (by decide), ?_⟩
      rw [hn, hsplit]
      exact ⟨hraw, hk, rfl⟩
    · cases h
  · rintro ⟨hleast, mode, hmode, h32, hk, rfl⟩
    have hraw : (word k).decode (Bytes.ofNat k (4 * n.toNat + mode) ++ r) =
        some ((⟨4 * n.toNat + mode, h32⟩ : Word 32), r) := word_decode_iff.2 ⟨hk, rfl⟩
    have hdiv : (4 * n.toNat + mode) / 4 = n.toNat := by omega
    refine Option.bind_eq_some_iff.2 ⟨_, hraw, ?_⟩
    dsimp only
    rw [hdiv, if_pos hleast, Word.saturate_toNat]
    rfl

theorem mode_of_first {n : Nat} {first : UInt8} (h : first :: b = Bytes.ofNat (k + 1) n ++ r) :
    first.toNat % 4 = n % 4 := by
  obtain ⟨rfl, -⟩ := List.cons.inj h
  rw [UInt8.toNat_ofNat']
  omega

theorem decode_compact_cons (first : UInt8) (bs : Bytes) :
    compact.decode (first :: bs) =
      if first.toNat % 4 = 0 then narrow 1 0 (first :: bs)
      else if first.toNat % 4 = 1 then narrow 2 (2 ^ (6 : Nat)) (first :: bs)
      else if first.toNat % 4 = 2 then narrow 4 (2 ^ (14 : Nat)) (first :: bs)
      else if first = 3 then do
        let (n, bs) ← (word 4 : Codec (Word 32)).decode bs
        if 2 ^ (30 : Nat) ≤ n.toNat then return (n, bs) else none
      else none := rfl

theorem decode_compact (n : Word 32) (s : Bytes) :
    compact.decode (compact.encode n ++ s) = some (n, s) := by
  have hn := n.isLt
  -- Each form begins with the byte by which the decoder tells it.
  have narrowed (k least mode : Nat) (hleast : least ≤ n.toNat) (hmode : mode < 4)
      (h32 : 4 * n.toNat + mode < 2 ^ (32 : Nat)) (hk : 4 * n.toNat + mode < 256 ^ (k + 1)) :
      ∃ first bs, Bytes.ofNat (k + 1) (4 * n.toNat + mode) ++ s = first :: bs ∧
        first.toNat % 4 = mode ∧ narrow (k + 1) least (first :: bs) = some (n, s) := by
    refine ⟨UInt8.ofNat (4 * n.toNat + mode), Bytes.ofNat k ((4 * n.toNat + mode) / 256) ++ s, rfl,
      ?_, narrow_iff.2 ⟨hleast, mode, hmode, h32, hk, rfl⟩⟩
    rw [UInt8.toNat_ofNat']
    omega
  by_cases h₁ : n.toNat < 2 ^ (6 : Nat)
  · obtain ⟨first, bs, e, hmode, h⟩ := narrowed 0 0 0 (by omega) (by omega) (by omega) (by omega)
    rw [show compact.encode n = Bytes.ofNat 1 (4 * n.toNat) from if_pos h₁]
    rw [Nat.add_zero (4 * n.toNat)] at e
    rw [e, decode_compact_cons, if_pos hmode, h]
  by_cases h₂ : n.toNat < 2 ^ (14 : Nat)
  · obtain ⟨first, bs, e, hmode, h⟩ :=
      narrowed 1 (2 ^ (6 : Nat)) 1 (by omega) (by omega) (by omega) (by omega)
    rw [show compact.encode n = Bytes.ofNat 2 (4 * n.toNat + 1) from
      (if_neg h₁).trans (if_pos h₂)]
    rw [e, decode_compact_cons, if_neg (by omega), if_pos hmode, h]
  by_cases h₃ : n.toNat < 2 ^ (30 : Nat)
  · obtain ⟨first, bs, e, hmode, h⟩ :=
      narrowed 3 (2 ^ (14 : Nat)) 2 (by omega) (by omega) (by omega) (by omega)
    rw [show compact.encode n = Bytes.ofNat 4 (4 * n.toNat + 2) from
      (if_neg h₁).trans ((if_neg h₂).trans (if_pos h₃))]
    rw [e, decode_compact_cons, if_neg (by omega), if_neg (by omega), if_pos hmode, h]
  · have h : (word 4).decode (Bytes.ofNat 4 n.toNat ++ s) = some (n, s) :=
      word_decode_iff.2 ⟨by omega, rfl⟩
    rw [show compact.encode n = 3 :: Bytes.ofNat 4 n.toNat from
      (if_neg h₁).trans ((if_neg h₂).trans (if_neg h₃))]
    rw [List.cons_append, decode_compact_cons, if_neg (by decide), if_neg (by decide),
      if_neg (by decide), if_pos rfl, h]
    exact if_pos (Nat.le_of_not_lt h₃)

theorem eq_of_decode_compact {n : Word 32} (h : compact.decode b = some (n, r)) :
    b = compact.encode n ++ r := by
  have hn := n.isLt
  rcases b with _ | ⟨first, bs⟩
  · cases h
  have narrowed {k least mode : Nat} (hmode : first.toNat % 4 = mode)
      (h : narrow (k + 1) least (first :: bs) = some (n, r)) :
      least ≤ n.toNat ∧ 4 * n.toNat + mode < 256 ^ (k + 1) ∧
        first :: bs = Bytes.ofNat (k + 1) (4 * n.toNat + mode) ++ r := by
    obtain ⟨hleast, mode', hlt, -, hk, e⟩ := narrow_iff.1 h
    obtain rfl : mode' = mode := by
      have := mode_of_first e
      omega
    exact ⟨hleast, hk, e⟩
  simp only [compact] at h ⊢
  split at h
  · rename_i hmode
    obtain ⟨-, hk, e⟩ := narrowed hmode h
    rw [e, if_pos (by omega), Nat.add_zero (4 * n.toNat)]
  · split at h
    · rename_i hmode
      obtain ⟨hleast, hk, e⟩ := narrowed hmode h
      rw [e, if_neg (by omega), if_pos (by omega)]
    · split at h
      · rename_i hmode
        obtain ⟨hleast, hk, e⟩ := narrowed hmode h
        rw [e, if_neg (by omega), if_neg (by omega), if_pos (by omega)]
      · split at h
        · rename_i hfirst
          subst hfirst
          obtain ⟨⟨m, rest⟩, hm, h⟩ := Option.bind_eq_some_iff.1 h
          dsimp only at h
          split at h
          · rename_i hleast
            obtain ⟨rfl, rfl⟩ := Prod.mk.inj (Option.some.inj h)
            obtain ⟨-, rfl⟩ := word_decode_iff.1 hm
            rw [if_neg (by omega), if_neg (by omega), if_neg (by omega), List.cons_append]
          · cases h
        · cases h

theorem canonical_compact : compact.Canonical :=
  ⟨decode_compact, fun _ _ _ => eq_of_decode_compact⟩

/-- One is read from its shortest form alone. -/
example : compact.decode [4] = some (1, []) ∧ compact.decode [5, 0] = none ∧
    compact.decode [6, 0, 0, 0] = none ∧ compact.decode [3, 1, 0, 0, 0] = none := by decide

end Numbers

section Composition

variable {d : Codec β}

theorem Canonical.pair (hc : c.Canonical) (hd : d.Canonical) : (c.pair d).Canonical := by
  refine canonical_of_iff fun b v r => ?_
  simp only [Codec.pair, Option.bind_eq_bind, Option.bind_eq_some_iff, Prod.exists, hc.decode_iff,
    hd.decode_iff, Option.pure_def, Option.some.injEq, Prod.mk.injEq]
  constructor
  · rintro ⟨x, bs, rfl, y, bs', rfl, rfl, rfl⟩
    rw [List.append_assoc]
  · rintro rfl
    exact ⟨v.1, _, List.append_assoc .., v.2, r, rfl, rfl, rfl⟩

/-- What is admitted must be all that is written, and each value from one form only. -/
theorem Canonical.refine {wrap : α → Option β} {unwrap : β → α} (hc : c.Canonical)
    (h : ∀ x v, wrap x = some v ↔ x = unwrap v) : (c.refine wrap unwrap).Canonical := by
  refine canonical_of_iff fun b v r => ?_
  simp only [Codec.refine, Option.bind_eq_bind, Option.bind_eq_some_iff, Prod.exists, hc.decode_iff,
    h, Option.pure_def, Option.some.injEq, Prod.mk.injEq]
  constructor
  · rintro ⟨x, bs, rfl, v, rfl, rfl, rfl⟩
    rfl
  · rintro rfl
    exact ⟨unwrap v, r, rfl, v, rfl, rfl, rfl⟩

theorem Canonical.iso {wrap : α → β} {unwrap : β → α} (hc : c.Canonical)
    (hleft : ∀ x, unwrap (wrap x) = x) (hright : ∀ v, wrap (unwrap v) = v) :
    (c.iso wrap unwrap).Canonical :=
  hc.refine fun x v =>
    ⟨fun e => by rw [← Option.some.inj e, hleft], fun e => by rw [e, hright]⟩

theorem Canonical.decodeMany_iff (hc : c.Canonical) {n : Nat} {xs : List α} :
    c.decodeMany n b = some (xs, r) ↔ xs.length = n ∧ b = xs.flatMap c.encode ++ r := by
  induction n generalizing b r xs with
  | zero =>
    simp only [decodeMany, Option.some.injEq, Prod.mk.injEq, List.length_eq_zero_iff]
    constructor
    · rintro ⟨rfl, rfl⟩
      exact ⟨rfl, rfl⟩
    · rintro ⟨rfl, rfl⟩
      exact ⟨rfl, rfl⟩
  | succ n ih =>
    simp only [decodeMany, Option.bind_eq_bind, Option.bind_eq_some_iff, Prod.exists,
      hc.decode_iff, ih, Option.pure_def, Option.some.injEq, Prod.mk.injEq]
    constructor
    · rintro ⟨x, bs, rfl, ys, rest, ⟨rfl, rfl⟩, rfl, rfl⟩
      exact ⟨rfl, by rw [List.flatMap_cons, List.append_assoc]⟩
    · rintro ⟨hlen, rfl⟩
      obtain ⟨x, ys, rfl⟩ := List.exists_cons_of_length_eq_add_one hlen
      exact ⟨x, _, by rw [List.flatMap_cons, List.append_assoc], ys, r,
        ⟨Nat.succ.inj hlen, rfl⟩, rfl, rfl⟩

theorem Canonical.shortList (hc : c.Canonical) {limit : Nat} (hlimit : limit < 2 ^ (32 : Nat)) :
    (Codec.shortList limit c).Canonical := by
  refine canonical_of_iff fun b v r => ?_
  have hlen : (Word.saturate v.val.length : Word 32).toNat = v.val.length :=
    Word.toNat_saturate_of_lt (Nat.lt_of_le_of_lt v.property hlimit)
  simp only [Codec.shortList, Option.bind_eq_bind, Option.bind_eq_some_iff, Prod.exists,
    canonical_compact.decode_iff]
  constructor
  · rintro ⟨n, bs, rfl, h⟩
    split at h
    · obtain ⟨⟨xs, rest⟩, hxs, h⟩ := Option.bind_eq_some_iff.1 h
      dsimp only at h
      split at h
      · obtain ⟨rfl, rfl⟩ := Prod.mk.inj (Option.some.inj h)
        obtain ⟨hn, rfl⟩ := hc.decodeMany_iff.1 hxs
        rw [hn, Word.saturate_toNat, List.append_assoc]
      · cases h
    · cases h
  · rintro rfl
    refine ⟨_, _, List.append_assoc .., ?_⟩
    rw [hlen, if_pos v.property]
    exact Option.bind_eq_some_iff.2 ⟨_, hc.decodeMany_iff.2 ⟨rfl, rfl⟩, dif_pos v.property⟩

theorem Canonical.variant_iff (hc : c.Canonical) (wrap : α → β) {v : β} :
    (c.decode b).map (fun x => (wrap x.1, x.2)) = some (v, r) ↔
      ∃ x, wrap x = v ∧ b = c.encode x ++ r := by
  simp only [Option.map_eq_some_iff, Prod.exists, hc.decode_iff, Prod.mk.injEq]
  constructor
  · rintro ⟨x, bs, rfl, rfl, rfl⟩
    exact ⟨x, rfl, rfl⟩
  · rintro ⟨x, rfl, rfl⟩
    exact ⟨x, r, rfl, rfl, rfl⟩

end Composition

theorem canonical_assetId : (word 4 : Codec AssetId).Canonical := canonical_word (by decide)

theorem canonical_asset : asset.Canonical where
  decode_encode v s := by
    cases v with
    | native => rfl
    | issued id => exact (canonical_assetId.variant_iff Asset.issued).2 ⟨id, rfl, rfl⟩
    | bridged id => exact (canonical_assetId.variant_iff Asset.bridged).2 ⟨id, rfl, rfl⟩
  encode_of_decode b v r h := by
    simp only [asset] at h
    split at h
    · obtain ⟨rfl, rfl⟩ := Prod.mk.inj (Option.some.inj h)
      rfl
    · obtain ⟨id, rfl, rfl⟩ := (canonical_assetId.variant_iff Asset.issued).1 h
      rfl
    · obtain ⟨id, rfl, rfl⟩ := (canonical_assetId.variant_iff Asset.bridged).1 h
      rfl
    · cases h

theorem canonical_amount : amount.Canonical := canonical_word (by decide)

theorem canonical_poolId : poolId.Canonical := canonical_word (by decide)

theorem canonical_coin : coin.Canonical :=
  (canonical_asset.pair canonical_amount).iso (fun _ => rfl) fun _ => rfl

theorem canonical_feeToken : feeToken.Canonical :=
  (canonical_asset.pair canonical_poolId).iso (fun _ => rfl) fun _ => rfl

theorem canonical_hopIn : hopIn.Canonical :=
  (canonical_poolId.pair canonical_asset).iso (fun _ => rfl) fun _ => rfl

theorem canonical_hopOut : hopOut.Canonical :=
  (canonical_poolId.pair canonical_asset).iso (fun _ => rfl) fun _ => rfl

theorem canonical_rate : rate.Canonical := by
  refine (canonical_word (by decide)).refine fun n r => ?_
  have hr : (Word.saturate r.parts : Word 32).toNat = r.parts :=
    Word.toNat_saturate_of_lt (Nat.lt_of_le_of_lt r.le_million (by decide))
  rw [← Word.toNat_inj, hr]
  simp only [Rate.ofParts?]
  constructor
  · intro h
    split at h
    · obtain rfl := Option.some.inj h
      rfl
    · cases h
  · intro h
    rw [dif_pos (h ▸ r.le_million)]
    cases r
    simp [h]

theorem canonical_feeCall : feeCall.Canonical where
  decode_encode v s := by
    cases v with
    | setBase a => exact (canonical_asset.variant_iff FeeCall.setBase).2 ⟨a, rfl, rfl⟩
    | setFeeToken t => exact (canonical_feeToken.variant_iff FeeCall.setFeeToken).2 ⟨t, rfl, rfl⟩
    | removeFeeToken a => exact (canonical_asset.variant_iff FeeCall.removeFeeToken).2 ⟨a, rfl, rfl⟩
  encode_of_decode b v r h := by
    simp only [feeCall] at h
    split at h
    · obtain ⟨a, rfl, rfl⟩ := (canonical_asset.variant_iff FeeCall.setBase).1 h
      rfl
    · obtain ⟨t, rfl, rfl⟩ := (canonical_feeToken.variant_iff FeeCall.setFeeToken).1 h
      rfl
    · obtain ⟨a, rfl, rfl⟩ := (canonical_asset.variant_iff FeeCall.removeFeeToken).1 h
      rfl
    · cases h

def swapInOf (f : Route HopIn × Coin × Amount) : SwapCall := .swapIn f.1 f.2.1 f.2.2

def swapOutOf (f : Route HopOut × Amount × Coin) : SwapCall := .swapOut f.1 f.2.1 f.2.2

theorem canonical_swapInFields : swapInFields.Canonical :=
  (canonical_hopIn.shortList (by decide)).pair (canonical_coin.pair canonical_amount)

theorem canonical_swapOutFields : swapOutFields.Canonical :=
  (canonical_hopOut.shortList (by decide)).pair (canonical_amount.pair canonical_coin)

theorem canonical_swapCall : swapCall.Canonical where
  decode_encode v s := by
    cases v with
    | swapIn route tokenIn minOut =>
      exact (canonical_swapInFields.variant_iff swapInOf).2 ⟨(route, tokenIn, minOut), rfl, rfl⟩
    | swapOut route maxIn tokenOut =>
      exact (canonical_swapOutFields.variant_iff swapOutOf).2 ⟨(route, maxIn, tokenOut), rfl, rfl⟩
    | setTakerFee rate => exact (canonical_rate.variant_iff SwapCall.setTakerFee).2 ⟨rate, rfl, rfl⟩
  encode_of_decode b v r h := by
    simp only [swapCall] at h
    split at h
    · obtain ⟨⟨route, tokenIn, minOut⟩, rfl, rfl⟩ := (canonical_swapInFields.variant_iff swapInOf).1 h
      rfl
    · obtain ⟨⟨route, maxIn, tokenOut⟩, rfl, rfl⟩ := (canonical_swapOutFields.variant_iff swapOutOf).1 h
      rfl
    · obtain ⟨rate, rfl, rfl⟩ := (canonical_rate.variant_iff SwapCall.setTakerFee).1 h
      rfl
    · cases h

theorem Within.pair {c : Codec α} {d : Codec β} {m n : Nat} (hc : c.Within m) (hd : d.Within n) :
    (c.pair d).Within (m + n) := fun v => by
  have := hc v.1
  have := hd v.2
  simp only [Codec.pair, List.length_append]
  omega

theorem Within.iso {c : Codec α} {n : Nat} (hc : c.Within n) (wrap : α → β) (unwrap : β → α) :
    (c.iso wrap unwrap).Within n := fun v => hc (unwrap v)

theorem within_word {w k : Nat} : (word k : Codec (Word w)).Within k := fun _ =>
  Nat.le_of_eq (Bytes.length_ofNat ..)

theorem within_asset : asset.Within assetSize := by
  intro a
  cases a with
  | native => decide
  | issued id => exact Nat.succ_le_succ (within_word id)
  | bridged id => exact Nat.succ_le_succ (within_word id)

/-- The formats of the records and of the calls read exactly the encodings, each as its value, and
no record is longer than its longest encoding is said to be. -/
theorem formats_canonical :
    asset.Canonical ∧ coin.Canonical ∧ feeToken.Canonical ∧ hopIn.Canonical ∧ hopOut.Canonical ∧
      feeCall.Canonical ∧ swapCall.Canonical ∧
      asset.Within assetSize ∧ coin.Within coinSize ∧ feeToken.Within feeTokenSize ∧
      hopIn.Within hopSize ∧ hopOut.Within hopSize :=
  ⟨canonical_asset, canonical_coin, canonical_feeToken, canonical_hopIn, canonical_hopOut,
    canonical_feeCall, canonical_swapCall, within_asset, (within_asset.pair within_word).iso _ _,
    (within_asset.pair within_word).iso _ _, (within_word.pair within_asset).iso _ _,
    (within_word.pair within_asset).iso _ _⟩

end SwapFees.Codec
