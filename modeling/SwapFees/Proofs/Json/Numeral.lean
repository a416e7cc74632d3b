import Mathlib.Data.List.Induction
import SwapFees.Json.Number

namespace SwapFees.Json

theorem digit?_char (d : Digit) : digit? d.char = some d := by
  revert d
  decide

theorem char_of_digit? {c : Char} {d : Digit} (h : digit? c = some d) : d.char = c := by
  unfold digit? at h
  split at h
  · rename_i hrange
    cases h
    rw [Digit.char, Nat.add_sub_of_le hrange.1, Char.ofNat_toNat]
  · cases h

theorem ofDecimal_append (ds : List Digit) (d : Digit) :
    ofDecimal (ds ++ [d]) = 10 * ofDecimal ds + d.val := by
  simp [ofDecimal]

theorem ofDecimal_decimal (n : Nat) : ofDecimal (decimal n) = n := by
  fun_induction decimal n with
  | case1 n h => simp [ofDecimal]
  | case2 n h ih =>
    rw [ofDecimal_append, ih]
    exact Nat.div_add_mod n 10

theorem decimal_zero : decimal 0 = [0] := by
  rw [decimal]
  rfl

theorem decimal_of_ne_zero {n : Nat} (hn : n ≠ 0) : ∃ d ds, decimal n = d :: ds ∧ d ≠ 0 := by
  fun_induction decimal n with
  | case1 n h => exact ⟨⟨n, h⟩, [], rfl, fun e => hn (congrArg Fin.val e)⟩
  | case2 n h ih =>
    obtain ⟨d, ds, hds, hd⟩ := ih (by omega)
    exact ⟨d, ds ++ [_], by rw [hds, List.cons_append], hd⟩

theorem decimal_cons (n : Nat) : ∃ d ds, decimal n = d :: ds := by
  by_cases hn : n = 0
  · exact ⟨0, [], by rw [hn, decimal_zero]⟩
  · obtain ⟨d, ds, h, -⟩ := decimal_of_ne_zero hn
    exact ⟨d, ds, h⟩

theorem decimal_ofDecimal {d : Digit} {ds : List Digit} (h : d = 0 → ds = []) :
    decimal (ofDecimal (d :: ds)) = d :: ds := by
  induction ds using List.reverseRecOn with
  | nil =>
    have hvalue : ofDecimal [d] = d.val := by simp [ofDecimal]
    rw [hvalue, decimal, dif_pos d.isLt]
  | append_singleton ds e ih =>
    have hd : d ≠ 0 := by
      intro hzero
      have := h hzero
      simp at this
    have hdigits := ih fun hzero => absurd hzero hd
    have hlarge : ofDecimal (d :: ds) ≠ 0 := by
      intro hzero
      rw [hzero, decimal_zero] at hdigits
      exact hd (List.cons.inj hdigits).1.symm
    have he := e.isLt
    have hdiv : (10 * ofDecimal (d :: ds) + e.val) / 10 = ofDecimal (d :: ds) := by omega
    have hmod : (10 * ofDecimal (d :: ds) + e.val) % 10 = e.val := by omega
    rw [← List.cons_append, ofDecimal_append, decimal, dif_neg (by omega)]
    exact congrArg₂ (fun xs x => xs ++ [x]) (by rw [hdiv, hdigits]) (Fin.ext hmod)

/-- What comes next, if anything does, has the property. -/
def Next (P : Char → Prop) : List Char → Prop
  | [] => True
  | c :: _ => P c

theorem Next.mono {P Q : Char → Prop} {cs : List Char} (h : Next P cs) (hpq : ∀ c, P c → Q c) :
    Next Q cs := by
  cases cs with
  | nil => trivial
  | cons c cs => exact hpq c h

namespace Number

variable {rest : List Char}

/-- Nothing comes next that could continue a number. -/
def Ends (rest : List Char) : Prop :=
  Next (fun c => digit? c = none ∧ c ≠ '.' ∧ c ≠ 'e' ∧ c ≠ 'E') rest

theorem readDigits_append (ds : List Digit) (h : Next (digit? · = none) rest) :
    readDigits (ds.map Digit.char ++ rest) = (ds, rest) := by
  induction ds with
  | nil =>
    cases rest with
    | nil => rfl
    | cons c cs =>
      have hc : digit? c = none := h
      simp [readDigits, hc]
  | cons d ds ih => simp [readDigits, digit?_char, ih]

theorem readWhole_append (n : Nat) (h : Next (digit? · = none) rest) :
    readWhole ((decimal n).map Digit.char ++ rest) = some (n, rest) := by
  have hvalue := ofDecimal_decimal n
  rw [readWhole, readDigits_append _ h]
  by_cases hn : n = 0
  · rw [hn, decimal_zero]
    rfl
  · obtain ⟨d, ds, hds, hd⟩ := decimal_of_ne_zero hn
    rw [hds] at hvalue ⊢
    simp [hd, hvalue]

theorem readFraction_append (ds : List Digit) (h : Next (fun c => digit? c = none ∧ c ≠ '.') rest) :
    readFraction (renderFraction ds ++ rest) = some (ds, rest) := by
  cases ds with
  | nil =>
    change readFraction rest = some ([], rest)
    unfold readFraction
    split
    · exact absurd rfl h.2
    · rfl
  | cons d ds =>
    change readFraction ('.' :: ((d :: ds).map Digit.char ++ rest)) = _
    rw [readFraction, readDigits_append _ (h.mono fun _ => And.left)]

def signText : Option Bool → List Char
  | none => []
  | some true => ['-']
  | some false => ['+']

theorem digit_ne {d : Digit} {c : Char} (h : digit? c = none) : d.char ≠ c := by
  rintro rfl
  rw [digit?_char] at h
  cases h

theorem readSign_append (sign : Option Bool) (d : Digit) (cs : List Char) :
    readSign (signText sign ++ d.char :: cs) = (sign, d.char :: cs) := by
  rcases sign with _ | _ | _
  · change readSign (d.char :: cs) = _
    unfold readSign
    split
    · rename_i e
      exact absurd (List.cons.inj e).1 (digit_ne rfl)
    · rename_i e
      exact absurd (List.cons.inj e).1 (digit_ne rfl)
    · rfl
  · rfl
  · rfl

theorem renderExponent_some (e : Exponent) :
    renderExponent (some e) =
      (if e.mark then 'E' else 'e') :: (signText e.sign ++ (e.first :: e.rest).map Digit.char) := by
  rcases e with ⟨mark, _ | _ | _, first, rest⟩ <;> rfl

theorem readExponentBody_append (e : Exponent) (h : Next (digit? · = none) rest) :
    readExponentBody e.mark (signText e.sign ++ ((e.first :: e.rest).map Digit.char ++ rest)) =
      some (some e, rest) := by
  have hdigits := readDigits_append (e.first :: e.rest) h
  rw [List.map_cons, List.cons_append] at hdigits ⊢
  rw [readExponentBody, readSign_append]
  dsimp only
  rw [hdigits]

theorem readExponent_append (e : Option Exponent) (h : Ends rest) :
    readExponent (renderExponent e ++ rest) = some (e, rest) := by
  cases e with
  | none =>
    change readExponent rest = some (none, rest)
    unfold readExponent
    split
    · exact absurd rfl h.2.2.1
    · exact absurd rfl h.2.2.2
    · rfl
  | some e =>
    have hbody := readExponentBody_append e (h.mono fun _ => And.left)
    rw [renderExponent_some, List.cons_append, List.append_assoc]
    cases hmark : e.mark <;> rwa [hmark] at hbody

theorem next_renderExponent (e : Option Exponent) (h : Ends rest) :
    Next (fun c => digit? c = none ∧ c ≠ '.') (renderExponent e ++ rest) := by
  cases e with
  | none => exact Next.mono h fun _ hc => ⟨hc.1, hc.2.1⟩
  | some e =>
    rw [renderExponent_some, List.cons_append]
    cases hmark : e.mark
    · exact ⟨rfl, by decide⟩
    · exact ⟨rfl, by decide⟩

theorem next_renderFraction (ds : List Digit) (h : Next (digit? · = none) rest) :
    Next (digit? · = none) (renderFraction ds ++ rest) := by
  cases ds with
  | nil => exact h
  | cons d ds => exact (rfl : digit? '.' = none)

def readUnsigned (negative : Bool) (cs : List Char) : Option (Number × List Char) := do
  let (whole, cs) ← readWhole cs
  let (fraction, cs) ← readFraction cs
  let (exponent, cs) ← readExponent cs
  return (⟨negative, whole, fraction, exponent⟩, cs)

theorem read_minus (cs : List Char) : read ('-' :: cs) = readUnsigned true cs := rfl

theorem read_of_ne {c : Char} (hc : c ≠ '-') (cs : List Char) :
    read (c :: cs) = readUnsigned false (c :: cs) := by
  unfold read
  split
  rename_i negative cs' h
  split at h
  · rename_i e
    exact absurd (List.cons.inj e).1 hc
  · obtain ⟨rfl, rfl⟩ := Prod.mk.inj h
    rfl

theorem readUnsigned_append (n : Number) (h : Ends rest) :
    readUnsigned n.negative ((decimal n.whole).map Digit.char ++
      (renderFraction n.fraction ++ (renderExponent n.exponent ++ rest))) = some (n, rest) := by
  have hexponent := readExponent_append n.exponent h
  have hnext := next_renderExponent n.exponent h
  have hfraction := readFraction_append n.fraction hnext
  have hwhole := readWhole_append n.whole
    (next_renderFraction n.fraction (hnext.mono fun _ => And.left))
  simp [readUnsigned, hwhole, hfraction, hexponent]

theorem read_append (n : Number) (h : Ends rest) : read (n.render ++ rest) = some (n, rest) := by
  have hunsigned := readUnsigned_append n h
  obtain ⟨d, ds, hds⟩ := decimal_cons n.whole
  cases hsign : n.negative
  · rw [hsign, hds] at hunsigned
    simp only [render, hsign, hds, List.append_assoc]
    exact (read_of_ne (digit_ne rfl) _).trans hunsigned
  · rw [hsign] at hunsigned
    simp only [render, hsign, List.append_assoc]
    exact (read_minus _).trans hunsigned

theorem render_cons (n : Number) :
    ∃ c cs, n.render = c :: cs ∧ (c = '-' ∨ ∃ d : Digit, c = d.char) := by
  obtain ⟨d, ds, hds⟩ := decimal_cons n.whole
  cases hsign : n.negative
  · exact ⟨d.char, _, by simp only [render, hsign, hds]; rfl, .inr ⟨d, rfl⟩⟩
  · exact ⟨'-', _, by simp only [render, hsign]; rfl, .inl rfl⟩

theorem eq_of_readDigits {cs : List Char} {ds : List Digit} (h : readDigits cs = (ds, rest)) :
    cs = ds.map Digit.char ++ rest := by
  induction cs generalizing ds with
  | nil =>
    obtain ⟨rfl, rfl⟩ := Prod.mk.inj h
    rfl
  | cons c cs ih =>
    rw [readDigits] at h
    split at h
    · obtain ⟨rfl, rfl⟩ := Prod.mk.inj h
      rfl
    · rename_i d hd
      obtain ⟨rfl, hrest⟩ := Prod.mk.inj h
      have hcs := ih (Prod.ext rfl hrest)
      rw [List.map_cons, List.cons_append, ← hcs, char_of_digit? hd]

theorem eq_of_readWhole {cs : List Char} {n : Nat} (h : readWhole cs = some (n, rest)) :
    cs = (decimal n).map Digit.char ++ rest := by
  unfold readWhole at h
  split at h
  · cases h
  · rename_i d ds cs' hread
    split at h
    · cases h
    · rename_i hlead
      obtain ⟨rfl, rfl⟩ := Prod.mk.inj (Option.some.inj h)
      rw [decimal_ofDecimal fun hd => Classical.byContradiction fun hds => hlead ⟨hd, hds⟩]
      exact eq_of_readDigits hread

theorem eq_of_readFraction {cs : List Char} {ds : List Digit}
    (h : readFraction cs = some (ds, rest)) : cs = renderFraction ds ++ rest := by
  unfold readFraction at h
  split at h
  · split at h
    · cases h
    · rename_i digits _ hne hread
      obtain ⟨rfl, rfl⟩ := Prod.mk.inj (Option.some.inj h)
      rcases digits with _ | ⟨d, ds⟩
      · exact (hne rfl).elim
      · exact congrArg ('.' :: ·) (eq_of_readDigits hread)
  · obtain ⟨rfl, rfl⟩ := Prod.mk.inj (Option.some.inj h)
    rfl

theorem eq_of_readSign (cs : List Char) : cs = signText (readSign cs).1 ++ (readSign cs).2 := by
  unfold readSign
  split <;> rfl

theorem eq_of_readExponentBody {mark : Bool} {cs : List Char} {e : Option Exponent}
    (h : readExponentBody mark cs = some (e, rest)) :
    (if mark then 'E' else 'e') :: cs = renderExponent e ++ rest := by
  have hsign := eq_of_readSign cs
  unfold readExponentBody at h
  split at h
  rename_i sign ds hread
  split at h
  · cases h
  · rename_i hdigits
    obtain ⟨rfl, rfl⟩ := Prod.mk.inj (Option.some.inj h)
    have hds := eq_of_readDigits hdigits
    rw [hread, hds] at hsign
    rw [renderExponent_some, hsign, List.cons_append, List.append_assoc]

theorem eq_of_readExponent {cs : List Char} {e : Option Exponent}
    (h : readExponent cs = some (e, rest)) : cs = renderExponent e ++ rest := by
  unfold readExponent at h
  split at h
  · exact eq_of_readExponentBody h
  · exact eq_of_readExponentBody h
  · obtain ⟨rfl, rfl⟩ := Prod.mk.inj (Option.some.inj h)
    rfl

theorem eq_of_readUnsigned {negative : Bool} {cs : List Char} {n : Number}
    (h : readUnsigned negative cs = some (n, rest)) :
    (if negative then ['-'] else []) ++ cs = n.render ++ rest := by
  simp only [readUnsigned, Option.bind_eq_bind, Option.bind_eq_some_iff, Prod.exists,
    Option.pure_def, Option.some.injEq, Prod.mk.injEq] at h
  obtain ⟨whole, cs₁, hwhole, fraction, cs₂, hfraction, exponent, cs₃, hexponent, rfl, rfl⟩ := h
  rw [eq_of_readWhole hwhole, eq_of_readFraction hfraction, eq_of_readExponent hexponent]
  simp [render]

theorem eq_of_read {cs : List Char} {n : Number} (h : read cs = some (n, rest)) :
    cs = n.render ++ rest := by
  rcases cs with _ | ⟨c, cs⟩
  · cases h
  · by_cases hc : c = '-'
    · subst hc
      exact eq_of_readUnsigned h
    · rw [read_of_ne hc] at h
      exact eq_of_readUnsigned h

end Number

end SwapFees.Json
