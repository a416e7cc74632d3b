import Mathlib.Data.List.DropRight
import SwapFees.Proofs.Json.Grammar
import SwapFees.Proofs.Json.Numeral

namespace SwapFees.Json

variable {b rest : List Char}

section Blanks

theorem skipBlanks_append (hb : Blanks b) (cs : List Char) : skipBlanks (b ++ cs) = skipBlanks cs :=
  List.dropWhile_append_of_pos hb

theorem skipBlanks_cons {c : Char} (hc : isBlank c = false) (cs : List Char) :
    skipBlanks (c :: cs) = c :: cs := by
  simp [skipBlanks, hc]

theorem skipBlanks_skipBlanks (cs : List Char) : skipBlanks (skipBlanks cs) = skipBlanks cs :=
  List.dropWhile_idempotent isBlank cs

theorem readValue_skipBlanks (n : Nat) (cs : List Char) :
    readValue n (skipBlanks cs) = readValue n cs := by
  cases n with
  | zero => rfl
  | succ n => rw [readValue, readValue, skipBlanks_skipBlanks]

theorem readItems_skipBlanks (n : Nat) (cs : List Char) :
    readItems n (skipBlanks cs) = readItems n cs := by
  cases n with
  | zero => rfl
  | succ n => rw [readItems, readItems, readValue_skipBlanks]

theorem readFields_skipBlanks (n : Nat) (cs : List Char) :
    readFields n (skipBlanks cs) = readFields n cs := by
  cases n with
  | zero => rfl
  | succ n => rw [readFields, readFields, skipBlanks_skipBlanks]

theorem ends_append (hb : Blanks b) (h : Number.Ends rest) : Number.Ends (b ++ rest) := by
  cases b with
  | nil => exact h
  | cons c b =>
    have hc : isBlank c := hb c (List.mem_cons_self ..)
    simp [isBlank] at hc
    obtain rfl | rfl | rfl | rfl := hc
    all_goals exact ⟨rfl, by decide, by decide, by decide⟩

end Blanks

namespace Text

theorem readPieces_append {ps : List Piece} {cs : List Char} (h : PiecesWritten ps cs) :
    readPieces (cs ++ rest) = some (ps, rest) := by
  induction h with
  | nil => rfl
  | cons hp hs ih =>
    cases hp with
    | plain hlow hquote hslash =>
      simp [readPieces, hslash, ih, hlow]
    | @escaped letter c hletter =>
      have hu : letter ≠ 'u' := by
        rintro rfl
        cases hletter
      simp [readPieces, hletter, ih, hu]
    | unit hunit =>
      simp [readPieces, hunit, ih]

theorem read_append {t : Text} {cs : List Char} (h : t.Written cs) :
    read (cs ++ rest) = some (t, rest) := by
  obtain ⟨ps, hps, rfl⟩ := h
  rw [read, readPieces_append hps]
  rfl

end Text

theorem isBlank_char (d : Digit) : isBlank d.char = false := by
  revert d
  decide

theorem Written.cons {v : Json} {cs : List Char} (h : Written v cs) :
    ∃ c ds, cs = c :: ds ∧ isBlank c = false ∧ c ≠ ']' := by
  cases h with
  | number n =>
    obtain ⟨c, ds, hrender, rfl | ⟨d, rfl⟩⟩ := n.render_cons
    · exact ⟨_, _, hrender, rfl, by decide⟩
    · exact ⟨_, _, hrender, isBlank_char d, Number.digit_ne rfl⟩
  | _ => exact ⟨_, _, rfl, rfl, by decide⟩

theorem Padded.next {P : Char → Prop} {cs ds : List Char} (h : Padded cs ds)
    (hcs : ∃ c es, cs = c :: es ∧ isBlank c = false ∧ P c) : Next P (skipBlanks (ds ++ rest)) := by
  obtain ⟨b, b', hb, -, rfl⟩ := h
  obtain ⟨c, es, rfl, hc, hP⟩ := hcs
  rw [List.append_assoc, skipBlanks_append hb, List.cons_append, List.cons_append,
    skipBlanks_cons hc]
  exact hP

theorem ItemsWritten.next {vs : List Json} {cs : List Char} (h : ItemsWritten vs cs) :
    Next (· ≠ ']') (skipBlanks (cs ++ rest)) := by
  cases h with
  | last h hpad =>
    rw [List.append_assoc]
    exact hpad.next h.cons
  | more h hpad hs =>
    rw [List.append_assoc]
    exact hpad.next h.cons

theorem FieldsWritten.next {fs : List (Text × Json)} {cs : List Char} (h : FieldsWritten fs cs) :
    Next (· ≠ '\x7d') (skipBlanks (cs ++ rest)) := by
  cases h with
  | last hk hkpad h hpad =>
    rw [List.append_assoc]
    exact hkpad.next ⟨_, _, rfl, rfl, by decide⟩
  | more hk hkpad h hpad hs =>
    rw [List.append_assoc]
    exact hkpad.next ⟨_, _, rfl, rfl, by decide⟩

section Steps

variable {n : Nat}

theorem readValue_number {c : Char} (hc : c = '-' ∨ ∃ d : Digit, c = d.char) (cs : List Char) :
    readValue (n + 1) (c :: cs) = (Number.read (c :: cs)).map fun (m, cs) => (number m, cs) := by
  obtain rfl | ⟨d, rfl⟩ := hc
  · rfl
  · rw [readValue, skipBlanks_cons (isBlank_char d)]
    split
    case h_7 => rfl
    -- No other value begins with a digit.
    all_goals
      rename_i e
      exact absurd (List.cons.inj e).1 (Number.digit_ne rfl)

theorem readValue_bracket (n : Nat) (cs : List Char) :
    readValue (n + 1) ('[' :: cs) =
      match skipBlanks cs with
      | ']' :: cs => some (array [], cs)
      | cs => (readItems n cs).map fun (vs, cs) => (array vs, cs) := rfl

theorem readValue_brace (n : Nat) (cs : List Char) :
    readValue (n + 1) ('\x7b' :: cs) =
      match skipBlanks cs with
      | '\x7d' :: cs => some (object [], cs)
      | cs => (readFields n cs).map fun (fs, cs) => (object fs, cs) := rfl

theorem readValue_array {cs : List Char} (h : Next (· ≠ ']') (skipBlanks cs)) :
    readValue (n + 1) ('[' :: cs) = (readItems n cs).map fun (vs, cs) => (array vs, cs) := by
  rw [← readItems_skipBlanks, readValue_bracket]
  split
  · rename_i e
    rw [e] at h
    exact absurd rfl h
  · rfl

theorem readValue_object {cs : List Char} (h : Next (· ≠ '\x7d') (skipBlanks cs)) :
    readValue (n + 1) ('\x7b' :: cs) = (readFields n cs).map fun (fs, cs) => (object fs, cs) := by
  rw [← readFields_skipBlanks, readValue_brace]
  split
  · rename_i e
    rw [e] at h
    exact absurd rfl h
  · rfl

theorem readValue_emptyArray (hb : Blanks b) :
    readValue (n + 1) ('[' :: (b ++ ']' :: rest)) = some (array [], rest) := by
  rw [readValue_bracket, skipBlanks_append hb, skipBlanks_cons rfl]
  rfl

theorem readValue_emptyObject (hb : Blanks b) :
    readValue (n + 1) ('\x7b' :: (b ++ '\x7d' :: rest)) = some (object [], rest) := by
  rw [readValue_brace, skipBlanks_append hb, skipBlanks_cons rfl]
  rfl

theorem readItems_last {v : Json} {cs ds : List Char} (hvalue : readValue n cs = some (v, ds))
    (hmark : skipBlanks ds = ']' :: rest) : readItems (n + 1) cs = some ([v], rest) := by
  simp [readItems, hvalue, hmark]

theorem readItems_more {v : Json} {vs : List Json} {cs ds es : List Char}
    (hvalue : readValue n cs = some (v, ds)) (hmark : skipBlanks ds = ',' :: es)
    (hmore : readItems n es = some (vs, rest)) : readItems (n + 1) cs = some (v :: vs, rest) := by
  simp [readItems, hvalue, hmark, hmore]

section Field

variable {k : Text} {v : Json} {cs ds es ls vs : List Char}

theorem readFields_last (hquote : skipBlanks cs = '"' :: ds) (hkey : Text.read ds = some (k, es))
    (hcolon : skipBlanks es = ':' :: ls) (hvalue : readValue n ls = some (v, vs))
    (hmark : skipBlanks vs = '\x7d' :: rest) : readFields (n + 1) cs = some ([(k, v)], rest) := by
  simp [readFields, hquote, hkey, hcolon, hvalue, hmark]

theorem readFields_more {fs : List (Text × Json)} {ms : List Char}
    (hquote : skipBlanks cs = '"' :: ds) (hkey : Text.read ds = some (k, es))
    (hcolon : skipBlanks es = ':' :: ls) (hvalue : readValue n ls = some (v, vs))
    (hmark : skipBlanks vs = ',' :: ms) (hmore : readFields n ms = some (fs, rest)) :
    readFields (n + 1) cs = some ((k, v) :: fs, rest) := by
  simp [readFields, hquote, hkey, hcolon, hvalue, hmark, hmore]

end Field

/-- A value is read from every text of it that the bound covers. -/
def ReadsValues (n : Nat) : Prop :=
  ∀ {v : Json} {cs rest : List Char}, Written v cs → Number.Ends rest → cs.length ≤ n →
    readValue n (cs ++ rest) = some (v, rest)

def ReadsItems (n : Nat) : Prop :=
  ∀ {vs : List Json} {cs rest : List Char}, ItemsWritten vs cs → cs.length ≤ n →
    readItems n (cs ++ rest) = some (vs, rest)

def ReadsFields (n : Nat) : Prop :=
  ∀ {fs : List (Text × Json)} {cs rest : List Char}, FieldsWritten fs cs → cs.length ≤ n →
    readFields n (cs ++ rest) = some (fs, rest)

theorem readsValues_succ (hitems : ReadsItems n) (hfields : ReadsFields n) :
    ReadsValues (n + 1) := by
  intro v cs rest h hends hn
  cases h with
  | null => rfl
  | isTrue => rfl
  | isFalse => rfl
  | number m =>
    obtain ⟨c, ds, hrender, hc⟩ := m.render_cons
    have hread := Number.read_append m hends
    rw [hrender] at hread ⊢
    rw [List.cons_append, readValue_number hc, ← List.cons_append, hread]
    rfl
  | text ht =>
    change (Text.read (_ ++ rest)).map _ = _
    rw [Text.read_append ht]
    rfl
  | emptyArray hb =>
    rw [List.cons_append, List.append_assoc]
    exact readValue_emptyArray hb
  | array h =>
    rw [List.cons_append, readValue_array h.next, hitems h (Nat.le_of_succ_le_succ hn)]
    rfl
  | emptyObject hb =>
    rw [List.cons_append, List.append_assoc]
    exact readValue_emptyObject hb
  | object h =>
    rw [List.cons_append, readValue_object h.next, hfields h (Nat.le_of_succ_le_succ hn)]
    rfl

/-- What may follow an item or a field. -/
def IsMark (c : Char) : Prop := c = ',' ∨ c = ']' ∨ c = '\x7d'

theorem IsMark.ends {c : Char} (h : IsMark c) (cs : List Char) : Number.Ends (c :: cs) := by
  obtain rfl | rfl | rfl := h
  all_goals exact ⟨rfl, by decide, by decide, by decide⟩

theorem IsMark.isBlank {c : Char} (h : IsMark c) : isBlank c = false := by
  obtain rfl | rfl | rfl := h <;> rfl

/-- A value between blanks is read, and the mark behind it is found past them. -/
theorem ReadsValues.padded (hvalues : ReadsValues n) {v : Json} {cs ds : List Char} {mark : Char}
    (h : Written v cs) (hpad : Padded cs ds) (hmark : IsMark mark) (hn : ds.length ≤ n) :
    ∃ es, readValue n (ds ++ mark :: rest) = some (v, es) ∧ skipBlanks es = mark :: rest := by
  obtain ⟨b, b', hb, hb', rfl⟩ := hpad
  refine ⟨b' ++ mark :: rest, ?_, by rw [skipBlanks_append hb', skipBlanks_cons hmark.isBlank]⟩
  have hcs : cs.length ≤ n := by
    simp at hn
    omega
  rw [← readValue_skipBlanks, List.append_assoc, List.append_assoc, skipBlanks_append hb,
    readValue_skipBlanks]
  exact hvalues h (ends_append hb' (hmark.ends rest)) hcs

theorem read_name {k : Text} {ks ls : List Char} (hk : k.Written ks) (hpad : Padded ('"' :: ks) ls)
    (cs : List Char) :
    ∃ ds es, skipBlanks (ls ++ ':' :: cs) = '"' :: ds ∧ Text.read ds = some (k, es) ∧
      skipBlanks es = ':' :: cs := by
  obtain ⟨b, b', hb, hb', rfl⟩ := hpad
  refine ⟨ks ++ (b' ++ ':' :: cs), b' ++ ':' :: cs, ?_, Text.read_append hk, ?_⟩
  · rw [List.append_assoc, skipBlanks_append hb, List.append_assoc, List.cons_append,
      skipBlanks_cons rfl]
  · rw [skipBlanks_append hb', skipBlanks_cons rfl]

theorem readsItems_succ (hvalues : ReadsValues n) (hitems : ReadsItems n) : ReadsItems (n + 1) := by
  intro vs cs rest h hn
  cases h with
  | last h hpad =>
    simp at hn
    obtain ⟨es, hvalue, hmark⟩ := hvalues.padded h hpad (.inr (.inl rfl)) hn
    rw [List.append_assoc]
    exact readItems_last hvalue hmark
  | @more v vs cs ds is h hpad hs =>
    simp at hn
    obtain ⟨es, hvalue, hmark⟩ := hvalues.padded h hpad (.inl rfl) (by omega)
    rw [List.append_assoc]
    exact readItems_more hvalue hmark (hitems hs (by omega))

theorem readsFields_succ (hvalues : ReadsValues n) (hfields : ReadsFields n) :
    ReadsFields (n + 1) := by
  intro fs cs rest h hn
  cases h with
  | @last k v ks ls cs ds hk hkpad h hpad =>
    simp at hn
    obtain ⟨ms, hvalue, hmark⟩ := hvalues.padded h hpad (.inr (.inr rfl)) (by omega)
    obtain ⟨ns, es, hquote, hkey, hcolon⟩ := read_name hk hkpad (ds ++ '\x7d' :: rest)
    rw [List.append_assoc, List.cons_append, List.append_assoc]
    exact readFields_last hquote hkey hcolon hvalue hmark
  | @more k v fs ks ls cs ds is hk hkpad h hpad hs =>
    simp at hn
    obtain ⟨ms, hvalue, hmark⟩ := hvalues.padded h hpad (.inl rfl) (by omega)
    obtain ⟨ns, es, hquote, hkey, hcolon⟩ := read_name hk hkpad (ds ++ ',' :: (is ++ rest))
    rw [List.append_assoc, List.cons_append, List.append_assoc]
    exact readFields_more hquote hkey hcolon hvalue hmark (hfields hs (by omega))

end Steps

/-- By induction on the bound, as each reader leaves its own to the others. -/
theorem reads (n : Nat) : ReadsValues n ∧ ReadsItems n ∧ ReadsFields n := by
  induction n with
  | zero =>
    refine ⟨?_, ?_, ?_⟩
    · intro v cs rest h _ hn
      obtain ⟨c, ds, rfl, -⟩ := h.cons
      cases hn
    · intro vs cs rest h hn
      cases h <;> simp at hn
    · intro fs cs rest h hn
      cases h <;> simp at hn
  | succ n ih =>
    obtain ⟨hvalues, hitems, hfields⟩ := ih
    exact ⟨readsValues_succ hitems hfields, readsItems_succ hvalues hitems,
      readsFields_succ hvalues hfields⟩

theorem parse_of_padded {v : Json} {cs ds : List Char} (h : Written v cs) (hpad : Padded cs ds) :
    parse ds = some v := by
  obtain ⟨b, b', hb, hb', rfl⟩ := hpad
  have hends : Number.Ends b' := by
    rw [← List.append_nil b']
    exact ends_append hb' trivial
  have hskip : skipBlanks b' = [] := by
    rw [← List.append_nil b']
    exact skipBlanks_append hb' []
  have hread : readValue (2 * (b ++ (cs ++ b')).length + 1) (b ++ (cs ++ b')) = some (v, b') := by
    rw [← readValue_skipBlanks, skipBlanks_append hb, readValue_skipBlanks]
    apply (reads _).1 h hends
    simp
    omega
  rw [parse, hread]
  simp [hskip]

/-- Reading undoes printing. -/
theorem parse_render (j : Json) : parse j.render = some j :=
  parse_of_padded (render_written j) (.refl _)

end SwapFees.Json
