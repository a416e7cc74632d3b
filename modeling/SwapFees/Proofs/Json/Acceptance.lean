import SwapFees.Proofs.Json.Reading

namespace SwapFees.Json

variable {cs rest : List Char}

theorem exists_blanks (cs : List Char) : ∃ b, Blanks b ∧ cs = b ++ skipBlanks cs :=
  ⟨cs.takeWhile isBlank, fun _ hc => List.mem_takeWhile_imp hc,
    List.takeWhile_append_dropWhile.symm⟩

theorem read_of_cons {α : Type} {x : α} {r : Option (List α × List Char)} {xs : List α}
    (h : (do let (ys, cs) ← r; return (x :: ys, cs)) = some (xs, rest)) :
    ∃ ys, r = some (ys, rest) ∧ xs = x :: ys := by
  obtain ⟨⟨ys, es⟩, hread, h⟩ := Option.bind_eq_some_iff.1 h
  obtain ⟨rfl, rfl⟩ := Prod.mk.inj (Option.some.inj h)
  exact ⟨ys, hread, rfl⟩

namespace Text

theorem pieces_of_read {ps : List Piece} (h : readPieces cs = some (ps, rest)) :
    ∃ ds, PiecesWritten ps ds ∧ cs = ds ++ rest := by
  fun_induction readPieces cs generalizing ps with
  | case1 => cases h
  | case2 cs =>
    obtain ⟨rfl, rfl⟩ := Prod.mk.inj (Option.some.inj h)
    exact ⟨_, .nil, rfl⟩
  | case3 a b c d cs ih =>
    obtain ⟨n, hn, h⟩ := Option.bind_eq_some_iff.1 h
    obtain ⟨qs, hread, rfl⟩ := read_of_cons h
    obtain ⟨ds, hds, rfl⟩ := ih hread
    exact ⟨_, .cons (.unit hn) hds, rfl⟩
  | case4 c cs _ ih =>
    obtain ⟨e, he, h⟩ := Option.bind_eq_some_iff.1 h
    obtain ⟨qs, hread, rfl⟩ := read_of_cons h
    obtain ⟨ds, hds, rfl⟩ := ih hread
    exact ⟨_, .cons (.escaped he) hds, rfl⟩
  | case5 c cs hlow => cases h
  | case6 c cs hquote _ hslash hlow ih =>
    obtain ⟨qs, hread, rfl⟩ := read_of_cons h
    have hplain : c ≠ '\\' := by
      rintro rfl
      -- A backslash at the very end escapes nothing.
      rcases cs with _ | ⟨d, cs⟩
      · cases hread
      · exact hslash d cs rfl rfl
    obtain ⟨ds, hds, rfl⟩ := ih hread
    exact ⟨_, .cons (.plain (Nat.le_of_not_lt hlow) hquote hplain) hds, rfl⟩

theorem written_of_read {t : Text} (h : read cs = some (t, rest)) :
    ∃ ds, t.Written ds ∧ cs = ds ++ rest := by
  obtain ⟨⟨ps, es⟩, hread, e⟩ := Option.map_eq_some_iff.1 h
  obtain ⟨rfl, rfl⟩ := Prod.mk.inj e
  obtain ⟨ds, hds, rfl⟩ := pieces_of_read hread
  exact ⟨ds, ⟨ps, hds, rfl⟩, rfl⟩

end Text

section Steps

variable {n : Nat}

def ValuesAccepted (n : Nat) : Prop :=
  ∀ {cs rest : List Char} {v : Json}, readValue n cs = some (v, rest) →
    ∃ b ds, Blanks b ∧ Written v ds ∧ cs = b ++ (ds ++ rest)

def ItemsAccepted (n : Nat) : Prop :=
  ∀ {cs rest : List Char} {vs : List Json}, readItems n cs = some (vs, rest) →
    ∃ ds, ItemsWritten vs ds ∧ cs = ds ++ rest

def FieldsAccepted (n : Nat) : Prop :=
  ∀ {cs rest : List Char} {fs : List (Text × Json)}, readFields n cs = some (fs, rest) →
    ∃ ds, FieldsWritten fs ds ∧ cs = ds ++ rest

theorem valuesAccepted_succ (hitems : ItemsAccepted n) (hfields : FieldsAccepted n) :
    ValuesAccepted (n + 1) := by
  intro cs rest v h
  obtain ⟨b, hb, hcs⟩ := exists_blanks cs
  refine ⟨b, ?_⟩
  rw [readValue] at h
  split at h
  · rename_i e
    obtain ⟨rfl, rfl⟩ := Prod.mk.inj (Option.some.inj h)
    exact ⟨_, hb, .null, by rw [hcs, e]; rfl⟩
  · rename_i e
    obtain ⟨rfl, rfl⟩ := Prod.mk.inj (Option.some.inj h)
    exact ⟨_, hb, .isTrue, by rw [hcs, e]; rfl⟩
  · rename_i e
    obtain ⟨rfl, rfl⟩ := Prod.mk.inj (Option.some.inj h)
    exact ⟨_, hb, .isFalse, by rw [hcs, e]; rfl⟩
  · rename_i e
    obtain ⟨⟨t, es⟩, hread, e'⟩ := Option.map_eq_some_iff.1 h
    obtain ⟨rfl, rfl⟩ := Prod.mk.inj e'
    obtain ⟨ds, hds, rfl⟩ := Text.written_of_read hread
    exact ⟨_, hb, .text hds, by rw [hcs, e]; rfl⟩
  · rename_i es e
    obtain ⟨b', hb', hes⟩ := exists_blanks es
    split at h
    · rename_i e'
      obtain ⟨rfl, rfl⟩ := Prod.mk.inj (Option.some.inj h)
      exact ⟨_, hb, .emptyArray hb', by rw [hcs, e, hes, e']; simp⟩
    · rw [readItems_skipBlanks] at h
      obtain ⟨⟨vs, fs⟩, hread, e'⟩ := Option.map_eq_some_iff.1 h
      obtain ⟨rfl, rfl⟩ := Prod.mk.inj e'
      obtain ⟨ds, hds, rfl⟩ := hitems hread
      exact ⟨_, hb, .array hds, by rw [hcs, e]; rfl⟩
  · rename_i es e
    obtain ⟨b', hb', hes⟩ := exists_blanks es
    split at h
    · rename_i e'
      obtain ⟨rfl, rfl⟩ := Prod.mk.inj (Option.some.inj h)
      exact ⟨_, hb, .emptyObject hb', by rw [hcs, e, hes, e']; simp⟩
    · rw [readFields_skipBlanks] at h
      obtain ⟨⟨vs, fs⟩, hread, e'⟩ := Option.map_eq_some_iff.1 h
      obtain ⟨rfl, rfl⟩ := Prod.mk.inj e'
      obtain ⟨ds, hds, rfl⟩ := hfields hread
      exact ⟨_, hb, .object hds, by rw [hcs, e]; rfl⟩
  · obtain ⟨⟨m, es⟩, hread, e'⟩ := Option.map_eq_some_iff.1 h
    obtain ⟨rfl, rfl⟩ := Prod.mk.inj e'
    exact ⟨_, hb, .number m, hcs.trans (congrArg (b ++ ·) (Number.eq_of_read hread))⟩

/-- What a value takes of a text, up to the mark behind it, is a text of it between blanks. -/
theorem ValuesAccepted.padded (hvalues : ValuesAccepted n) {v : Json} {es : List Char}
    (h : readValue n cs = some (v, es)) {mark : Char} (hmark : skipBlanks es = mark :: rest) :
    ∃ ds ls, Written v ds ∧ Padded ds ls ∧ cs = ls ++ mark :: rest := by
  obtain ⟨b, ds, hb, hds, hcs⟩ := hvalues h
  obtain ⟨b', hb', hes⟩ := exists_blanks es
  refine ⟨ds, b ++ (ds ++ b'), hds, ⟨b, b', hb, hb', rfl⟩, ?_⟩
  rw [hcs, hes, hmark]
  simp

theorem itemsAccepted_succ (hvalues : ValuesAccepted n) (hitems : ItemsAccepted n) :
    ItemsAccepted (n + 1) := by
  intro cs rest vs h
  rw [readItems] at h
  obtain ⟨⟨v, es⟩, hvalue, h⟩ := Option.bind_eq_some_iff.1 h
  dsimp only at h
  split at h
  · rename_i hmark
    obtain ⟨ws, hread, rfl⟩ := read_of_cons h
    obtain ⟨is, his, rfl⟩ := hitems hread
    obtain ⟨ds, ls, hds, hpad, rfl⟩ := hvalues.padded hvalue hmark
    exact ⟨_, .more hds hpad his, by simp⟩
  · rename_i hmark
    obtain ⟨rfl, rfl⟩ := Prod.mk.inj (Option.some.inj h)
    obtain ⟨ds, ls, hds, hpad, rfl⟩ := hvalues.padded hvalue hmark
    exact ⟨_, .last hds hpad, by simp⟩
  · cases h

theorem name_padded {k : Text} {ks es ls : List Char} (hquote : skipBlanks cs = '"' :: ks)
    (hkey : Text.read ks = some (k, es)) (hcolon : skipBlanks es = ':' :: ls) :
    ∃ qs ms, k.Written qs ∧ Padded ('"' :: qs) ms ∧ cs = ms ++ ':' :: ls := by
  obtain ⟨qs, hqs, hks⟩ := Text.written_of_read hkey
  obtain ⟨b, hb, hcs⟩ := exists_blanks cs
  obtain ⟨b', hb', hes⟩ := exists_blanks es
  refine ⟨qs, b ++ ('"' :: qs ++ b'), hqs, ⟨b, b', hb, hb', rfl⟩, ?_⟩
  rw [hcs, hquote, hks, hes, hcolon]
  simp

theorem fieldsAccepted_succ (hvalues : ValuesAccepted n) (hfields : FieldsAccepted n) :
    FieldsAccepted (n + 1) := by
  intro cs rest fs h
  rw [readFields] at h
  split at h
  · rename_i hquote
    obtain ⟨⟨k, es⟩, hkey, h⟩ := Option.bind_eq_some_iff.1 h
    dsimp only at h
    split at h
    · rename_i hcolon
      obtain ⟨qs, ls, hqs, hname, rfl⟩ := name_padded hquote hkey hcolon
      obtain ⟨⟨v, vs⟩, hvalue, h⟩ := Option.bind_eq_some_iff.1 h
      dsimp only at h
      split at h
      · rename_i hmark
        obtain ⟨gs, hread, rfl⟩ := read_of_cons h
        obtain ⟨is, his, rfl⟩ := hfields hread
        obtain ⟨ds, ms, hds, hpad, rfl⟩ := hvalues.padded hvalue hmark
        exact ⟨_, .more hqs hname hds hpad his, by simp⟩
      · rename_i hmark
        obtain ⟨rfl, rfl⟩ := Prod.mk.inj (Option.some.inj h)
        obtain ⟨ds, ms, hds, hpad, rfl⟩ := hvalues.padded hvalue hmark
        exact ⟨_, .last hqs hname hds hpad, by simp⟩
      · cases h
    · cases h
  · cases h

end Steps

theorem accepted (n : Nat) : ValuesAccepted n ∧ ItemsAccepted n ∧ FieldsAccepted n := by
  induction n with
  | zero => exact ⟨nofun, nofun, nofun⟩
  | succ n ih =>
    obtain ⟨hvalues, hitems, hfields⟩ := ih
    exact ⟨valuesAccepted_succ hitems hfields, itemsAccepted_succ hvalues hitems,
      fieldsAccepted_succ hvalues hfields⟩

/-- The reader accepts exactly the texts of a document, as that document. -/
theorem parse_iff {v : Json} : parse cs = some v ↔ ∃ ds, Written v ds ∧ Padded ds cs := by
  constructor
  · intro h
    obtain ⟨⟨w, es⟩, hread, h⟩ := Option.bind_eq_some_iff.1 h
    obtain ⟨b, ds, hb, hds, hcs⟩ := (accepted _).1 hread
    obtain ⟨b', hb', hes⟩ := exists_blanks es
    dsimp only at h
    split at h
    · rename_i hend
      obtain rfl := Option.some.inj h
      rw [List.isEmpty_iff.1 hend, List.append_nil] at hes
      exact ⟨ds, hds, b, es, hb, hes ▸ hb', hcs⟩
    · cases h
  · rintro ⟨ds, hds, hpad⟩
    exact parse_of_padded hds hpad

end SwapFees.Json
