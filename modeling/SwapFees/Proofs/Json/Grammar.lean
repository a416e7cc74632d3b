import Mathlib.Tactic.SplitIfs
import SwapFees.Json.Parser

namespace SwapFees.Json

def Blanks (cs : List Char) : Prop := ∀ c ∈ cs, isBlank c

/-- The second text is the first between blanks. -/
def Padded (cs ds : List Char) : Prop := ∃ b b', Blanks b ∧ Blanks b' ∧ ds = b ++ (cs ++ b')

theorem Padded.refl (cs : List Char) : Padded cs cs := ⟨[], [], nofun, nofun, by simp⟩

namespace Text

/-- What a piece of a string is written as. -/
inductive Piece.Written : Piece → List Char → Prop
  | plain {c : Char} (hlow : 0x20 ≤ c.toNat) (hquote : c ≠ '"') (hslash : c ≠ '\\') :
      Written (.char c) [c]
  | escaped {letter c : Char} (h : escaped? letter = some c) : Written (.char c) ['\\', letter]
  | unit {a b c d : Char} {n : Nat} (h : unit? a b c d = some n) :
      Written (.unit n) ['\\', 'u', a, b, c, d]

inductive PiecesWritten : List Piece → List Char → Prop
  | nil : PiecesWritten [] ['"']
  | cons {p : Piece} {ps : List Piece} {cs ds : List Char} (h : p.Written cs)
      (hs : PiecesWritten ps ds) : PiecesWritten (p :: ps) (cs ++ ds)

/-- What may stand after the opening quote of a string. -/
def Written (t : Text) (cs : List Char) : Prop := ∃ ps, PiecesWritten ps cs ∧ ofPieces ps = t

theorem unit?_hexDigit {n : Nat} (h : n < 0x20) :
    unit? '0' '0' (hexDigit (n / 16)) (hexDigit (n % 16)) = some n := by
  revert n
  decide

theorem escape_cases (c : Char) :
    (∃ letter, escape c = ['\\', letter] ∧ escaped? letter = some c) ∨
      (c.toNat < 0x20 ∧
        escape c = ['\\', 'u', '0', '0', hexDigit (c.toNat / 16), hexDigit (c.toNat % 16)]) ∨
      (0x20 ≤ c.toNat ∧ c ≠ '"' ∧ c ≠ '\\' ∧ escape c = [c]) := by
  unfold escape
  split_ifs with hquote hslash hb hf hn hr ht hlow
  any_goals exact .inl ⟨_, rfl, by subst c; rfl⟩
  · exact .inr (.inl ⟨hlow, rfl⟩)
  · exact .inr (.inr ⟨Nat.le_of_not_lt hlow, hquote, hslash, rfl⟩)

theorem escape_written (c : Char) :
    ∃ p : Piece, p.Written (escape c) ∧ ∀ ps, join (p :: ps) = (join ps).map (c :: ·) := by
  obtain ⟨letter, hc, hletter⟩ | ⟨hlow, hc⟩ | ⟨hhigh, hquote, hslash, hc⟩ := escape_cases c
  · rw [hc]
    exact ⟨.char c, .escaped hletter, fun _ => rfl⟩
  · rw [hc]
    refine ⟨.unit c.toNat, .unit (unit?_hexDigit hlow), fun ps => ?_⟩
    have hisLow : isLow c.toNat = false := by simp [isLow]; omega
    have hisHigh : isHigh c.toNat = false := by simp [isHigh]; omega
    rw [join.eq_def]
    simp [hisLow, hisHigh]
  · rw [hc]
    exact ⟨.char c, .plain hhigh hquote hslash, fun _ => rfl⟩

theorem written_escapes (cs : List Char) :
    ∃ ps, PiecesWritten ps (cs.flatMap escape ++ ['"']) ∧ join ps = some cs := by
  induction cs with
  | nil => exact ⟨[], .nil, rfl⟩
  | cons c cs ih =>
    obtain ⟨ps, hps, hjoin⟩ := ih
    obtain ⟨p, hp, hone⟩ := escape_written c
    refine ⟨p :: ps, ?_, by rw [hone, hjoin]; rfl⟩
    rw [List.flatMap_cons, List.append_assoc]
    exact .cons hp hps

theorem render_written (t : Text) : ∃ cs, t.render = '"' :: cs ∧ t.Written cs := by
  cases t with
  | proper s =>
    obtain ⟨ps, hps, hjoin⟩ := written_escapes s.toList
    exact ⟨_, rfl, ps, hps, by simp [ofPieces, hjoin]⟩
  | broken => exact ⟨_, rfl, [.unit 0xd800], .cons (.unit rfl) .nil, rfl⟩

end Text

mutual

/-- What a value is written as, from its first character to its last. -/
inductive Written : Json → List Char → Prop
  | null : Written null ['n', 'u', 'l', 'l']
  | isTrue : Written (bool true) ['t', 'r', 'u', 'e']
  | isFalse : Written (bool false) ['f', 'a', 'l', 's', 'e']
  | number (n : Number) : Written (number n) n.render
  | text {t : Text} {cs : List Char} (h : t.Written cs) : Written (text t) ('"' :: cs)
  | emptyArray {b : List Char} (hb : Blanks b) : Written (array []) ('[' :: (b ++ [']']))
  | array {vs : List Json} {cs : List Char} (h : ItemsWritten vs cs) :
      Written (array vs) ('[' :: cs)
  | emptyObject {b : List Char} (hb : Blanks b) : Written (object []) ('\x7b' :: (b ++ ['\x7d']))
  | object {fs : List (Text × Json)} {cs : List Char} (h : FieldsWritten fs cs) :
      Written (object fs) ('\x7b' :: cs)

inductive ItemsWritten : List Json → List Char → Prop
  | last {v : Json} {cs ds : List Char} (h : Written v cs) (hpad : Padded cs ds) :
      ItemsWritten [v] (ds ++ [']'])
  | more {v : Json} {vs : List Json} {cs ds es : List Char} (h : Written v cs)
      (hpad : Padded cs ds) (hs : ItemsWritten vs es) : ItemsWritten (v :: vs) (ds ++ ',' :: es)

inductive FieldsWritten : List (Text × Json) → List Char → Prop
  | last {k : Text} {v : Json} {ks ls cs ds : List Char} (hk : k.Written ks)
      (hkpad : Padded ('"' :: ks) ls) (h : Written v cs) (hpad : Padded cs ds) :
      FieldsWritten [(k, v)] (ls ++ ':' :: (ds ++ ['\x7d']))
  | more {k : Text} {v : Json} {fs : List (Text × Json)} {ks ls cs ds es : List Char}
      (hk : k.Written ks) (hkpad : Padded ('"' :: ks) ls) (h : Written v cs) (hpad : Padded cs ds)
      (hs : FieldsWritten fs es) : FieldsWritten ((k, v) :: fs) (ls ++ ':' :: (ds ++ ',' :: es))

end

mutual

theorem render_written : (j : Json) → Written j j.render
  | null => .null
  | bool true => .isTrue
  | bool false => .isFalse
  | number n => .number n
  | text t => by
    obtain ⟨cs, hrender, hcs⟩ := t.render_written
    change Written _ t.render
    rw [hrender]
    exact .text hcs
  | array [] => .emptyArray (b := []) nofun
  | array (v :: vs) => .array (renderItems_written (v :: vs) nofun)
  | object [] => .emptyObject (b := []) nofun
  | object (f :: fs) => .object (renderFields_written (f :: fs) nofun)

theorem renderItems_written : (vs : List Json) → vs ≠ [] → ItemsWritten vs (renderItems vs)
  | [v], _ => .last (render_written v) (.refl _)
  | v :: w :: vs, _ => .more (render_written v) (.refl _) (renderItems_written (w :: vs) nofun)

theorem renderFields_written :
    (fs : List (Text × Json)) → fs ≠ [] → FieldsWritten fs (renderFields fs)
  | [(k, v)], _ => by
    obtain ⟨cs, hrender, hcs⟩ := k.render_written
    change FieldsWritten _ (k.render ++ _)
    rw [hrender]
    exact .last hcs (.refl _) (render_written v) (.refl _)
  | (k, v) :: f :: fs, _ => by
    obtain ⟨cs, hrender, hcs⟩ := k.render_written
    change FieldsWritten _ (k.render ++ _)
    rw [hrender]
    exact .more hcs (.refl _) (render_written v) (.refl _) (renderFields_written (f :: fs) nofun)

end

end SwapFees.Json
