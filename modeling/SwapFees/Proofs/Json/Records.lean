import Mathlib.Data.List.Permutation
import SwapFees.Json.Records
import SwapFees.Proofs.Json.Acceptance

namespace SwapFees

namespace Json

variable {α β γ : Type}

/-- A text of a document, with blanks around it or without. -/
def TextOf (j : Json) (s : String) : Prop := ∃ cs, Written j cs ∧ Padded cs s.toList

theorem textOf_iff {j : Json} {s : String} : TextOf j s ↔ ofText? s = some j := parse_iff.symm

theorem textOf_toText (j : Json) : TextOf j j.toText := by
  rw [textOf_iff, ofText?, toText, String.toList_ofList]
  exact parse_render j

/-- What a text is read as, if it is a document that `read` takes. -/
def decode? (read : Json → Option α) (s : String) : Option α := (ofText? s).bind read

theorem decode?_of_textOf {read : Json → Option α} {j : Json} {s : String} (h : TextOf j s) :
    decode? read s = read j := by
  rw [decode?, textOf_iff.1 h]
  rfl

/-- Fields of other names. -/
def NamedOtherwise (names : List String) (fields : List (Text × Json)) : Prop :=
  ∀ f ∈ fields, ∃ name, f.1 = .proper name ∧ name ∉ names

theorem NamedOtherwise.nil (names : List String) : NamedOtherwise names [] := nofun

/-- The documents of a record of two fields: the array of what they hold, or an object that has the
fields in any place among others. -/
inductive RecordOf (a : String) (x : Json) (b : String) (y : Json) : Json → Prop
  | array : RecordOf a x b y (array [x, y])
  | object {fields extra : List (Text × Json)} (hextra : NamedOtherwise [a, b] extra)
      (hperm : fields.Perm ((.proper a, x) :: (.proper b, y) :: extra)) :
      RecordOf a x b y (object fields)

section Fields

variable {names : List String} {name a b : String} {known fields extra : List (Text × Json)}
  {x y : Json}

theorem named_cons (name other : String) (x : Json) (fs : List (Text × Json)) :
    named name ((.proper other, x) :: fs) =
      if other = name then x :: named name fs else named name fs := by
  unfold named
  by_cases h : other = name <;> simp [h]

theorem named_eq_nil (hextra : NamedOtherwise names extra) (hname : name ∈ names) :
    named name extra = [] := by
  unfold named
  rw [List.map_eq_nil_iff, List.filter_eq_nil_iff]
  intro f hf
  obtain ⟨other, hother, hnot⟩ := hextra f hf
  rw [hother]
  simp only [Text.proper.injEq, decide_eq_true_eq]
  rintro rfl
  exact hnot hname

theorem readable_of_namedOtherwise (hextra : NamedOtherwise names extra) : readable extra := by
  apply List.all_eq_true.2
  intro f hf
  obtain ⟨other, hother, -⟩ := hextra f hf
  simp [hother]

/-- What stands once under a name in one order of the fields is found in any other. -/
theorem field?_of_perm {f : Json → Option α} (h : fields.Perm known)
    (hknown : named name known = [x]) : field? f name fields = f x := by
  have hnamed : (named name fields).Perm [x] := by
    rw [← hknown]
    exact (h.filter _).map _
  rw [field?, List.perm_singleton.1 hnamed]
  rfl

theorem record?_of_recordOf {f : Json → Option α} {g : Json → Option β} {make : α → β → γ} {u : α}
    {v : β} {j : Json} (hab : a ≠ b) (hf : f x = some u) (hg : g y = some v)
    (h : RecordOf a x b y j) : record? a f b g make j = some (make u v) := by
  cases h with
  | array => simp [record?, hf, hg]
  | @object fields extra hextra hperm =>
    have hx : named a ((.proper a, x) :: (.proper b, y) :: extra) = [x] := by
      rw [named_cons, named_cons, named_eq_nil hextra (by simp), if_pos rfl, if_neg hab.symm]
    have hy : named b ((.proper a, x) :: (.proper b, y) :: extra) = [y] := by
      rw [named_cons, named_cons, named_eq_nil hextra (by simp), if_neg hab, if_pos rfl]
    have hall : readable fields := by
      rw [readable, hperm.all_eq]
      simpa [readable] using readable_of_namedOtherwise hextra
    simp [record?, hall, field?_of_perm hperm hx, field?_of_perm hperm hy, hf, hg]

end Fields

theorem word?_nat {w : Nat} (n : Word w) : word? (nat n.toNat) = some n := by
  simp [word?, nat, Number.natural?, Number.ofNat]

end Json

open Json

theorem Asset.ofJson?_toJson (a : Asset) : ofJson? a.toJson = some a := by
  cases a with
  | native => rfl
  | issued id =>
    change (word? (nat id.toNat)).map issued = _
    rw [word?_nat]
    rfl
  | bridged id =>
    change (word? (nat id.toNat)).map bridged = _
    rw [word?_nat]
    rfl

abbrev Coin.Document (c : Coin) : Json → Prop :=
  RecordOf "asset" c.asset.toJson "amount" (nat c.amount.toNat)

abbrev FeeToken.Document (t : FeeToken) : Json → Prop :=
  RecordOf "denom" t.asset.toJson "pool_id" (nat t.pool.toNat)

theorem Coin.toJson_document (c : Coin) : c.Document c.toJson :=
  .object (.nil _) (.refl _)

theorem FeeToken.toJson_document (t : FeeToken) : t.Document t.toJson :=
  .object (.nil _) (.refl _)

theorem Coin.ofJson?_document {c : Coin} {j : Json} (h : c.Document j) : ofJson? j = some c :=
  record?_of_recordOf (by decide) c.asset.ofJson?_toJson (word?_nat c.amount) h

theorem FeeToken.ofJson?_document {t : FeeToken} {j : Json} (h : t.Document j) :
    ofJson? j = some t :=
  record?_of_recordOf (by decide) t.asset.ofJson?_toJson (word?_nat t.pool) h

/-- An asset is read back from every text of its document, the printed one among them; and so are a
coin and a fee token, whose documents are also the array of their fields and every object that has
the fields in any place among fields of other names. -/
theorem Json.texts_read_back :
    (∀ a : Asset, decode? Asset.ofJson? a.toJson.toText = some a ∧
      ∀ s, TextOf a.toJson s → decode? Asset.ofJson? s = some a) ∧
    (∀ c : Coin, decode? Coin.ofJson? c.toJson.toText = some c ∧
      ∀ j s, c.Document j → TextOf j s → decode? Coin.ofJson? s = some c) ∧
    (∀ t : FeeToken, decode? FeeToken.ofJson? t.toJson.toText = some t ∧
      ∀ j s, t.Document j → TextOf j s → decode? FeeToken.ofJson? s = some t) := by
  have hasset (a : Asset) (s : String) (hs : TextOf a.toJson s) :
      decode? Asset.ofJson? s = some a := by
    rw [decode?_of_textOf hs]
    exact a.ofJson?_toJson
  have hcoin (c : Coin) (j : Json) (s : String) (hj : c.Document j) (hs : TextOf j s) :
      decode? Coin.ofJson? s = some c := by
    rw [decode?_of_textOf hs]
    exact Coin.ofJson?_document hj
  have htoken (t : FeeToken) (j : Json) (s : String) (hj : t.Document j) (hs : TextOf j s) :
      decode? FeeToken.ofJson? s = some t := by
    rw [decode?_of_textOf hs]
    exact FeeToken.ofJson?_document hj
  refine ⟨fun a => ⟨?_, hasset a⟩, fun c => ⟨?_, hcoin c⟩, fun t => ⟨?_, htoken t⟩⟩
  · exact hasset a _ (textOf_toText _)
  · exact hcoin c _ _ c.toJson_document (textOf_toText _)
  · exact htoken t _ _ t.toJson_document (textOf_toText _)

/-- The largest amount stands before the asset here, and what lies between them is skipped. -/
theorem Json.texts_read_back_with_memo :
    decode? Coin.ofJson?
        ("\x7b \"amount\": 340282366920938463463374607431768211455,\n" ++
          "\"memo\": [1.5e-2, \x7b\"asset\": \"\\ud800\"\x7d],\"asset\":\x7b\"Local\": 7\x7d\x7d") =
      some ⟨.issued 7, Word.top⟩ := by
  let coin : Coin := ⟨.issued 7, Word.top⟩
  let memo : Json :=
    array [.number ⟨false, 1, [5], some ⟨false, some true, 2, []⟩⟩,
      object [(.proper "asset", .text .broken)]]
  let fields : List (Text × Json) :=
    [(.proper "amount", nat coin.amount.toNat), (.proper "memo", memo),
      (.proper "asset", coin.asset.toJson)]
  have hmemo : NamedOtherwise ["asset", "amount"] [(.proper "memo", memo)] := by
    simp [NamedOtherwise]
  have hdocument : coin.Document (object fields) :=
    .object hmemo (List.perm_append_singleton _ [_, _])
  apply (texts_read_back.2.1 coin).2 _ _ hdocument
  rw [textOf_iff]
  cbv

end SwapFees
