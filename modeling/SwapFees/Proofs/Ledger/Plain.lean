import SwapFees.Proofs.Conservation
import SwapFees.Proofs.Ledger.Spending
import SwapFees.Proofs.Ledger.Terms
import SwapFees.Proofs.Settlement

namespace SwapFees

/-- What a coin counts for its holder under a number. -/
def Coin.heldBy (c : Coin) (who q : AccountId) (j : Option AssetId) : Nat :=
  if q = who then c.under j else 0

theorem Coin.heldBy_self (c : Coin) (who : AccountId) :
    c.heldBy who who c.asset.id? = c.amount.toNat := by
  simp [heldBy, under]

theorem Coin.heldBy_of_ne {c : Coin} {who q : AccountId} {j : Option AssetId}
    (hne : ¬ (q = who ∧ j = c.asset.id?)) : c.heldBy who q j = 0 := by
  unfold heldBy under
  split
  · rename_i hq
    exact if_neg fun hj => hne ⟨hq, hj⟩
  · rfl

namespace Ledger

/-- An operation on a plain ledger moves exactly its coin, and goes through where the coin is at hand
and nothing overflows. -/
structure Plain (l : Ledger) : Prop where
  lossless : l.Lossless
  anchored : l.AllAnchored
  unleaned : l.Unleaned

/-- Between plain ledgers accounts lose what is taken and gain what is given, the books what is burned
and minted, and the tokens keep their terms. -/
structure Shifts (l : Ledger) (taken given : AccountId → Option AssetId → Nat)
    (burned minted : Option AssetId → Nat) (l' : Ledger) : Prop where
  plain : l'.Plain
  terms : ∀ id, l'.terms? id = l.terms? id
  held : ∀ q j, l'.holds q j + taken q j = l.holds q j + given q j
  issued : ∀ j, l'.issued j + burned j = l.issued j + minted j

variable {l l' : Ledger} {who source dest : AccountId} {c : Coin} {n : Amount} {p : Preservation}
  {i : Option AssetId} {id : AssetId} {t : Token}

theorem holds_le_circulating (l : Ledger) (who : AccountId) (j : Option AssetId) :
    l.holds who j ≤ l.circulating j := by
  cases j with
  | none => exact l.free_le_circulating who
  | some id =>
    cases hh : l.holding? id who with
    | none =>
      rw [holds_some, holding, hh]
      exact Nat.le_trans (Nat.le_of_eq Word.toNat_zero) (Nat.zero_le _)
    | some b =>
      obtain ⟨t, ht, hb⟩ := Option.bind_eq_some_iff.1 hh
      have hle := t.holdings.weigh_le_total Word.toNat who
      rw [hb] at hle
      rwa [holds_some, holding_eq ht hb, circulating_some ht]

theorem Live.congr (h : l.Live i) (hterms : ∀ j, l'.terms? j = l.terms? j) : l'.Live i := by
  intro id hid t ht
  have hterm := hterms id
  rw [terms?_some ht] at hterm
  obtain ⟨t', ht', e⟩ := Option.map_eq_some_iff.1 hterm.symm
  exact (Prod.mk.inj e).2 ▸ h id hid t' ht'

theorem transfer_live (h : l.transfer source dest c p = .ok l') : l.Live c.asset.id? := by
  unfold transfer at h
  split at h
  · rename_i hid
    rw [hid]
    exact nofun
  · rename_i id hid
    rw [hid]
    obtain ⟨t, b, m, l₁, t', ht, -, -, hfrozen, -⟩ := transferToken_ok h
    rintro j ⟨⟩ u hu
    obtain rfl := Option.some.inj (ht.symm.trans hu)
    exact hfrozen

theorem checkIncrease_of_fits {minted : Bool} (ht : l.tokens.get? id = some t)
    (hs : t.sufficient = true) (hmin : t.minBalance ≤ n)
    (hfits : (l.holding id who).toNat + n.toNat < 2 ^ (128 : Nat))
    (hsupply : minted = true → t.supply.toNat + n.toNat < 2 ^ (128 : Nat)) :
    l.checkIncrease id who n minted = .ok t := by
  have hnone : ¬ (minted = true ∧ t.supply.add? n = none) := fun h =>
    Nat.not_le.2 (hsupply h.1) (Word.add?_eq_none.1 h.2)
  unfold checkIncrease
  rw [ht]
  dsimp only
  rw [if_neg hnone]
  split
  · rename_i b hb
    rw [holding_eq ht hb] at hfits
    exact if_neg fun e => Nat.not_le.2 hfits (Word.add?_eq_none.1 e)
  · have hmin : ¬ n < t.minBalance := Nat.not_lt.2 hmin
    rw [if_neg hmin]
    exact if_neg fun h => h.1 hs

namespace Plain

theorem congr (h : l.Plain) (hc : l'.Covered) (hleast : ∀ j, l'.least j = l.least j)
    (ha : l'.AllAnchored) (hu : l'.Unleaned) : l'.Plain :=
  ⟨h.lossless.congr hc hleast, ha, hu⟩

theorem burn (h : l.Plain) (hb : l.burn who c = .ok (n, l')) : l'.Plain :=
  h.congr (burn_books hb h.lossless.covered).covered (burn_effect hb).1.least
    (fun q => (h.anchored q).burn hb) (stable_unleaned.burn hb h.unleaned)

theorem mint (h : l.Plain) (hm : l.mint who c = .ok l') : l'.Plain :=
  h.congr (mint_books hm h.lossless.covered).1 (mint_effect hm).1.least
    (fun q => (h.anchored q).mint hm) (stable_unleaned.mint hm h.unleaned)

theorem transfer (h : l.Plain) (ht : l.transfer source dest c p = .ok l') : l'.Plain :=
  h.congr (transfer_books ht h.lossless.covered).1 (transfer_least ht)
    (fun q => (h.anchored q).transfer ht) (stable_unleaned.transfer ht h.unleaned)

theorem exchange {tokenIn tokenOut : Coin} (h : l.Plain)
    (hx : l.Exchanges who tokenIn tokenOut l') : l'.Plain :=
  h.congr (exchanges_books hx h.lossless.covered).1 (exchanges_least hx)
    (fun q => (h.anchored q).exchange hx) (stable_unleaned.exchange hx h.unleaned)

theorem held_of_only (h : l.Plain) (ho : l.Only i who l') (taken given : Nat)
    (hwho : l'.holds who i + taken = l.holds who i + given) (q : AccountId) (j : Option AssetId) :
    l'.holds q j + (if q = who then if j = i then taken else 0 else 0) =
      l.holds q j + (if q = who then if j = i then given else 0 else 0) := by
  by_cases hq : q = who
  · rw [if_pos hq, if_pos hq, hq]
    by_cases hj : j = i
    · rwa [if_pos hj, if_pos hj, hj]
    · rw [if_neg hj, if_neg hj, ho.rest (h.anchored who) j hj]
  · rw [if_neg hq, if_neg hq, (ho.others q hq).holds j]

theorem holds_of_pays (h : l.Plain) {m : Nat} (hp : l.Pays who i m l') :
    l'.holds who i + m = l.holds who i := by
  have hunit := h.lossless.unit i
  obtain ⟨hle, hp⟩ := hp
  omega

theorem burn_shifts (h : l.Plain) (hb : l.burn who c = .ok (n, l')) :
    n = c.amount ∧ l.Shifts (c.heldBy who) (fun _ _ => 0) c.under (fun _ => 0) l' := by
  obtain ⟨ho, hp⟩ := burn_effect hb
  obtain ⟨rfl, hissued⟩ := (burn_books hb h.lossless.covered).issued_eq h.lossless.unit
  refine ⟨rfl, h.burn hb, terms?_burn hb, fun q j => ?_, hissued⟩
  have hheld := h.held_of_only ho _ 0 (h.holds_of_pays (hp (h.anchored who)).1) q j
  rwa [ite_self, ite_self] at hheld

theorem mint_shifts (h : l.Plain) (hm : l.mint who c = .ok l') :
    l.Shifts (fun _ _ => 0) (c.heldBy who) (fun _ => 0) c.under l' := by
  obtain ⟨ho, hgain⟩ := mint_effect hm
  refine ⟨h.mint hm, terms?_mint hm, fun q j => ?_, mint_issued hm⟩
  have hheld := h.held_of_only ho 0 _ (hgain (h.anchored who)) q j
  rwa [ite_self, ite_self] at hheld

/-- What is transferred arrives, unless the supply cannot bear it on its way. -/
theorem transfer_shifts (h : l.Plain) (hc : c.amount ≠ 0) (hbears : source ≠ dest → l.Bears c)
    (ht : l.transfer source dest c p = .ok l') :
    l.Shifts (c.heldBy source) (c.heldBy dest) (fun _ => 0) (fun _ => 0) l' := by
  have hissued (j : Option AssetId) : l'.issued j = l.issued j := by
    cases j with
    | none => exact (transfer_books ht h.lossless.covered).2.2 (h.lossless.unit none)
    | some id => exact transfer_supply ht id
  refine ⟨h.transfer ht, terms?_transfer ht, fun q j => ?_, hissued⟩
  by_cases hne : source = dest
  · subst hne
    rw [transfer_self ht]
  · have hpaid := (transfer_source hne ht (h.anchored source)).1
    have hgot := transfer_dest hne ht (h.anchored dest) hc (hbears hne)
    unfold Coin.heldBy Coin.under
    by_cases hs : q = source
    · rw [if_pos hs, if_neg fun e => hne (hs.symm.trans e), hs]
      split
      · rename_i hj
        rw [hj]
        exact h.holds_of_pays hpaid.pays
      · rename_i hj
        exact hpaid.rest j hj
    · rw [if_neg hs]
      by_cases hd : q = dest
      · rw [if_pos hd, hd]
        split
        · rename_i hj
          rw [hj]
          exact hgot.holds
        · rename_i hj
          exact hgot.rest j hj
      · rw [if_neg hd]
        exact (transfer_others ht hs hd).holds j

theorem exchange_shifts {tokenIn tokenOut : Coin} (h : l.Plain)
    (hx : l.Exchanges who tokenIn tokenOut l') :
    l.Shifts (tokenIn.heldBy who) (tokenOut.heldBy who) tokenIn.under tokenOut.under l' := by
  have hissued := (exchanges_books hx h.lossless.covered).2.2 h.lossless.unit
  refine ⟨h.exchange hx, terms?_exchange hx, fun q j => ?_, hissued⟩
  obtain ⟨n, l₁, hb, hm⟩ := hx
  have hburned := (h.burn_shifts hb).2.held q j
  split at hm
  · rename_i hz
    have hnone : tokenOut.heldBy who q j = 0 := by
      unfold Coin.heldBy Coin.under
      rw [hz, Word.toNat_zero, ite_self, ite_self]
    rw [hm, hnone]
    exact hburned
  · have hminted := ((h.burn hb).mint_shifts hm).held q j
    omega

theorem spendable_eq (h : l.Plain) (hlive : l.Live i) (who : AccountId) :
    (l.spendable who i).toNat = l.holds who i := by
  cases i with
  | none =>
    have hdrop : (l.account who).canDropProvider = true :=
      decide_eq_true (.inl (h.unleaned.consumers who))
    change (l.reducible who .expendable).toNat = _
    rw [reducible_expendable, if_pos (.inr hdrop)]
    rfl
  | some id =>
    refine Nat.le_antisymm (l.spendable_le who (some id)) ?_
    by_cases hz : l.holding id who = 0
    · rw [holds_some, hz, Word.toNat_zero]
      exact Nat.zero_le _
    · cases hh : l.holding? id who with
      | none => exact absurd (congrArg (·.getD 0) hh) hz
      | some b =>
        obtain ⟨t, ht, hb⟩ := Option.bind_eq_some_iff.1 hh
        have hcirculates := Nat.le_trans (l.holds_le_circulating who (some id))
          (h.lossless.covered (some id))
        rw [issued_some ht, holds_some, holding_eq ht hb] at hcirculates
        rw [holding_eq ht hb] at hz
        rw [holds_some, holding_eq ht hb]
        exact (le_reducibleToken_iff hz).2
          ⟨t, b, ht, hb, hlive id rfl t ht, Nat.le_refl _, hcirculates⟩

theorem burns (h : l.Plain) (hlive : l.Live c.asset.id?)
    (hheld : c.amount.toNat ≤ l.holds who c.asset.id?) : ∃ n l', l.burn who c = .ok (n, l') := by
  have hok : (l.burn who c).isOk = true := burn_isOk_iff.2 <| by
    rw [Word.le_def, h.spendable_eq hlive]
    exact hheld
  rcases hb : l.burn who c with _ | ⟨n, l'⟩
  · rw [hb] at hok
    cases hok
  · exact ⟨n, l', rfl⟩

theorem minBalance_le (h : l.Plain) (ht : l.tokens.get? id = some t) (hn : n ≠ 0) :
    t.minBalance ≤ n := by
  have hunit := h.lossless.unit (some id)
  have hpos : n.toNat ≠ 0 := fun e => hn (Word.toNat_eq_zero.1 e)
  rw [least_some ht] at hunit
  rw [Word.le_def]
  omega

theorem minBalance_le_sum (h : l.Plain) (hn : n ≠ 0)
    (hfits : (l.free who).toNat + n.toNat < 2 ^ (128 : Nat)) :
    ¬ (l.free who).addSat n < l.minBalance := by
  have hunit : l.minBalance.toNat ≤ 1 := h.lossless.unit none
  have hpos : n.toNat ≠ 0 := fun e => hn (Word.toNat_eq_zero.1 e)
  have hsum : ((l.free who).addSat n).toNat = (l.free who).toNat + n.toNat :=
    Word.toNat_saturate_of_lt hfits
  rw [Word.lt_def, hsum]
  omega

theorem mint_terms (h : l.Plain) (hc : c.amount ≠ 0) (hm : l.mint who c = .ok l') :
    ∀ id ∈ c.asset.id?, l.terms? id = some (true, false) := by
  unfold Ledger.mint at hm
  split at hm
  · rename_i hid
    rw [hid]
    exact nofun
  · rename_i id hid
    rw [hid]
    rintro j ⟨⟩
    obtain ⟨supply, l₁, -, hi, -⟩ := mintToken_ok hm
    unfold increase at hi
    rw [if_neg hc] at hi
    split at hi
    · cases hi
    · rename_i t hcheck
      split at hi
      · cases hi
      · rename_i hfrozen
        have ht := (checkIncrease_ok hcheck).1
        rw [terms?_some ht, h.unleaned.sufficient id t ht, Bool.eq_false_iff.2 hfrozen]

/-- Whatever token is not frozen can be minted as long as its books bear it. -/
theorem mints (h : l.Plain) (hc : c.amount ≠ 0)
    (hterms : ∀ id ∈ c.asset.id?, l.terms? id = some (true, false))
    (hroom : l.issued c.asset.id? + c.amount.toNat < 2 ^ (128 : Nat)) :
    ∃ l', l.mint who c = .ok l' := by
  have hheld := Nat.le_trans (l.holds_le_circulating who c.asset.id?)
    (h.lossless.covered c.asset.id?)
  unfold Ledger.mint
  cases hid : c.asset.id? with
  | none =>
    rw [hid] at hroom hheld
    have hissued : l.issuance.toNat + c.amount.toNat < 2 ^ (128 : Nat) := hroom
    have hfree : (l.free who).toNat + c.amount.toNat < 2 ^ (128 : Nat) :=
      Nat.lt_of_le_of_lt (Nat.add_le_add_right hheld _) hroom
    unfold mintNative
    rw [Word.add?_of_lt hissued, Word.add?_of_lt hfree]
    exact ⟨_, if_neg (h.minBalance_le_sum hc hfree)⟩
  | some id =>
    rw [hid] at hroom hheld
    obtain ⟨t, ht, hterm⟩ := Option.map_eq_some_iff.1 (hterms id hid)
    have hsupply : (l.supply id).toNat + c.amount.toNat < 2 ^ (128 : Nat) := hroom
    have hsupply' : t.supply.toNat + c.amount.toNat < 2 ^ (128 : Nat) := by
      rwa [issued_some ht] at hroom
    have hcheck : l.checkIncrease id who c.amount true = .ok t :=
      checkIncrease_of_fits ht (Prod.mk.inj hterm).1 (h.minBalance_le ht hc)
        (Nat.lt_of_le_of_lt (Nat.add_le_add_right hheld _) hroom) fun _ => hsupply'
    have hincrease : l.increase id who c.amount = .ok (l.addHolding id t who c.amount) := by
      unfold increase
      rw [if_neg hc, hcheck]
      exact if_neg (Bool.eq_false_iff.1 (Prod.mk.inj hterm).2)
    dsimp only
    unfold mintToken
    rw [Word.add?_of_lt hsupply, hincrease]
    exact ⟨_, rfl⟩

/-- Whoever has room for it can receive any coin that there is. -/
theorem canReceive_iff (h : l.Plain) (hc : c.amount ≠ 0)
    (hroom : l.holds who c.asset.id? + c.amount.toNat < 2 ^ (128 : Nat)) :
    l.canReceive who c = true ↔ ∀ id ∈ c.asset.id?, (l.terms? id).isSome = true := by
  unfold canReceive
  cases hid : c.asset.id? with
  | none =>
    rw [hid] at hroom
    refine ⟨fun _ => nofun, fun _ => ?_⟩
    dsimp only
    unfold checkDeposit
    rw [if_neg hc, Word.add?_of_lt hroom]
    dsimp only
    rw [if_neg (h.minBalance_le_sum hc hroom)]
    rfl
  | some id =>
    rw [hid] at hroom
    constructor
    · rintro hok j ⟨⟩
      have hok : (l.checkIncrease id who c.amount false).isOk = true := hok
      rcases hcheck : l.checkIncrease id who c.amount false with _ | t
      · rw [hcheck] at hok
        cases hok
      · rw [terms?_some (checkIncrease_ok hcheck).1]
        rfl
    · intro hsome
      obtain ⟨term, hterm⟩ := Option.isSome_iff_exists.1 (hsome id rfl)
      obtain ⟨t, ht, -⟩ := Option.map_eq_some_iff.1 hterm
      have hcheck : l.checkIncrease id who c.amount false = .ok t :=
        checkIncrease_of_fits ht (h.unleaned.sufficient id t ht) (h.minBalance_le ht hc) hroom nofun
      dsimp only
      rw [hcheck]
      rfl

end Plain

end Ledger

theorem Step.least {s : Settings} {growing : Prop} {c c' : Chain} (h : Step s growing c c')
    (j : Option AssetId) : c'.ledger.least j = c.ledger.least j := by
  cases h with
  | move h =>
    cases h with
    | pay hs hd h => exact Ledger.transfer_least h j
    | burn hw h => exact (Ledger.burn_effect h).1.least j
    | debit hw h => exact (Ledger.burn_effect h).1.least j
    | trade hw ht hx => exact Ledger.exchanges_least hx j
    | announce e => rfl
    | remember last => rfl
  | _ => rfl

namespace Genesis

variable {g : Genesis} {s : Settings}

theorem unit_endow {minBalance : Amount} {balances : List (AccountId × Amount)} {l : Ledger}
    (h : endow minBalance balances = .ok l) (hmin : minBalance = 1) (j : Option AssetId) :
    l.least j ≤ 1 := by
  unfold endow at h
  split at h
  · cases h
  · split at h
    · cases h
    · split at h
      · cases h
        subst hmin
        cases j with
        | none => exact Nat.le_refl 1
        | some id => exact Nat.zero_le 1
      · cases h

theorem unit_putToken {l : Ledger} {t : Token} (h : ∀ j, l.least j ≤ 1) (ht : t.minBalance = 1)
    (id : AssetId) (j : Option AssetId) : (l.putToken id t).least j ≤ 1 := by
  cases j with
  | none => exact h none
  | some k =>
    by_cases hk : id = k
    · subst hk
      rw [Ledger.least_some (t := t) (SortedMap.get?_insert_self ..), ht]
      exact Nat.le_refl 1
    · have hsame : (l.putToken id t).tokens.get? k = l.tokens.get? k :=
        SortedMap.get?_insert_of_ne _ _ hk
      have hleast : (l.putToken id t).least (some k) = l.least (some k) := by
        unfold Ledger.least
        dsimp only
        rw [hsame]
      rw [hleast]
      exact h (some k)

theorem unit_build {c : Chain} (h : g.build s = .ok c) (hmin : g.minBalance = 1)
    (ht : ∀ e ∈ g.tokens, e.2.minBalance = 1) (j : Option AssetId) : c.ledger.least j ≤ 1 := by
  obtain ⟨l₁, l₂, l₃, h₁, h₂, h₃, hledger⟩ := ledger_build h
  have hdefined : ∀ j, l₂.least j ≤ 1 := define_keeps (P := fun l => ∀ j, l.least j ≤ 1) h₂
    (fun e he l hl => unit_putToken hl (ht e he) e.1) (unit_endow h₁ hmin)
  have hheld : ∀ j, l₃.least j ≤ 1 := hold_keeps (P := fun l => ∀ j, l.least j ≤ 1) h₃
    (fun hm hl j => ((Ledger.mint_effect hm).1.least j).symm ▸ hl j) hdefined
  rw [hledger]
  unfold Ledger.addProvider
  rw [Ledger.least_putAccount]
  exact hheld j

/-- With an existential deposit and minimum balances of one, and sufficient tokens, the ledger is
plain in every world that genesis leads to. -/
theorem Reaches.plain {w : World} (h : g.Reaches s w) (hmin : g.minBalance = 1)
    (ht : ∀ e ∈ g.tokens, e.2.minBalance = 1 ∧ e.2.sufficient = true ∧
      e.2.holdings.total Word.toNat ≤ e.2.supply.toNat) : w.chain.ledger.Plain := by
  have hcovered := h.covered fun e he => (ht e he).2.2
  have hanchored := h.anchored (by rw [hmin]; decide)
  have hunleaned := h.unleaned fun e he => (ht e he).2.1
  obtain ⟨c, ops, hb, rfl⟩ := h
  refine ⟨⟨hcovered, ?_⟩, hanchored, hunleaned⟩
  exact World.replay_keeps_of_steps (P := fun c => ∀ j, c.ledger.least j ≤ 1)
    (fun _ _ _ => trivial) (fun h hc j => (h.least j).symm ▸ hc j) _
    (unit_build hb hmin fun e he => (ht e he).1)

end Genesis

end SwapFees
