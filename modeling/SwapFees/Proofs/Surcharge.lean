import SwapFees.Proofs.Quote

namespace SwapFees

namespace Pool

variable {p p' q q' : Pool} {a b : Asset} {given n m : Amount}

/-- The two differ at most in their reserves; with a product curve they do not differ. -/
structure Alike (p q : Pool) : Prop where
  terms : q.terms = p.terms
  product : p.curve = .product → q = p

/-- On a sum curve the reserves have no say in what a purchase costs. -/
theorem Alike.swapOut (h : p.Alike q) (hp : p.swapOut a b given = .ok (n, p'))
    (hq : q.swapOut a b given = .ok (m, q')) : n = m ∧ p'.Alike q' := by
  obtain ⟨i, o, net, hsides, hneed, hfee, hsettle⟩ := swapOut_ok hp
  obtain ⟨j, k, net', hsides', hneed', hfee', hsettle'⟩ := swapOut_ok hq
  rcases hcurve : p.curve with _ | _
  · obtain ⟨-, hterms⟩ := Prod.mk.inj h.terms
    obtain ⟨hcurve', hrate⟩ := Prod.mk.inj hterms
    rw [inputFor, hcurve] at hneed
    rw [inputFor, hcurve', hcurve] at hneed'
    cases hneed
    cases hneed'
    rw [hrate, hfee] at hfee'
    cases hfee'
    have hp' := terms_settle hsettle
    have hq' := terms_settle hsettle'
    refine ⟨rfl, hq'.trans (h.terms.trans hp'.symm), fun hproduct => ?_⟩
    obtain ⟨-, hterms'⟩ := Prod.mk.inj hp'
    rw [(Prod.mk.inj hterms').1, hcurve] at hproduct
    cases hproduct
  · rw [h.product hcurve, hp] at hq
    cases hq
    exact ⟨rfl, rfl, fun _ => rfl⟩

end Pool

namespace Pools

variable {ps ps' qs qs' : Pools} {ids : List PoolId} {tokenOut : Coin} {route : List HopOut}
  {n m : Amount}

/-- Of the pools under these numbers, those with a product curve have not moved. -/
def Unmoved (ids : List PoolId) (ps qs : Pools) : Prop :=
  ∀ id ∈ ids, ∀ p, ps.get? id = some p → p.curve = .product → qs.get? id = some p

theorem SameOn.unmoved (h : SameOn ids qs ps) : Unmoved ids ps qs :=
  fun id hid _ hp _ => (h id hid).trans hp

def AlikeOn (ids : List PoolId) (ps qs : Pools) : Prop :=
  ∀ id ∈ ids, ∀ p, ps.get? id = some p → ∃ q, qs.get? id = some q ∧ p.Alike q

theorem Unmoved.alikeOn (h : Unmoved ids ps qs) (hkeeps : ps.Keeps Pool.terms qs) :
    AlikeOn ids ps qs := by
  intro id hid p hp
  obtain ⟨q, hq, hterms⟩ := hkeeps id p hp
  refine ⟨q, hq, hterms, fun hproduct => ?_⟩
  exact Option.some.inj (hq.symm.trans (h id hid p hp hproduct))

theorem AlikeOn.insert (h : AlikeOn ids ps qs) (id : PoolId) {p q : Pool} (hpq : p.Alike q) :
    AlikeOn ids (SortedMap.insert ps id p) (SortedMap.insert qs id q) := by
  intro id' hid' p' hp'
  rw [SortedMap.get?_insert] at hp' ⊢
  split at hp'
  · cases hp'
    exact ⟨q, by simp [*], hpq⟩
  · obtain ⟨q', hq', hpq'⟩ := h id' hid' p' hp'
    exact ⟨q', by simp [*], hpq'⟩

theorem AlikeOn.require (h : AlikeOn ids ps qs) (hids : ∀ id ∈ route.map HopOut.pool, id ∈ ids)
    (hp : ps.require tokenOut route = .ok (n, ps'))
    (hq : qs.require tokenOut route = .ok (m, qs')) : n = m ∧ AlikeOn ids ps' qs' := by
  induction route generalizing n ps' m qs' with
  | nil =>
    cases hp
    cases hq
    exact ⟨rfl, h⟩
  | cons hop rest ih =>
    obtain ⟨n', rs, p, p', hprest, hpool, hn, rfl⟩ := require_cons_ok hp
    obtain ⟨m', rs', q, q', hqrest, hpool', hm, rfl⟩ := require_cons_ok hq
    obtain ⟨rfl, hrest⟩ := ih (fun id hid => hids id (List.mem_cons_of_mem _ hid)) hprest hqrest
    obtain ⟨q₁, hq₁, halike⟩ := hrest hop.pool (hids _ List.mem_cons_self) p hpool
    obtain rfl := Option.some.inj (hpool'.symm.trans hq₁)
    obtain ⟨rfl, halike'⟩ := halike.swapOut hn hm
    exact ⟨rfl, hrest.insert _ halike'⟩

end Pools

namespace Swap

open Effect

variable {s : Settings} {w w' : World} {sender : AccountId}

theorem chargeTakerFee_keeps {γ : Type} {f : Pool → γ} (hf : Pool.Fixed f) {fee : Coin}
    {firstHop : HopIn} {beneficiary : Option AccountId}
    (h : (chargeTakerFee sender fee firstHop beneficiary).run s w = (.ok (), w')) :
    w.chain.pools.Keeps f w'.chain.pools := by
  have hmoves : Moves (fun _ => True) w.chain
      ((chargeTakerFee sender fee firstHop beneficiary).run s w).2.chain :=
    moving_chargeTakerFee trivial trivial trivial fee firstHop (fun _ _ => trivial) w
  rw [h] at hmoves
  refine hmoves.lift (R := fun c c' => c.pools.Keeps f c'.pools) (fun _ => .refl _)
    (fun h h' => h.trans h') fun hm => ?_
  cases hm with
  | trade hw ht hx => exact ht.keeps hf
  | _ => exact .refl _

theorem chargeTakerFee_terms {fee : Coin} {firstHop : HopIn} {beneficiary : Option AccountId}
    (h : (chargeTakerFee sender fee firstHop beneficiary).run s w = (.ok (), w')) :
    w.chain.pools.Keeps Pool.terms w'.chain.pools :=
  chargeTakerFee_keeps (.of_settle Pool.terms_settle) h

/-- The taker fee of a purchase is no less than the one that a sale of its whole price would pay, if
settling it moves no product pool of the route: then the price is the quote. In any case it falls
short by no more than the fee on what the price rose by, unless the quote and its fee saturated. -/
theorem swapOut_fee_covers (hs : s.routerFailure = none) {first : HopOut} {rest : List HopOut}
    {maxIn total : Amount} {tokenOut : Coin}
    (h : (swapOut sender (first :: rest) maxIn tokenOut).run s w = (.ok total, w'))
    (htotal : total ≠ Word.top) :
    ∃ quoted ps split b w₁ w₂ paid w₃,
      w.chain.pools.require tokenOut (first :: rest) = .ok (quoted, ps) ∧
      FeeSplit.add ⟨first.assetIn, quoted⟩ w.chain.takerFee = .ok split ∧
      (beneficiary first.assetIn tokenOut.asset).run s w = (.ok b, w₁) ∧
      (chargeTakerFee sender split.fee ⟨first.pool, HopOut.next tokenOut.asset rest⟩ b).run s w₁ =
        (.ok (), w₂) ∧
      (Router.swapOut sender (first :: rest) (maxIn.subSat split.fee.amount) tokenOut).run s w₂ =
        (.ok paid, w₃) ∧
      total.toNat = paid.toNat + split.fee.amount.toNat ∧
      (Pools.Unmoved ((first :: rest).map HopOut.pool) w.chain.pools w₂.chain.pools →
        paid = quoted ∧ (FeeSplit.subtract ⟨first.assetIn, total⟩ w.chain.takerFee).fee.amount ≤
          split.fee.amount) ∧
      (split.gross.amount ≠ Word.top →
        (FeeSplit.subtract ⟨first.assetIn, total⟩ w.chain.takerFee).fee.amount.toNat ≤
          split.fee.amount.toNat + (FeeSplit.subtract ⟨first.assetIn, paid.subSat quoted⟩
            w.chain.takerFee).fee.amount.toNat) := by
  obtain ⟨quoted, split, b, w₁, w₂, paid, w₃, ⟨ps, hquote⟩, hsplit, -, hb, hfee, hbuy, hpaid, -⟩ :=
    swapOut_ok h
  have hchain : w₁.chain = w.chain := (beneficiary_ok hb).1
  have hsum : total.toNat = paid.toNat + split.fee.amount.toNat := by
    rw [hpaid, Word.toNat_addSat]
    have hne : total.toNat ≠ 2 ^ (128 : Nat) - 1 := fun e => htotal (Word.ext e)
    rw [hpaid, Word.toNat_addSat] at hne
    omega
  obtain ⟨-, hgross⟩ := FeeSplit.gross_of_add hsplit
  have hlevy (hne : split.gross.amount ≠ Word.top) :
      w.chain.takerFee.levy split.gross.amount.toNat ≤ split.fee.amount.toNat :=
    FeeSplit.levy_gross_le hsplit hne
  refine ⟨quoted, ps, split, b, w₁, w₂, paid, w₃, hquote, hsplit, hb, hfee, hbuy, hsum,
    fun hunmoved => ?_, fun hne => ?_⟩
  · obtain ⟨ps', l, hrequire, -⟩ := Router.swapOut_ok hs hbuy
    have hkeeps := chargeTakerFee_terms hfee
    rw [hchain] at hkeeps
    obtain ⟨rfl, -⟩ := (hunmoved.alikeOn hkeeps).require (fun _ hid => hid) hquote hrequire
    have hsame : split.gross.amount = total := Word.ext (hgross.trans hsum.symm)
    rw [hsame] at hlevy
    refine ⟨rfl, ?_⟩
    rw [Word.le_def, FeeSplit.subtract_fee]
    exact hlevy htotal
  · rw [FeeSplit.subtract_fee, FeeSplit.subtract_fee, Word.toNat_subSat]
    dsimp only at hgross ⊢
    calc w.chain.takerFee.levy total.toNat
        ≤ w.chain.takerFee.levy (split.gross.amount.toNat + (paid.toNat - quoted.toNat)) :=
          w.chain.takerFee.levy_mono (by omega)
      _ ≤ w.chain.takerFee.levy split.gross.amount.toNat +
          w.chain.takerFee.levy (paid.toNat - quoted.toNat) := w.chain.takerFee.levy_add_le _ _
      _ ≤ split.fee.amount.toNat + w.chain.takerFee.levy (paid.toNat - quoted.toNat) :=
          Nat.add_le_add_right (hlevy hne) _

/-- In 211 for a hundred of token 2 there is as much of a fee as a sale of 211 pays. -/
theorem swapOut_fee_covers_in_crossing :
    ((swapOut 9 crossingRoute 1000 ⟨.issued 2, 100⟩).run plainSettings crossing).1 = .ok 211 ∧
      ∃ quoted split, FeeSplit.add ⟨.issued 1, quoted⟩ crossing.chain.takerFee = .ok split ∧
        (211 : Amount).toNat = quoted.toNat + split.fee.amount.toNat ∧
        (FeeSplit.subtract ⟨.issued 1, 211⟩ crossing.chain.takerFee).fee.amount ≤
          split.fee.amount := by
  have hbought : ((swapOut 9 crossingRoute 1000 ⟨.issued 2, 100⟩).run plainSettings crossing).1 =
      .ok 211 := by decide +kernel
  obtain ⟨w', h⟩ := fst_ok_iff.1 hbought
  obtain ⟨quoted, ps, split, b, w₁, w₂, paid, w₃, -, hsplit, hb, hfee, -, hsum, hcovers, -⟩ :=
    swapOut_fee_covers rfl h (by decide)
  have hchain : w₁.chain = crossing.chain := (beneficiary_ok hb).1
  have hasset : split.fee.asset = .issued 1 := (FeeSplit.add_parts hsplit).2
  have hapart : Apart w₁.chain split.fee.asset (crossingRoute.map HopOut.pool) := by
    rw [hchain, hasset]
    decide
  have hsame := hapart.sameOn hfee
  rw [hchain] at hsame
  obtain ⟨rfl, hle⟩ := hcovers hsame.unmoved
  exact ⟨hbought, paid, split, hsplit, hsum, hle⟩

/-- A purchase goes through and is charged less than a sale of what it costs. -/
def Undercharged (s : Settings) (w : World) (sender : AccountId) (route : List HopOut)
    (maxIn : Amount) (tokenOut : Coin) : Prop :=
  s.routerFailure = none ∧ ∃ quoted split total,
    ((Router.estimate route tokenOut).run s w).1 = .ok quoted ∧
    FeeSplit.add ⟨HopOut.next tokenOut.asset route, quoted⟩ w.chain.takerFee = .ok split ∧
    ((swapOut sender route maxIn tokenOut).run s w).1 = .ok total ∧ total ≠ Word.top ∧
    split.fee.amount <
      (FeeSplit.subtract ⟨HopOut.next tokenOut.asset route, total⟩ w.chain.takerFee).fee.amount

/-- Account 9 holds all of token 1, and of the native currency enough to stay. -/
def bazaar (pools : Pools) (registry : Registry) (takerFee : Rate) : World where
  chain :=
    { ledger :=
        { minBalance := 1, issuance := 10
          accounts := .ofList [(9, { providers := 1, sufficients := 1, free := 10 })]
          tokens := .ofList [(1,
            { sufficient := true, minBalance := 1, supply := .saturate (2 * 10 ^ (38 : Nat))
              holdings := .ofList [(9, .saturate (2 * 10 ^ (38 : Nat)))] })] }
      pools, base := .native, registry, burned := ∅, cursor := none, takerFee, events := [] }
  log := []

/-- A fee of 1235 on a quote of 11112 is exchanged in the pool of the route, which then costs 11403;
a sale of the 12638 pays 1264. A fee that is cut off because the quote and the fee on it saturate can
be too small although the price falls. -/
theorem swapOut_undercharges :
    Undercharged plainSettings
        (bazaar (.ofList [(1, ⟨⟨.issued 1, 100000⟩, ⟨.native, 100000⟩, .product, .zero⟩)]) .empty
          (.percent 10))
        9 [⟨1, .issued 1⟩] 20000 ⟨.native, 10000⟩ ∧
      Undercharged plainSettings
        (bazaar (.ofList [
            (1, ⟨⟨.issued 1, .saturate (17 * 10 ^ (37 : Nat))⟩,
              ⟨.native, .saturate (54 * 10 ^ (19 : Nat))⟩, .product, .zero⟩),
            (2, ⟨⟨.issued 1, .saturate (16 * 10 ^ (37 : Nat))⟩, ⟨.native, 3⟩, .product, .zero⟩)])
          (Registry.empty.insert ⟨.issued 1, 1⟩) (.percent 50))
        9 [⟨2, .issued 1⟩, ⟨1, .native⟩] Word.top ⟨.issued 1, .saturate (34 * 10 ^ (16 : Nat))⟩ := by
  refine ⟨⟨rfl, 11112, ⟨⟨.issued 1, 11112⟩, ⟨.issued 1, 1235⟩⟩, 12638, ?_⟩, ⟨rfl, ?_⟩⟩
  · decide +kernel
  · let quoted : Amount := .saturate (32 * 10 ^ (37 : Nat))
    let fee : Amount := Word.top.subSat quoted
    let paid : Amount := .saturate (8 * 10 ^ (37 : Nat))
    refine ⟨quoted, ⟨⟨.issued 1, quoted⟩, ⟨.issued 1, fee⟩⟩, paid.addSat fee, ?_⟩
    decide +kernel

end Swap

end SwapFees
