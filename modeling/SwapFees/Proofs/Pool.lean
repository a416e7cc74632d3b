import SwapFees.Proofs.Run
import SwapFees.Proofs.Total

namespace SwapFees

theorem Word.sub_ok {w : Nat} {a b c : Word w} :
    a.sub b = .ok c ↔ b.toNat ≤ a.toNat ∧ c.toNat = a.toNat - b.toNat := by
  unfold Word.sub
  split
  · rename_i h
    constructor
    · rintro ⟨⟩
      exact ⟨h, rfl⟩
    · rintro ⟨-, e⟩
      exact congrArg Except.ok (Word.ext e.symm)
  · rename_i h
    constructor
    · rintro ⟨⟩
    · rintro ⟨hle, -⟩
      exact absurd hle h

theorem SortedMap.rank_le_last {κ υ : Type} [Ranked κ] {m : SortedMap κ υ} {k last : κ} {v : υ}
    (hlast : m.keys.getLast? = some last) (h : m.get? k = some v) :
    Ranked.rank k ≤ Ranked.rank last := by
  obtain ⟨front, hf⟩ := List.getLast?_eq_some_iff.1 hlast
  have hk : k ∈ m.keys := List.mem_map.2 ⟨(k, v), mem_toList.2 h, rfl⟩
  have hp : m.keys.Pairwise fun a b => Ranked.rank a < Ranked.rank b :=
    List.pairwise_map.2 m.increasing
  -- A key is in front of the last one or is it.
  rw [hf] at hk hp
  rcases List.mem_append.1 hk with hk | hk
  · exact Nat.le_of_lt ((List.pairwise_append.1 hp).2.2 k hk last (List.mem_singleton.2 rfl))
  · exact Nat.le_of_eq (congrArg Ranked.rank (List.mem_singleton.1 hk))

namespace Pool

variable {p p' : Pool} {a b : Asset} {i o : Side} {paid given : Amount}

def assetAt (p : Pool) : Side → Asset
  | .left => p.left.asset
  | .right => p.right.asset

theorem assetAt_of_side? (h : p.side? a = some i) : p.assetAt i = a := by
  unfold side? at h
  split at h
  · rename_i e
    cases h
    exact e
  · split at h
    · rename_i e
      cases h
      exact e
    · cases h

theorem sides_ok (h : p.sides a b = .ok (i, o)) : p.assetAt i = a ∧ p.assetAt o = b ∧ i ≠ o := by
  unfold sides at h
  split at h
  · rename_i hi ho
    split at h
    · cases h
    · rename_i hne
      cases h
      exact ⟨assetAt_of_side? hi, assetAt_of_side? ho, hne⟩
  · cases h

theorem settle_ok (h : p.settle i o paid given = .ok p') :
    given.toNat ≤ (p.reserve o).toNat ∧ ∃ rest : Amount,
      rest.toNat = (p.reserve o).toNat - given.toNat ∧
      p' = (p.setReserve i ((p.reserve i).addSat paid)).setReserve o rest := by
  obtain ⟨rest, hr, h⟩ := Answer.bind_ok.1 h
  obtain ⟨hle, hr⟩ := Word.sub_ok.1 hr
  cases h
  exact ⟨hle, rest, hr, rfl⟩

theorem outputFor_sum {net : Amount} (hcurve : p.curve = .sum)
    (h : p.outputFor i o net = .ok given) : given = net := by
  rw [outputFor, hcurve] at h
  exact (Except.ok.inj h).symm

/-- What a product curve gives is a quotient of which both sides may saturate. -/
theorem outputFor_product {net : Amount} (hcurve : p.curve = .product)
    (h : p.outputFor i o net = .ok given) :
    p.reserve i ≠ 0 ∧ given.toNat =
      min (net.toNat * (p.reserve o).toNat) (2 ^ (128 : Nat) - 1) /
        min ((p.reserve i).toNat + net.toNat) (2 ^ (128 : Nat) - 1) := by
  rw [outputFor, hcurve] at h
  dsimp only at h
  split at h
  · cases h
  rename_i hreserves
  split at h
  · cases h
  refine ⟨fun hin => hreserves (.inl hin), ?_⟩
  rw [← Except.ok.inj h, Word.toNat_saturate_of_lt, Word.toNat_mulSat, Word.toNat_addSat]
  exact Nat.lt_of_le_of_lt (Nat.div_le_self _ _) (Word.isLt _)

/-- Either swap is a settlement between the sides of its two assets, of what the curve gives for the
input or needs for the output. -/
theorem swapIn_ok (h : p.swapIn a b paid = .ok (given, p')) :
    ∃ i o, p.sides a b = .ok (i, o) ∧
      p.outputFor i o (p.fee.complement.mulFloor paid) = .ok given ∧
      p.settle i o paid given = .ok p' := by
  obtain ⟨⟨i, o⟩, hs, h⟩ := Answer.bind_ok.1 h
  obtain ⟨n, hcurve, h⟩ := Answer.bind_ok.1 h
  by_cases hn : p.reserve o ≤ n
  · simp only [hn, if_true] at h
    cases h
  · simp only [hn, if_false] at h
    obtain ⟨q, hq, h⟩ := Answer.bind_ok.1 h
    cases h
    exact ⟨i, o, hs, hcurve, hq⟩

theorem swapOut_ok (h : p.swapOut a b given = .ok (paid, p')) :
    ∃ i o net, p.sides a b = .ok (i, o) ∧ p.inputFor i o given = .ok net ∧
      p.fee.complement.divCeil net = .ok paid ∧ p.settle i o paid given = .ok p' := by
  obtain ⟨⟨i, o⟩, hs, h⟩ := Answer.bind_ok.1 h
  by_cases hn : p.reserve o ≤ given
  · simp only [hn, if_true] at h
    cases h
  · simp only [hn, if_false] at h
    obtain ⟨net, hcurve, h⟩ := Answer.bind_ok.1 h
    obtain ⟨n, hfee, h⟩ := Answer.bind_ok.1 h
    obtain ⟨q, hq, h⟩ := Answer.bind_ok.1 h
    cases h
    exact ⟨i, o, net, hs, hcurve, hfee, hq⟩

/-- No swap changes `f` of a pool. -/
structure Fixed {γ : Type} (f : Pool → γ) : Prop where
  sell : ∀ {p p' : Pool} {a b : Asset} {paid given : Amount},
    p.swapIn a b paid = .ok (given, p') → f p' = f p
  buy : ∀ {p p' : Pool} {a b : Asset} {paid given : Amount},
    p.swapOut a b given = .ok (paid, p') → f p' = f p

theorem Fixed.of_settle {γ : Type} {f : Pool → γ}
    (hf : ∀ {p p' : Pool} {i o : Side} {paid given : Amount},
      p.settle i o paid given = .ok p' → f p' = f p) : Fixed f where
  sell h := by
    obtain ⟨i, o, -, -, hsettle⟩ := swapIn_ok h
    exact hf hsettle
  buy h := by
    obtain ⟨i, o, net, -, -, -, hsettle⟩ := swapOut_ok h
    exact hf hsettle

def terms (p : Pool) : (Asset × Asset) × Curve × Rate :=
  ((p.left.asset, p.right.asset), p.curve, p.fee)

theorem terms_settle (h : p.settle i o paid given = .ok p') : p'.terms = p.terms := by
  obtain ⟨-, rest, -, rfl⟩ := settle_ok h
  cases i <;> cases o <;> rfl

theorem assets_settle (h : p.settle i o paid given = .ok p') : p'.assets = p.assets :=
  congrArg (fun t : (Asset × Asset) × _ => [t.1.1, t.1.2]) (terms_settle h)

theorem eq_of_mem_assets {q : Asset} (ha : a ∈ p.assets) (hb : b ∈ p.assets) (hq : q ∈ p.assets)
    (haq : a ≠ q) (hbq : b ≠ q) : a = b := by
  simp only [assets, List.mem_cons, List.not_mem_nil, or_false] at ha hb hq
  grind

end Pool

namespace Pools

/-- Every pool is still there, and `f` of it is what it was. -/
def Keeps {γ : Type} (f : Pool → γ) (ps ps' : Pools) : Prop :=
  ∀ id p, ps.get? id = some p → ∃ p', ps'.get? id = some p' ∧ f p' = f p

section Keeps

variable {γ : Type} {f : Pool → γ}

theorem Keeps.refl (ps : Pools) : ps.Keeps f ps := fun _ p h => ⟨p, h, rfl⟩

theorem Keeps.trans {ps qs rs : Pools} (h : ps.Keeps f qs) (h' : qs.Keeps f rs) : ps.Keeps f rs := by
  intro id p hp
  obtain ⟨q, hq, e⟩ := h id p hp
  obtain ⟨r, hr, e'⟩ := h' id q hq
  exact ⟨r, hr, e'.trans e⟩

theorem keeps_insert {ps : Pools} {id : PoolId} {p : Pool}
    (h : ∀ q, ps.get? id = some q → f p = f q) : ps.Keeps f (ps.insert id p) := by
  intro id' q hq
  by_cases e : id = id'
  · subst e
    exact ⟨p, SortedMap.get?_insert_self .., h q hq⟩
  · exact ⟨q, (SortedMap.get?_insert_of_ne ps p e).trans hq, rfl⟩

end Keeps

/-- Every pool is still there, with the same two assets. -/
def Persist (ps ps' : Pools) : Prop :=
  ∀ id p, ps.get? id = some p → ∃ p', ps'.get? id = some p' ∧ p'.assets = p.assets

theorem Persist.refl (ps : Pools) : ps.Persist ps := fun _ p h => ⟨p, h, rfl⟩

theorem find_ok {ps : Pools} {id : PoolId} {p : Pool} : ps.find id = .ok p ↔ ps.get? id = some p := by
  unfold find
  cases ps.get? id <;> simp [refuse]

theorem carry_cons_ok {ps ps' : Pools} {c out : Coin} {hop : HopIn} {rest : List HopIn}
    (h : ps.carry c (hop :: rest) = .ok (out, ps')) :
    ∃ p n p', ps.get? hop.pool = some p ∧ p.swapIn c.asset hop.assetOut c.amount = .ok (n, p') ∧
      Pools.carry (ps.insert hop.pool p') ⟨hop.assetOut, n⟩ rest = .ok (out, ps') := by
  obtain ⟨p, hp, h⟩ := Answer.bind_ok.1 h
  obtain ⟨⟨n, p'⟩, hn, h⟩ := Answer.bind_ok.1 h
  exact ⟨p, n, p', find_ok.1 hp, hn, h⟩

theorem require_cons_ok {ps ps' : Pools} {tokenOut : Coin} {m : Amount} {hop : HopOut}
    {rest : List HopOut} (h : ps.require tokenOut (hop :: rest) = .ok (m, ps')) :
    ∃ n qs p p', ps.require tokenOut rest = .ok (n, qs) ∧ qs.get? hop.pool = some p ∧
      p.swapOut hop.assetIn (HopOut.next tokenOut.asset rest) n = .ok (m, p') ∧
      ps' = qs.insert hop.pool p' := by
  obtain ⟨⟨n, qs⟩, hn, h⟩ := Answer.bind_ok.1 h
  obtain ⟨p, hp, h⟩ := Answer.bind_ok.1 h
  obtain ⟨⟨k, p'⟩, hk, h⟩ := Answer.bind_ok.1 h
  cases h
  exact ⟨n, qs, p, p', hn, find_ok.1 hp, hk, rfl⟩

theorem carry_asset {ps ps' : Pools} {c out : Coin} {route : List HopIn} {last : HopIn}
    (hlast : route.getLast? = some last) (h : ps.carry c route = .ok (out, ps')) :
    out.asset = last.assetOut := by
  induction route generalizing ps c with
  | nil => cases hlast
  | cons hop rest ih =>
    obtain ⟨p, n, p', -, -, h⟩ := carry_cons_ok h
    cases rest with
    | nil =>
      cases hlast
      cases h
      rfl
    | cons hop' rest => exact ih (by rwa [List.getLast?_cons_cons] at hlast) h

section Keeps

variable {γ : Type} {f : Pool → γ} (hf : Pool.Fixed f)
include hf

theorem keeps_carry {ps ps' : Pools} {c out : Coin} {route : List HopIn}
    (h : ps.carry c route = .ok (out, ps')) : ps.Keeps f ps' := by
  induction route generalizing ps c with
  | nil =>
    cases h
    exact .refl _
  | cons hop rest ih =>
    obtain ⟨p, n, p', hp, hn, h⟩ := carry_cons_ok h
    refine (keeps_insert fun q hq => ?_).trans (ih h)
    obtain rfl := Option.some.inj (hp.symm.trans hq)
    exact hf.sell hn

theorem keeps_require {ps ps' : Pools} {tokenOut : Coin} {n : Amount} {route : List HopOut}
    (h : ps.require tokenOut route = .ok (n, ps')) : ps.Keeps f ps' := by
  induction route generalizing ps' n with
  | nil =>
    cases h
    exact .refl _
  | cons hop rest ih =>
    obtain ⟨m, qs, p, p', hm, hp, hn, rfl⟩ := require_cons_ok h
    refine (ih hm).trans (keeps_insert fun q hq => ?_)
    obtain rfl := Option.some.inj (hp.symm.trans hq)
    exact hf.buy hn

end Keeps

/-- `tokenIn` is what goes in and `tokenOut` what comes out along some route. -/
inductive Trades (ps : Pools) (tokenIn tokenOut : Coin) (ps' : Pools) : Prop
  | carried (route : List HopIn) (h : ps.carry tokenIn route = .ok (tokenOut, ps'))
  | bought (route : List HopOut) (n : Amount)
    (hin : tokenIn = ⟨HopOut.next tokenOut.asset route, n⟩)
    (h : ps.require tokenOut route = .ok (n, ps'))

/-- What no swap changes of its pool, no trade changes of any pool. -/
theorem Trades.keeps {γ : Type} {f : Pool → γ} (hf : Pool.Fixed f) {ps ps' : Pools}
    {tokenIn tokenOut : Coin} (h : ps.Trades tokenIn tokenOut ps') : ps.Keeps f ps' := by
  cases h with
  | carried route h => exact keeps_carry hf h
  | bought route n hin h => exact keeps_require hf h

theorem Trades.persist {ps ps' : Pools} {tokenIn tokenOut : Coin}
    (h : ps.Trades tokenIn tokenOut ps') : ps.Persist ps' :=
  h.keeps (.of_settle Pool.assets_settle)

theorem persist_add {ps ps' : Pools} {p : Pool} {id : PoolId} (h : ps.add p = .ok (id, ps')) :
    ps.Persist ps' := by
  unfold add at h
  split at h
  · rename_i hlast
    cases h
    refine keeps_insert fun q hq => ?_
    have hk := List.mem_map_of_mem (f := Prod.fst) (SortedMap.mem_toList.2 hq)
    rw [show ps.toList.map Prod.fst = [] from List.getLast?_eq_none_iff.1 hlast] at hk
    cases hk
  · rename_i last hlast
    split at h
    · cases h
    · rename_i next hnext
      cases h
      -- The new number is behind the last one, so no pool has it.
      refine keeps_insert fun q hq => ?_
      have hle : id.toNat ≤ last.toNat := SortedMap.rank_le_last hlast hq
      have := Word.add?_eq_some.1 hnext
      have one : (1 : PoolId).toNat = 1 := rfl
      omega

end Pools

end SwapFees
