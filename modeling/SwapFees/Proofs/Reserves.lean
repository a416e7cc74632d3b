import SwapFees.Proofs.Pool
import SwapFees.Proofs.Total

namespace SwapFees

/-- What a coin counts under a number of the token ledger, or as native currency. -/
def Coin.under (c : Coin) (j : Option AssetId) : Nat := if j = c.asset.id? then c.amount.toNat else 0

theorem Coin.under_add {a : Asset} {k n m : Amount} (h : k.toNat = n.toNat + m.toNat)
    (j : Option AssetId) : (Coin.mk a k).under j = (Coin.mk a n).under j + (Coin.mk a m).under j := by
  unfold under
  split
  · exact h
  · rfl

theorem Coin.under_addSat_le (a : Asset) (n m : Amount) (j : Option AssetId) :
    (Coin.mk a (n.addSat m)).under j ≤ (Coin.mk a n).under j + (Coin.mk a m).under j := by
  unfold under
  split
  · exact Nat.le_trans (Nat.le_of_eq (Word.toNat_addSat n m)) (Nat.min_le_left _ _)
  · exact Nat.zero_le _

namespace Pool

variable {p p' : Pool} {a b : Asset} {i o : Side} {paid given : Amount}

/-- Both reserves under a number. -/
def held (p : Pool) (j : Option AssetId) : Nat := p.left.under j + p.right.under j

/-- The reserve of `a` has room for `paid` more. -/
def Fits (p : Pool) (a : Asset) (paid : Amount) : Prop :=
  ∀ i, p.side? a = some i → (p.reserve i).toNat + paid.toNat < 2 ^ (128 : Nat)

instance (p : Pool) (a : Asset) (paid : Amount) : Decidable (p.Fits a paid) :=
  decidable_of_iff ((p.side? a).all fun i => (p.reserve i).toNat + paid.toNat < 2 ^ (128 : Nat)) (by
    cases h : p.side? a <;> simp [Fits, h])

theorem side?_of_sides (h : p.sides a b = .ok (i, o)) : p.side? a = some i := by
  unfold sides at h
  split at h
  · rename_i hi ho
    split at h
    · cases h
    · cases h
      exact hi
  · cases h

theorem fits_of_sides (h : p.sides a b = .ok (i, o)) (hf : p.Fits a paid) :
    (p.reserve i).toNat + paid.toNat < 2 ^ (128 : Nat) :=
  hf i (side?_of_sides h)

/-- A settled swap adds what is paid to the reserves and takes what is given, unless the addition
does not fit. -/
theorem held_settle (hs : p.sides a b = .ok (i, o)) (h : p.settle i o paid given = .ok p')
    (j : Option AssetId) :
    p'.held j + (Coin.mk b given).under j ≤ p.held j + (Coin.mk a paid).under j ∧
      (p.Fits a paid →
        p'.held j + (Coin.mk b given).under j = p.held j + (Coin.mk a paid).under j) := by
  obtain ⟨rfl, rfl, hne⟩ := sides_ok hs
  obtain ⟨hle, rest, hrest, rfl⟩ := settle_ok h
  have hgiven : (p.reserve o).toNat = rest.toNat + given.toNat := by omega
  have hout := Coin.under_add (a := p.assetAt o) hgiven j
  have hin := Coin.under_addSat_le (p.assetAt i) (p.reserve i) paid j
  have hexact (hf : p.Fits (p.assetAt i) paid) : (Coin.mk (p.assetAt i) _).under j = _ :=
    Coin.under_add (k := (p.reserve i).addSat paid)
      (Word.toNat_saturate_of_lt (fits_of_sides hs hf)) j
  obtain ⟨⟨la, ln⟩, ⟨ra, rn⟩, curve, rate⟩ := p
  cases i <;> cases o
  · exact absurd rfl hne
  · simp only [reserve, setReserve, assetAt, Coin.withAmount, held] at *
    exact ⟨by omega, fun hf => by have := hexact hf; omega⟩
  · simp only [reserve, setReserve, assetAt, Coin.withAmount, held] at *
    exact ⟨by omega, fun hf => by have := hexact hf; omega⟩
  · exact absurd rfl hne

end Pool

namespace Pools

def reserves (ps : Pools) (j : Option AssetId) : Nat := ps.total fun p => p.held j

def CarryFits (ps : Pools) (c : Coin) : List HopIn → Prop
  | [] => True
  | hop :: rest => (ps.find hop.pool).All fun p =>
      (p.swapIn c.asset hop.assetOut c.amount).All fun r =>
        p.Fits c.asset c.amount ∧ CarryFits (ps.insert hop.pool r.2) ⟨hop.assetOut, r.1⟩ rest

def RequireFits (ps : Pools) (tokenOut : Coin) : List HopOut → Prop
  | [] => True
  | hop :: rest => RequireFits ps tokenOut rest ∧
      (ps.require tokenOut rest).All fun r => (r.2.find hop.pool).All fun p =>
        (p.swapOut hop.assetIn (HopOut.next tokenOut.asset rest) r.1).All fun r' =>
          p.Fits hop.assetIn r'.1

instance decidableCarryFits (ps : Pools) (c : Coin) :
    (route : List HopIn) → Decidable (CarryFits ps c route)
  | [] => .isTrue trivial
  | hop :: rest =>
    have := fun r : Amount × Pool =>
      decidableCarryFits (ps.insert hop.pool r.2) ⟨hop.assetOut, r.1⟩ rest
    inferInstanceAs (Decidable ((ps.find hop.pool).All fun p =>
      (p.swapIn c.asset hop.assetOut c.amount).All fun r =>
        p.Fits c.asset c.amount ∧ CarryFits (ps.insert hop.pool r.2) ⟨hop.assetOut, r.1⟩ rest))

instance decidableRequireFits (ps : Pools) (tokenOut : Coin) :
    (route : List HopOut) → Decidable (RequireFits ps tokenOut route)
  | [] => .isTrue trivial
  | hop :: rest =>
    have := decidableRequireFits ps tokenOut rest
    inferInstanceAs (Decidable (RequireFits ps tokenOut rest ∧
      (ps.require tokenOut rest).All fun r => (r.2.find hop.pool).All fun p =>
        (p.swapOut hop.assetIn (HopOut.next tokenOut.asset rest) r.1).All fun r' =>
          p.Fits hop.assetIn r'.1))

theorem reserves_insert {ps : Pools} {id : PoolId} {p p' : Pool} (hp : ps.get? id = some p)
    (j : Option AssetId) :
    reserves (ps.insert id p') j + p.held j = ps.reserves j + p'.held j := by
  have := ps.total_insert (fun p => p.held j) id p'
  rwa [hp] at this

theorem reserves_carry {ps ps' : Pools} {c out : Coin} {route : List HopIn}
    (h : ps.carry c route = .ok (out, ps')) (j : Option AssetId) :
    ps'.reserves j + out.under j ≤ ps.reserves j + c.under j ∧
      (ps.CarryFits c route → ps'.reserves j + out.under j = ps.reserves j + c.under j) := by
  induction route generalizing ps c with
  | nil =>
    cases h
    exact ⟨Nat.le_refl _, fun _ => rfl⟩
  | cons hop rest ih =>
    obtain ⟨p, n, p', hp, hn, h⟩ := carry_cons_ok h
    obtain ⟨i, o, hs, -, hq⟩ := Pool.swapIn_ok hn
    obtain ⟨hle, heq⟩ := Pool.held_settle hs hq j
    obtain ⟨ihle, iheq⟩ := ih h
    have hins := @reserves_insert _ _ _ p' hp j
    -- What this hop pays out is what the rest of the route takes in.
    have hc : (Coin.mk c.asset c.amount).under j = c.under j := rfl
    refine ⟨by omega, fun hf => ?_⟩
    obtain ⟨hfit, hrest⟩ := hf p (find_ok.2 hp) (n, p') hn
    have := heq hfit
    have := iheq hrest
    omega

theorem reserves_require {ps ps' : Pools} {tokenOut : Coin} {n : Amount} {route : List HopOut}
    (h : ps.require tokenOut route = .ok (n, ps')) (j : Option AssetId) :
    ps'.reserves j + tokenOut.under j ≤
        ps.reserves j + (Coin.mk (HopOut.next tokenOut.asset route) n).under j ∧
      (ps.RequireFits tokenOut route → ps'.reserves j + tokenOut.under j =
        ps.reserves j + (Coin.mk (HopOut.next tokenOut.asset route) n).under j) := by
  induction route generalizing ps' n with
  | nil =>
    cases h
    exact ⟨Nat.le_refl _, fun _ => rfl⟩
  | cons hop rest ih =>
    obtain ⟨m, qs, p, p', hm, hp, hn, rfl⟩ := require_cons_ok h
    obtain ⟨i, o, net, hs, -, -, hq⟩ := Pool.swapOut_ok hn
    obtain ⟨hle, heq⟩ := Pool.held_settle hs hq j
    obtain ⟨ihle, iheq⟩ := ih hm
    have hins := @reserves_insert _ _ _ p' hp j
    have hnext : HopOut.next tokenOut.asset (hop :: rest) = hop.assetIn := rfl
    rw [hnext]
    refine ⟨by omega, fun hf => ?_⟩
    have := heq (hf.2 (m, qs) hm p (find_ok.2 hp) (n, p') hn)
    have := iheq hf.1
    omega

theorem Trades.reserves_le {ps ps' : Pools} {tokenIn tokenOut : Coin}
    (h : ps.Trades tokenIn tokenOut ps') (j : Option AssetId) :
    ps'.reserves j + tokenOut.under j ≤ ps.reserves j + tokenIn.under j := by
  cases h with
  | carried route h => exact (reserves_carry h j).1
  | bought route n hin h => exact hin ▸ (reserves_require h j).1

end Pools

end SwapFees
