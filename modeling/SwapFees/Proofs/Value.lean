import SwapFees.Proofs.Ledger.Issued
import SwapFees.Proofs.Steps

namespace SwapFees

/-- The assets kept under a number. -/
def Asset.backed : Option AssetId → List Asset
  | none => [native]
  | some id => [issued id, bridged id]

theorem Asset.mem_backed {j : Option AssetId} {a : Asset} : a ∈ Asset.backed j ↔ a.id? = j := by
  cases j <;> cases a <;> simp [Asset.backed, Asset.id?]

namespace Chain

/-- What is counted as burned of all assets under a number. -/
def burnedUnder (c : Chain) (j : Option AssetId) : Nat :=
  ((Asset.backed j).map fun a => (c.totalBurned a).toNat).sum

/-- What the ledger issued, the reserves of the pools and what was counted as burned. -/
def value (c : Chain) (j : Option AssetId) : Nat :=
  c.ledger.issued j + Pools.reserves c.pools j + c.burnedUnder j

/-- The chain after `n` of `a` were counted as burned, and perhaps other changes. -/
def countBurned (c : Chain) (l : Ledger) (a : Asset) (n : Amount) : Chain :=
  { c with ledger := l, burned := c.burned.insert a ((c.totalBurned a).addSat n) }

variable {c : Chain} {l : Ledger} {a : Asset} {n : Amount}

theorem totalBurned_countBurned (b : Asset) :
    (c.countBurned l a n).totalBurned b =
      if b = a then (c.totalBurned a).addSat n else c.totalBurned b := by
  unfold countBurned totalBurned
  split
  · rename_i h
    rw [h, SortedMap.get?_insert_self]
    rfl
  · rename_i h
    rw [SortedMap.get?_insert_of_ne _ _ (Ne.symm h)]

theorem toNat_totalBurned_countBurned (b : Asset) :
    ((c.countBurned l a n).totalBurned b).toNat =
      min ((c.totalBurned b).toNat + if b = a then n.toNat else 0) (2 ^ (128 : Nat) - 1) := by
  rw [totalBurned_countBurned]
  split
  · rename_i h
    rw [Word.toNat_addSat, h]
  · have := (c.totalBurned b).isLt
    omega

theorem burnedUnder_of_ne {j : Option AssetId} (hj : j ≠ a.id?) :
    (c.countBurned l a n).burnedUnder j = c.burnedUnder j := by
  refine congrArg List.sum (List.map_congr_left fun b hb => ?_)
  rw [totalBurned_countBurned, if_neg]
  rintro rfl
  exact hj (Asset.mem_backed.1 hb).symm

theorem burnedUnder_countBurned (j : Option AssetId) :
    (c.countBurned l a n).burnedUnder j ≤ c.burnedUnder j + (Coin.mk a n).under j ∧
      ((c.totalBurned a).toNat + n.toNat < 2 ^ (128 : Nat) →
        (c.countBurned l a n).burnedUnder j = c.burnedUnder j + (Coin.mk a n).under j) := by
  have hle : ((c.totalBurned a).addSat n).toNat ≤ (c.totalBurned a).toNat + n.toNat := by
    rw [Word.toNat_addSat]
    exact Nat.min_le_left _ _
  have heq (h : (c.totalBurned a).toNat + n.toNat < 2 ^ (128 : Nat)) :
      ((c.totalBurned a).addSat n).toNat = (c.totalBurned a).toNat + n.toNat :=
    Word.toNat_saturate_of_lt h
  unfold Coin.under
  by_cases hj : j = a.id?
  · subst hj
    rw [if_pos rfl]
    cases a <;>
      simp only [burnedUnder, Asset.backed, Asset.id?, totalBurned_countBurned, List.map_cons,
        List.map_nil, List.sum_cons, List.sum_nil, reduceCtorEq, if_true, if_false] <;>
      exact ⟨by omega, fun h => by have := heq h; omega⟩
  · rw [if_neg hj, burnedUnder_of_ne hj]
    exact ⟨Nat.le_refl _, fun _ => rfl⟩

end Chain

/-- No move creates value, as long as the ledger is covered, which it stays. -/
theorem Move.value_le {party : AccountId → Prop} {c c' : Chain} (h : Move party c c')
    (hc : c.ledger.Covered) : c'.ledger.Covered ∧ ∀ j, c'.value j ≤ c.value j := by
  cases h with
  | @pay source dest coin p l hs hd h =>
    obtain ⟨hc', hnone, -⟩ := Ledger.transfer_books h hc
    refine ⟨hc', fun j => ?_⟩
    have : l.issued j ≤ c.ledger.issued j := by
      cases j with
      | none => exact hnone
      | some id => exact Nat.le_of_eq (Ledger.transfer_supply h id)
    exact Nat.add_le_add_right (Nat.add_le_add_right this _) _
  | @burn who coin n l hw h =>
    obtain ⟨hc', -, hle, -⟩ := Ledger.burn_books h hc
    refine ⟨hc', fun j => ?_⟩
    have : l.issued j + (Coin.mk coin.asset n).under j ≤ c.ledger.issued j := hle j
    have := (Chain.burnedUnder_countBurned (c := c) (l := l) (a := coin.asset) (n := n) j).1
    change l.issued j + Pools.reserves c.pools j + (c.countBurned l coin.asset n).burnedUnder j ≤ _
    unfold Chain.value
    omega
  | @debit who coin n l hw h =>
    obtain ⟨hc', -, hle, -⟩ := Ledger.burn_books h hc
    refine ⟨hc', fun j => ?_⟩
    have : l.issued j ≤ c.ledger.issued j := Nat.le_of_add_right_le (hle j)
    exact Nat.add_le_add_right (Nat.add_le_add_right this _) _
  | @trade who tokenIn tokenOut ps l hw ht hx =>
    obtain ⟨hc', hle, -⟩ := Ledger.exchanges_books hx hc
    refine ⟨hc', fun j => ?_⟩
    have := hle j
    have := ht.reserves_le j
    change l.issued j + Pools.reserves ps j + c.burnedUnder j ≤ _
    unfold Chain.value
    omega
  | announce e => exact ⟨hc, fun j => Nat.le_refl _⟩
  | remember last => exact ⟨hc, fun j => Nat.le_refl _⟩

theorem Step.value_le {s : Settings} {c c' : Chain} (h : Step s False c c')
    (hc : c.ledger.Covered) : c'.ledger.Covered ∧ ∀ j, c'.value j ≤ c.value j := by
  cases h with
  | move h => exact h.value_le hc
  | addPool hg h => exact hg.elim
  | _ => exact ⟨hc, fun _ => Nat.le_refl _⟩

/-- A history without new pools creates no value under any number. -/
theorem World.replay_value_le {s : Settings} {w : World} {ops : List Operation}
    (hc : w.chain.ledger.Covered) (hops : ∀ op ∈ ops, op.grows = false) :
    (replay s w ops).chain.ledger.Covered ∧
      ∀ j, (replay s w ops).chain.value j ≤ w.chain.value j := by
  let P (c : Chain) : Prop := c.ledger.Covered ∧ ∀ j, c.value j ≤ w.chain.value j
  have step {c c' : Chain} (hs : Step s False c c') (hp : P c) : P c' := by
    obtain ⟨hc', hle⟩ := hs.value_le hp.1
    exact ⟨hc', fun j => Nat.le_trans (hle j) (hp.2 j)⟩
  refine replay_keeps_of_steps (fun op hop hg => ?_) step w ⟨hc, fun _ => Nat.le_refl _⟩
  rw [hops op hop] at hg
  cases hg

end SwapFees
