import SwapFees.FeeSplit
import SwapFees.Proofs.Pool

namespace SwapFees

def Answer.Faultless {α : Type} (x : Answer α) : Prop := ∀ f, x ≠ .error (.fault f)

namespace Answer

variable {α β : Type}

theorem faultless_ok (x : α) : Faultless (.ok x : Answer α) := nofun

theorem faultless_refuse (e : DispatchError) : Faultless (refuse e : Answer α) := nofun

theorem faultless_bind {x : Answer α} {f : α → Answer β} (hx : x.Faultless)
    (hf : ∀ a, x = .ok a → (f a).Faultless) : (x >>= f).Faultless := by
  intro fault
  rcases x with e | a
  · exact fun h => hx fault (congrArg Except.error (Except.error.inj h))
  · exact hf a rfl fault

end Answer

open Answer

theorem Word.faultless_sub {w : Nat} {a b : Word w} (h : b ≤ a) : (a.sub b).Faultless := by
  rw [Word.sub, if_pos h]
  exact faultless_ok _

theorem Rate.faultless_divCeil {r : Rate} (h : r.parts < million) (x : Amount) :
    (r.complement.divCeil x).Faultless := by
  have hpos : ¬ r.complement.parts = 0 := Nat.sub_ne_zero_of_lt h
  rw [divCeil, if_neg hpos]
  exact faultless_ok _

theorem FeeSplit.add_succeeds {rate : Rate} (h : rate.parts < million) (net : Coin) :
    ∃ split, FeeSplit.add net rate = .ok split := by
  have hpos : ¬ rate.complement.parts = 0 := Nat.sub_ne_zero_of_lt h
  unfold add
  split
  · exact ⟨_, rfl⟩
  · rw [Rate.divCeil, if_neg hpos]
    exact ⟨_, rfl⟩

theorem FeeSplit.faultless_add {rate : Rate} (h : rate.parts < million) (net : Coin) :
    (FeeSplit.add net rate).Faultless := by
  obtain ⟨split, hsplit⟩ := add_succeeds h net
  rw [hsplit]
  exact faultless_ok _

namespace Pool

variable {p p' : Pool} {a b : Asset} {i o : Side} {paid given : Amount}

theorem faultless_sides (p : Pool) (a b : Asset) : (p.sides a b).Faultless := by
  unfold sides
  split
  · split
    · exact faultless_refuse _
    · exact faultless_ok _
  · exact faultless_refuse _

/-- An empty reserve is refused, so what is divided by is not zero. -/
theorem faultless_outputFor (p : Pool) (i o : Side) (net : Amount) :
    (p.outputFor i o net).Faultless := by
  unfold outputFor
  split
  · exact faultless_ok _
  · split
    · exact faultless_refuse _
    · rename_i hfull
      have hdepth : (p.reserve i).addSat net ≠ 0 := by
        intro h
        exact hfull (.inl (Word.addSat_eq_zero.1 h).1)
      rw [if_neg hdepth]
      exact faultless_ok _

theorem faultless_inputFor (h : ¬ p.reserve o ≤ given) (i : Side) :
    (p.inputFor i o given).Faultless := by
  unfold inputFor
  split
  · exact faultless_ok _
  · refine faultless_bind (Word.faultless_sub (Nat.le_of_not_le h)) fun rest hrest => ?_
    have hne : rest ≠ 0 := by
      intro e
      obtain ⟨-, hr⟩ := Word.sub_ok.1 hrest
      rw [e] at hr
      have : given.toNat < (p.reserve o).toNat := Nat.lt_of_not_le h
      exact absurd hr.symm (Nat.sub_ne_zero_of_lt this)
    rw [if_neg hne]
    exact faultless_ok _

theorem faultless_settle (h : ¬ p.reserve o ≤ given) (i : Side) (paid : Amount) :
    (p.settle i o paid given).Faultless :=
  faultless_bind (Word.faultless_sub (Nat.le_of_not_le h)) fun _ _ => faultless_ok _

theorem faultless_swapIn (p : Pool) (a b : Asset) (paid : Amount) : (p.swapIn a b paid).Faultless := by
  refine faultless_bind (p.faultless_sides a b) fun (i, o) _ => ?_
  refine faultless_bind (p.faultless_outputFor i o _) fun given _ => ?_
  split
  · exact faultless_refuse _
  · rename_i h
    exact faultless_bind (faultless_settle h i paid) fun _ _ => faultless_ok _

theorem faultless_swapOut (hfee : p.fee.parts < million) (a b : Asset) (given : Amount) :
    (p.swapOut a b given).Faultless := by
  refine faultless_bind (p.faultless_sides a b) fun (i, o) _ => ?_
  dsimp only
  split
  · exact faultless_refuse _
  · rename_i h
    refine faultless_bind (faultless_inputFor h i) fun net _ => ?_
    refine faultless_bind (Rate.faultless_divCeil hfee net) fun paid _ => ?_
    exact faultless_bind (faultless_settle h i paid) fun _ _ => faultless_ok _

theorem fee_settle (h : p.settle i o paid given = .ok p') : p'.fee = p.fee :=
  congrArg (fun t : (Asset × Asset) × Curve × Rate => t.2.2) (terms_settle h)

end Pool

namespace Pools

variable {ps ps' : Pools}

/-- No pool takes the whole input as its fee. -/
def Tradable (ps : Pools) : Prop := ∀ id p, ps.get? id = some p → p.fee.parts < million

theorem Tradable.insert (h : ps.Tradable) {p : Pool} (hp : p.fee.parts < million) (id : PoolId) :
    Tradable (SortedMap.insert ps id p) := by
  intro id' q hq
  rw [SortedMap.get?_insert] at hq
  split at hq
  · cases hq
    exact hp
  · exact h id' q hq

theorem Tradable.settle (h : ps.Tradable) {id : PoolId} {p p' : Pool} (hp : ps.get? id = some p)
    {i o : Side} {paid given : Amount} (hs : p.settle i o paid given = .ok p') :
    Tradable (SortedMap.insert ps id p') :=
  h.insert (Pool.fee_settle hs ▸ h id p hp) id

theorem Tradable.carry (h : ps.Tradable) {c out : Coin} {route : List HopIn}
    (hc : ps.carry c route = .ok (out, ps')) : ps'.Tradable := by
  induction route generalizing ps c with
  | nil =>
    cases hc
    exact h
  | cons hop rest ih =>
    obtain ⟨p, n, p', hp, hn, hrest⟩ := carry_cons_ok hc
    obtain ⟨i, o, -, -, hs⟩ := Pool.swapIn_ok hn
    exact ih (h.settle hp hs) hrest

theorem Tradable.require (h : ps.Tradable) {tokenOut : Coin} {n : Amount} {route : List HopOut}
    (hr : ps.require tokenOut route = .ok (n, ps')) : ps'.Tradable := by
  induction route generalizing ps' n with
  | nil =>
    cases hr
    exact h
  | cons hop rest ih =>
    obtain ⟨m, qs, p, p', hm, hp, hn, rfl⟩ := require_cons_ok hr
    obtain ⟨i, o, net, -, -, -, hs⟩ := Pool.swapOut_ok hn
    exact (ih hm).settle hp hs

theorem Tradable.trades (h : ps.Tradable) {tokenIn tokenOut : Coin}
    (ht : ps.Trades tokenIn tokenOut ps') : ps'.Tradable := by
  cases ht with
  | carried route hc => exact h.carry hc
  | bought route n hin hr => exact h.require hr

theorem faultless_find (ps : Pools) (id : PoolId) : (ps.find id).Faultless := by
  unfold find
  split
  · exact faultless_refuse _
  · exact faultless_ok _

/-- Whatever the pools and their fees, carrying a coin along a route is at most refused. -/
theorem faultless_carry (ps : Pools) (c : Coin) (route : List HopIn) : (ps.carry c route).Faultless := by
  induction route generalizing ps c with
  | nil => exact faultless_ok _
  | cons hop rest ih =>
    refine faultless_bind (ps.faultless_find _) fun p _ => ?_
    exact faultless_bind (p.faultless_swapIn _ _ _) fun (n, p') _ => ih _ _

theorem faultless_require (h : ps.Tradable) (tokenOut : Coin) (route : List HopOut) :
    (ps.require tokenOut route).Faultless := by
  induction route with
  | nil => exact faultless_ok _
  | cons hop rest ih =>
    refine faultless_bind ih fun (n, qs) hn => ?_
    refine faultless_bind (faultless_find qs _) fun p hp => ?_
    -- The pools behind the rest of the route have the fees they had.
    have hfee := h.require hn hop.pool p (find_ok.1 hp)
    exact faultless_bind (Pool.faultless_swapOut hfee _ _ _) fun _ _ => faultless_ok _

theorem faultless_quote (h : ps.Tradable) (tokenOut : Coin) (route : List HopOut) :
    (ps.quote tokenOut route).Faultless := by
  unfold quote
  split
  · exact faultless_refuse _
  · exact faultless_require h tokenOut route

end Pools

end SwapFees
