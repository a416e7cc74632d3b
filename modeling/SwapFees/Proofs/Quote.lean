import SwapFees.Proofs.Faults
import SwapFees.Proofs.RoundTrip

namespace SwapFees.Swap

open Effect DispatchError

variable {s : Settings} {w : World} {sender : AccountId} {fee paid tokenOut : Coin}
  {firstHop : HopIn} {b : Option AccountId}

/-- How a purchase at a price within its maximum can be refused: when its fee is settled, or when
the ledger takes the price or pays the output. -/
inductive Refused (s : Settings) (w : World) (sender : AccountId) (fee : Coin) (firstHop : HopIn)
    (b : Option AccountId) (paid tokenOut : Coin) (e : DispatchError) (w' : World) : Prop
  | settling (he : e.OfSettlement)
    (hfee : (chargeTakerFee sender fee firstHop b).run s w = (.error (.error e), w'))
  | exchanging (he : e.OfLedger) (v : World) (ps : Pools)
    (hfee : (chargeTakerFee sender fee firstHop b).run s w = (.ok (), v))
    (hx : (Router.exchange sender paid tokenOut ps).run s v = (.error (.error e), w'))

theorem Refused.ne_pool {e : DispatchError} {w' : World}
    (h : Refused s w sender fee firstHop b paid tokenOut e w') (r : PoolError) : e ≠ .pool r := by
  cases h with
  | settling he => exact he.ne_pool r
  | exchanging he => exact (OfSettlement.ledger he).ne_pool r

/-- After a settlement that stays apart from the route, what the fee leaves of the maximum bears the
quote, and that is exchanged. -/
theorem run_swapOut_of_apart (hs : s.routerFailure = none) {first : HopOut} {rest : List HopOut}
    {maxIn quoted : Amount} {ps : Pools} {w' : World}
    (hapart : Apart w.chain fee.asset ((first :: rest).map HopOut.pool))
    (hfee : (chargeTakerFee sender fee firstHop b).run s w = (.ok (), w'))
    (hquote : w.chain.pools.quote tokenOut (first :: rest) = .ok (quoted, ps))
    (hmax : quoted.toNat + fee.amount.toNat ≤ maxIn.toNat) :
    ∃ qs, (Router.swapOut sender (first :: rest) (maxIn.subSat fee.amount) tokenOut).run s w' =
      (Router.exchange sender ⟨first.assetIn, quoted⟩ tokenOut qs >>= fun _ => pure quoted).run s
        w' := by
  obtain ⟨qs, hquote', -⟩ := Pools.require_local hquote
    (fun id hid => (hapart.sameOn hfee id hid).symm) fun _ hid => hid
  have hleft : quoted ≤ maxIn.subSat fee.amount := by
    rw [Word.le_def, Word.toNat_subSat]
    omega
  exact ⟨qs, Router.swapOut_run hs hquote' hleft⟩

/-- A purchase whose fee stays apart from its route, and whose maximum bears the quote and the fee
on it, pays just these, or the settlement or the ledger refuses it. Nothing that a pool refuses can
happen to it. -/
theorem swapOut_pays_quote (hs : s.routerFailure = none) (hrate : w.chain.takerFee.parts < million)
    {first : HopOut} {rest : List HopOut} {quoted : Amount} {v : World}
    (hapart : Apart w.chain first.assetIn ((first :: rest).map HopOut.pool))
    (hquote : (Router.estimate (first :: rest) tokenOut).run s w = (.ok quoted, v)) :
    ∃ split b w₁, FeeSplit.add ⟨first.assetIn, quoted⟩ w.chain.takerFee = .ok split ∧
      (beneficiary first.assetIn tokenOut.asset).run s w = (.ok b, w₁) ∧ w₁.chain = w.chain ∧
      ∀ maxIn, split.gross.amount ≤ maxIn →
        (∃ w', (swapOut sender (first :: rest) maxIn tokenOut).run s w =
          (.ok split.gross.amount, w')) ∨
        ∃ e w', (swapOut sender (first :: rest) maxIn tokenOut).run s w = (.error (.error e), w') ∧
          (∀ r, e ≠ .pool r) ∧
          Refused s w₁ sender split.fee ⟨first.pool, HopOut.next tokenOut.asset rest⟩ b
            ⟨first.assetIn, quoted⟩ tokenOut e w' := by
  obtain ⟨split, hsplit⟩ := FeeSplit.add_succeeds hrate ⟨first.assetIn, quoted⟩
  obtain ⟨b, w₁, hb⟩ := succeeds_beneficiary (s := s) first.assetIn tokenOut.asset w
  have hchain : w₁.chain = w.chain := (beneficiary_ok hb).1
  refine ⟨split, b, w₁, hsplit, hb, hchain, fun maxIn hmax => ?_⟩
  have hlast := List.getLast?_eq_some_getLast (List.cons_ne_nil first rest)
  rw [swapOut_run hlast hquote hsplit hmax hb, run_bind]
  have hasset : split.fee.asset = first.assetIn := (FeeSplit.add_parts hsplit).2
  rw [← hchain, ← hasset] at hapart
  rcases hfee : (chargeTakerFee sender split.fee
    ⟨first.pool, HopOut.next tokenOut.asset rest⟩ b).run s w₁ with ⟨f | ⟨⟩, w₂⟩
  · obtain ⟨e, rfl, he⟩ := atWorst_chargeTakerFee hapart.accepted _ _ _ f w₂ hfee
    have hrefused : Refused s w₁ sender split.fee _ b ⟨first.assetIn, quoted⟩ tokenOut e w₂ :=
      .settling he hfee
    exact .inr ⟨e, w₂, rfl, hrefused.ne_pool, hrefused⟩
  obtain ⟨-, ps, hbefore⟩ := Router.estimate_ok hquote
  rw [← hchain] at hbefore
  obtain ⟨-, htotal⟩ := FeeSplit.gross_of_add hsplit
  rw [Word.le_def, htotal] at hmax
  obtain ⟨qs, hbuy⟩ := run_swapOut_of_apart hs hapart hfee hbefore hmax
  have hgross : split.gross.amount = quoted.addSat split.fee.amount := by
    rw [FeeSplit.gross, (FeeSplit.add_parts hsplit).1, Coin.withAmount]
  dsimp only
  rw [run_bind, hbuy, run_bind]
  rcases hx : (Router.exchange sender ⟨first.assetIn, quoted⟩ tokenOut qs).run s w₂
    with ⟨f | ⟨⟩, w₃⟩
  · obtain ⟨e, rfl, he⟩ := Router.atWorst_exchange _ _ _ _ w₂ f w₃ hx
    have hrefused := Refused.exchanging he w₂ qs hfee hx
    exact .inr ⟨e, w₃, rfl, hrefused.ne_pool, hrefused⟩
  · rw [hgross]
    exact .inl ⟨_, rfl⟩

/-- A hundred of token 2 are quoted at 208 of token 1; with the fee on that the sender pays 211. -/
theorem swapOut_pays_quote_in_crossing :
    ∃ split, FeeSplit.add ⟨.issued 1, 208⟩ crossing.chain.takerFee = .ok split ∧
      split.gross.amount = 211 ∧
      ((swapOut 9 crossingRoute 1000 ⟨.issued 2, 100⟩).run plainSettings crossing).1 =
        .ok split.gross.amount := by
  have hquoted : ((Router.estimate crossingRoute ⟨.issued 2, 100⟩).run plainSettings crossing).1 =
      .ok 208 := by decide +kernel
  obtain ⟨v, hquote⟩ := fst_ok_iff.1 hquoted
  obtain ⟨split, b, w₁, hsplit, -, -, h⟩ :=
    @swapOut_pays_quote plainSettings crossing 9 _ rfl (by decide) _ _ _ _ (by decide) hquote
  have hadd : FeeSplit.add ⟨.issued 1, 208⟩ crossing.chain.takerFee =
      .ok ⟨⟨.issued 1, 208⟩, ⟨.issued 1, 3⟩⟩ := by decide
  obtain rfl := Except.ok.inj (hsplit.symm.trans hadd)
  refine ⟨_, hadd, by decide, ?_⟩
  rcases h 1000 (by decide) with ⟨w', hpaid⟩ | ⟨e, w', hrefused, -, -⟩
  · exact congrArg Prod.fst hpaid
  · -- The ledger has what it takes.
    have hbought : ((swapOut 9 crossingRoute 1000 ⟨.issued 2, 100⟩).run plainSettings crossing).1 =
        .ok 211 := by decide +kernel
    rw [crossingRoute, hrefused] at hbought
    cases hbought

end SwapFees.Swap
