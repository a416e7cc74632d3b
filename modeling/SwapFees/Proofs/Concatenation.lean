import SwapFees.Proofs.Ledger.Tidy
import SwapFees.Proofs.Locality
import SwapFees.Proofs.Sender

namespace SwapFees

/-- What one route leaves to carry, and the pools that it leaves, the next one goes on with. -/
theorem Pools.carry_append {ps qs : Pools} {c d : Coin} {r : List HopIn}
    (h : ps.carry c r = .ok (d, qs)) (r' : List HopIn) :
    ps.carry c (r ++ r') = qs.carry d r' := by
  induction r generalizing ps c with
  | nil =>
    cases h
    rfl
  | cons hop rest ih =>
    obtain ⟨p, n, p', hp, hn, h⟩ := carry_cons_ok h
    rw [List.cons_append, carry_cons hp hn]
    exact ih h

namespace Router

open Effect

variable {s : Settings} {w w₁ w₂ : World}

/-- Two sales in a row, the second of what the first one gave, are one sale along both routes, with
the same output and the same world behind it. Pools may be visited again and again, the sender may
hold nothing else, and what it holds in between may be nothing. What is asked of the ledger holds of
all that genesis leads to (`Genesis.Reaches.tidy`). -/
theorem swapIn_append (hs : s.routerFailure = none) (hformed : w.chain.ledger.WellFormed)
    (hkept : ∀ who j, w.chain.ledger.holds who j = 0 ∨
      w.chain.ledger.least j ≤ w.chain.ledger.holds who j)
    {sender : AccountId} {first second : List HopIn} {last : HopIn} {tokenIn : Coin}
    {minOut between out : Amount} (hlast : first.getLast? = some last)
    (hfirst : (swapIn sender first tokenIn 0).run s w = (.ok between, w₁))
    (hsecond : (swapIn sender second ⟨last.assetOut, between⟩ minOut).run s w₁ = (.ok out, w₂)) :
    (swapIn sender (first ++ second) tokenIn minOut).run s w = (.ok out, w₂) := by
  have htidy : w.chain.ledger.Tidy := Ledger.tidy_iff.2 ⟨hformed, hkept⟩
  obtain ⟨c, ps, l, hcarry, -, hpaid, rfl, rfl⟩ := swapIn_ok hs hfirst
  obtain ⟨d, qs, l', hcarry', hmin, hpaid', rfl, rfl⟩ := swapIn_ok hs hsecond
  have hc : c = ⟨last.assetOut, c.amount⟩ := by
    rw [← Pools.carry_asset hlast hcarry]
  rw [← hc] at hcarry' hpaid'
  have hroute : first ++ second ≠ [] := by
    intro e
    rw [(List.append_eq_nil_iff.1 e).1] at hlast
    cases hlast
  exact swapIn_run hs hroute ((Pools.carry_append hcarry second).trans hcarry') hmin
    (htidy.exchanges_trans hpaid hpaid')

/-- Account 9 lives on a holding of token 1 alone, of which ten is the least. -/
def detour : World where
  chain :=
    { ledger :=
        { minBalance := 10, issuance := 0
          accounts := .ofList [(9, { sufficients := 1 })]
          tokens := .ofList [(1,
            { sufficient := true, minBalance := 10, supply := 105
              holdings := .ofList [(9, 105)] })] }
      pools := .ofList [(1, ⟨⟨.issued 1, 1000⟩, ⟨.native, 1000⟩, .product, .zero⟩)]
      base := .native, registry := .empty, burned := ∅, cursor := none, takerFee := .zero
      events := [] }
  log := []

/-- It sells a hundred, loses the other five and with them its life, and buys back what it can from
the same pool. -/
theorem swapIn_append_of_detour :
    ((swapIn 9 [⟨1, .native⟩, ⟨1, .issued 1⟩] ⟨.issued 1, 100⟩ 90).run
      Swap.plainSettings detour).1 = .ok 99 := by
  have hfirst : ((swapIn 9 [⟨1, .native⟩] ⟨.issued 1, 100⟩ 0).run Swap.plainSettings detour).1 =
      .ok 90 := by decide +kernel
  have hsecond : ((swapIn 9 [⟨1, .issued 1⟩] ⟨.native, 90⟩ 90).run Swap.plainSettings
      ((swapIn 9 [⟨1, .native⟩] ⟨.issued 1, 100⟩ 0).run Swap.plainSettings detour).2).1 =
      .ok 99 := by decide +kernel
  have hkept := Ledger.kept_of_entries (l := detour.chain.ledger) (by decide) (by decide)
  have hlast : [(⟨1, .native⟩ : HopIn)].getLast? = some ⟨1, .native⟩ := rfl
  have hwhole := swapIn_append (s := Swap.plainSettings) rfl (by decide) hkept hlast
    (Prod.ext hfirst rfl) (Prod.ext hsecond rfl)
  exact congrArg Prod.fst hwhole

end Router

end SwapFees
