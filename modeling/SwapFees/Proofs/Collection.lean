import SwapFees.Proofs.Ledger.Spending
import SwapFees.Proofs.Sender

namespace SwapFees

namespace Ledger

variable {l l' : Ledger} {who source dest : AccountId} {c tokenIn tokenOut : Coin}

theorem exchanges_issued (h : l.Exchanges who tokenIn tokenOut l') (hout : tokenOut.amount ≠ 0) :
    tokenOut.amount.toNat ≤ l'.issued tokenOut.asset.id? := by
  obtain ⟨n, l₁, -, hm⟩ := h
  rw [if_neg hout] at hm
  have hissued := mint_issued hm tokenOut.asset.id?
  rw [if_pos rfl] at hissued
  omega

theorem transfer_preserve_isOk_iff (hn : c.amount ≠ 0)
    (hissued : c.amount.toNat ≤ l.issued c.asset.id?) (hlive : l.Live c.asset.id?)
    (hcan : l.canReceive dest c = true) :
    (l.transfer source dest c .preserve).isOk = true ↔
      l.least c.asset.id? + c.amount.toNat ≤ l.holds source c.asset.id? := by
  rw [transfer_isOk_iff hn hissued]
  constructor
  · rintro ⟨-, hkept, -⟩
    exact hkept.resolve_left (by decide)
  · intro hkept
    exact ⟨le_spendable hlive hissued hkept, .inr hkept, hcan⟩

end Ledger

open Effect

variable {s : Settings} {w w' : World} {sender : AccountId}

theorem Bank.transfer_succeeds_iff {source dest : AccountId} {c : Coin} {p : Preservation}
    (hc : c.amount ≠ 0) :
    ((transfer source dest c p).run s w).1 = .ok () ↔
      (w.chain.ledger.transfer source dest c p).isOk = true := by
  rw [transfer, if_neg (Coin.not_isZero hc), run_onLedger]
  cases w.chain.ledger.transfer source dest c p with
  | error e =>
    constructor
    · intro h
      cases h
    · intro h
      cases h
  | ok l => exact ⟨fun _ => rfl, fun _ => rfl⟩

namespace Swap

variable {fee got : Coin} {firstHop : HopIn}

theorem acceptedFee_exchanges (h : (acceptedFee sender fee firstHop).run s w = (.ok got, w'))
    (haccepted : w.chain.isFeeAsset fee.asset = false) (hgot : got.amount ≠ 0) :
    w.chain.ledger.Exchanges sender fee got w'.chain.ledger := by
  have hnot : ¬ w.chain.isFeeAsset fee.asset = true := Bool.eq_false_iff.1 haccepted
  have hs : s.routerFailure = none := by
    rcases acceptedFee_cases h with ⟨htrue, -⟩ | ⟨-, v, n, -, hswap, rfl⟩
    · exact absurd htrue hnot
    · exact Router.swapIn_unfailing hswap hgot
  rcases acceptedFee_ok hs h with ⟨htrue, -⟩ | ⟨-, ps, l, -, hx, hw'⟩
  · exact absurd htrue hnot
  · rw [hw']
    exact hx

theorem run_chargeTakerFee {beneficiary : Option AccountId} (hfee : fee.amount ≠ 0)
    (h : (acceptedFee sender fee firstHop).run s w = (.ok got, w')) (hgot : got.amount ≠ 0) :
    (chargeTakerFee sender fee firstHop beneficiary).run s w =
      (Bank.transfer sender s.feeAccount got .preserve >>= fun _ =>
        Settlement.settle got beneficiary (some sender)).run s w' := by
  rw [chargeTakerFee, if_neg (Coin.not_isZero hfee), run_bind, h]
  dsimp only
  rw [Settlement.chargeFrom, if_neg (Coin.not_isZero hgot), run_bind_read]

/-- What a fee was swapped for can be collected exactly when its sender then holds the minimum
beside it. An anchored sender must have held the minimum before, unless the fee was taken from the
same balance. -/
theorem collects_iff (hfee : fee.amount ≠ 0) (haccepted : w.chain.isFeeAsset fee.asset = false)
    (h : (acceptedFee sender fee firstHop).run s w = (.ok got, w')) (hgot : got.amount ≠ 0)
    (hcan : w'.chain.ledger.canReceive s.feeAccount got = true)
    (hlive : w'.chain.ledger.Live got.asset.id?) (beneficiary : Option AccountId) :
    let collect := Bank.transfer sender s.feeAccount got .preserve
    (chargeTakerFee sender fee firstHop beneficiary).run s w =
        (collect >>= fun _ => Settlement.settle got beneficiary (some sender)).run s w' ∧
      ((collect.run s w').1 = .ok () ↔ w'.chain.ledger.least got.asset.id? + got.amount.toNat ≤
        w'.chain.ledger.holds sender got.asset.id?) ∧
      (w.chain.ledger.Anchored sender → fee.asset.id? ≠ got.asset.id? →
        ((collect.run s w').1 = .ok () ↔
          w.chain.ledger.least got.asset.id? ≤ w.chain.ledger.holds sender got.asset.id?)) := by
  intro collect
  have hx := acceptedFee_exchanges h haccepted hgot
  have hissued := Ledger.exchanges_issued hx hgot
  have hcollect : (collect.run s w').1 = .ok () ↔
      w'.chain.ledger.least got.asset.id? + got.amount.toNat ≤
        w'.chain.ledger.holds sender got.asset.id? :=
    (Bank.transfer_succeeds_iff hgot).trans
      (Ledger.transfer_preserve_isOk_iff hgot hissued hlive hcan)
  refine ⟨run_chargeTakerFee hfee h hgot, hcollect, fun ha hne => ?_⟩
  -- The fee was paid from another balance, so what was got is all that this one gained.
  obtain ⟨l₁, hpaid, hreceived⟩ := Ledger.exchanges_effect hx ha
  have hbefore := hpaid.rest _ hne.symm
  have hleast := Ledger.exchanges_least hx got.asset.id?
  rw [hcollect, hreceived.holds, hbefore, hleast]
  omega

/-- Account 9 holds native currency beyond the minimum. -/
theorem collects_in_market :
    let w := market 1 { providers := 1, sufficients := 1, free := 50 } (.issued 2)
    let swapped := (acceptedFee 9 ⟨.issued 1, 10⟩ ⟨1, .native⟩).run plainSettings w
    swapped.1 = .ok ⟨.native, 10⟩ ∧
      ((Bank.transfer 9 5 ⟨.native, 10⟩ .preserve).run plainSettings swapped.2).1 = .ok () := by
  intro w swapped
  have hok : swapped.1 = .ok ⟨.native, 10⟩ := by decide
  have h := @collects_iff plainSettings w swapped.2 9 ⟨.issued 1, 10⟩ ⟨.native, 10⟩ ⟨1, .native⟩
    (by decide) (by decide) (Prod.ext hok rfl) (by decide) (by decide) (by decide) none
  exact ⟨hok, (h.2.2 (by decide) (by decide)).2 (by decide)⟩

/-- Account 9 has no native currency, so that it cannot give up all that the fee was swapped for. -/
theorem collection_refused_without_minimum :
    let w := market 1 { sufficients := 1 } (.issued 2)
    let swapped := (acceptedFee 9 ⟨.issued 1, 10⟩ ⟨1, .native⟩).run plainSettings w
    plainSettings.feeAccount ≠ 9 ∧ w.chain.isFeeAsset (.issued 1) = false ∧
      swapped.1 = .ok ⟨.native, 10⟩ ∧
      swapped.2.chain.ledger.canReceive plainSettings.feeAccount ⟨.native, 10⟩ = true ∧
      swapped.2.chain.ledger.Live none ∧ w.chain.balance 9 .native = 0 ∧
      ((Bank.transfer 9 plainSettings.feeAccount ⟨.native, 10⟩ .preserve).run plainSettings
        swapped.2).1 = .error (.error (.token .notExpendable)) ∧
      ((chargeTakerFee 9 ⟨.issued 1, 10⟩ ⟨1, .native⟩ none).run plainSettings w).1 =
        .error (.error (.token .notExpendable)) := by
  decide

end Swap

end SwapFees
