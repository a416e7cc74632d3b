import SwapFees.Preset
import SwapFees.Proofs.FeeSplit
import SwapFees.Proofs.Ledger.Coins
import SwapFees.Proofs.Moves

namespace SwapFees

theorem Moves.sameFor {party : AccountId → Prop} {who : AccountId} (hw : ¬ party who) {c c' : Chain}
    (h : Moves party c c') : Ledger.SameFor who c.ledger c'.ledger := by
  refine h.lift (R := fun c c' => Ledger.SameFor who c.ledger c'.ledger) (fun c => .refl who c.ledger)
    (fun h h' => h.trans h') fun hm => ?_
  have ne {q : AccountId} (hq : party q) : who ≠ q := fun e => hw (e ▸ hq)
  cases hm with
  | pay hs hd h => exact Ledger.transfer_others h (ne hs) (ne hd)
  | burn hq h => exact (Ledger.burn_effect h).1.others who (ne hq)
  | debit hq h => exact (Ledger.burn_effect h).1.others who (ne hq)
  | trade hq ht hx => exact Ledger.exchanges_others hx (ne hq)
  | announce e => exact .refl who _
  | remember last => exact .refl who _

open Effect

namespace Settlement

variable {s : Settings} {w w' : World}

/-- A fee costs a payer with no other part in its settlement exactly that fee. -/
theorem chargeFrom_payer {payer : AccountId} {fee : Coin} {beneficiary : Option AccountId}
    (h : (chargeFrom payer fee beneficiary).run s w = (.ok (), w'))
    (ha : w.chain.ledger.Anchored payer) (hf : payer ≠ s.feeAccount) (hp : payer ≠ s.communityPool)
    (hb : beneficiary ≠ some payer) :
    w.chain.ledger.Charged payer fee.asset.id? fee.amount.toNat w'.chain.ledger ∧
      w'.chain.ledger.holds payer fee.asset.id? + fee.amount.toNat =
        w.chain.ledger.holds payer fee.asset.id? := by
  by_cases hfee : fee.amount = 0
  · rw [chargeFrom_zero hfee] at h
    obtain ⟨-, rfl⟩ := Prod.mk.inj h
    rw [hfee, Word.toNat_zero]
    exact ⟨.zero ha _, rfl⟩
  · obtain ⟨l, ht, h⟩ := chargeFrom_ok hfee h
    obtain ⟨hc, hkeep⟩ := Ledger.transfer_source hf ht ha
    have hb : ∀ who ∈ beneficiary, who ≠ payer := fun who hw e => hb (e ▸ hw)
    have hmoving : (settle fee beneficiary (some payer)).Moving s fun who => who ≠ payer :=
      moving_settle hf.symm hp.symm fee hb _
    have hm := hmoving (w.with { w.chain with ledger := l })
    rw [h] at hm
    have hc : w.chain.ledger.Charged payer fee.asset.id? fee.amount.toNat w'.chain.ledger :=
      hc.sameFor (Moves.sameFor (fun hn => hn rfl) hm)
    have := hkeep (by decide)
    have := hc.pays
    unfold Ledger.Pays at this
    exact ⟨hc, by omega⟩

end Settlement

namespace Swap

variable {s : Settings} {w w' : World} {sender : AccountId} {fee : Coin} {firstHop : HopIn}
variable (hs : s.routerFailure = none)
include hs

/-- A taker fee costs the sender exactly that fee, also where it is first exchanged for another
coin: that coin comes and goes. -/
theorem chargeTakerFee_sender {beneficiary : Option AccountId}
    (h : (chargeTakerFee sender fee firstHop beneficiary).run s w = (.ok (), w'))
    (ha : w.chain.ledger.Anchored sender) (hf : sender ≠ s.feeAccount)
    (hp : sender ≠ s.communityPool) (hb : beneficiary ≠ some sender) :
    w.chain.ledger.Charged sender fee.asset.id? fee.amount.toNat w'.chain.ledger := by
  rcases chargeTakerFee_ok h with ⟨hfee, rfl⟩ | ⟨-, fee', v, hv, hcharge⟩
  · rw [hfee, Word.toNat_zero]
    exact .zero ha _
  · rcases acceptedFee_ok hs hv with ⟨-, rfl, rfl⟩ | ⟨-, ps, l, -, hx, hl⟩
    · exact (Settlement.chargeFrom_payer hcharge ha hf hp hb).1
    · obtain ⟨l₁, hpaid, hgot⟩ := Ledger.exchanges_effect hx ha
      rw [show l = v.chain.ledger by rw [hl]] at hgot
      obtain ⟨hcharged, hback⟩ := Settlement.chargeFrom_payer hcharge hgot.anchored hf hp hb
      -- What was got for the fee is collected whole, so nothing but the fee is missing.
      have same : ∀ j, w'.chain.ledger.holds sender j = l₁.holds sender j := by
        intro j
        by_cases hj : j = fee'.asset.id?
        · have := hgot.holds
          rw [hj]
          omega
        · exact (hcharged.rest j hj).trans (hgot.rest j hj)
      refine ⟨fun j => ?_, hcharged.anchored, ?_, fun j hj => (same j).trans (hpaid.rest j hj)⟩
      · rw [hcharged.least, hgot.least, hpaid.least]
      · unfold Ledger.Pays
        rw [same]
        exact hpaid.pays

end Swap

/-- `who` gave `paid` of one asset for `got` of another. A rest too small to be kept may be lost; no
other balance changes. -/
structure Ledger.Swapped (l : Ledger) (who : AccountId) (assetIn assetOut : Asset)
    (paid got : Amount) (l' : Ledger) : Prop where
  afforded : paid ≤ l.balance who assetIn
  taken : (l.balance who assetIn).toNat = paid.toNat ∨
      paid.toNat + l.least assetIn.id? ≤ (l.balance who assetIn).toNat →
    (l'.balance who assetIn).toNat + paid.toNat = (l.balance who assetIn).toNat
  given : (l'.balance who assetOut).toNat = (l.balance who assetOut).toNat + got.toNat
  rest : ∀ a : Asset, a.id? ≠ assetIn.id? → a.id? ≠ assetOut.id? → l'.balance who a = l.balance who a

theorem Ledger.swapped {l l₁ l' : Ledger} {who : AccountId} {assetIn assetOut : Asset}
    {paid got : Amount} (hc : l.Charged who assetIn.id? paid.toNat l₁)
    (hr : l₁.Credited who assetOut.id? got.toNat l') (hne : assetIn.id? ≠ assetOut.id?) :
    l.Swapped who assetIn assetOut paid got l' where
  afforded := by
    rw [Word.le_def, toNat_balance]
    exact hc.pays.1
  taken h := by
    rw [toNat_balance] at h ⊢
    rw [toNat_balance, hr.rest _ hne]
    exact hc.pays.holds_eq h
  given := by
    rw [toNat_balance, toNat_balance, hr.holds, hc.rest _ hne.symm]
  rest a hin hout := by
    refine Word.ext ?_
    rw [toNat_balance, toNat_balance, hr.rest _ hout, hc.rest _ hin]

namespace Swap

variable {s : Settings} {w w' : World} {sender : AccountId}
variable (hs : s.routerFailure = none) (ha : w.chain.ledger.Anchored sender)
variable (hf : sender ≠ s.feeAccount) (hp : sender ≠ s.communityPool)
include hs ha hf hp

theorem swapIn_sender {route : List HopIn} {tokenIn : Coin} {minOut n : Amount} {last : HopIn}
    (h : (swapIn sender route tokenIn minOut).run s w = (.ok n, w'))
    (hlast : route.getLast? = some last)
    (hb : ((beneficiary tokenIn.asset last.assetOut).run s w).1 ≠ .ok (some sender)) :
    minOut ≤ n ∧ ∃ l, w.chain.ledger.Charged sender tokenIn.asset.id? tokenIn.amount.toNat l ∧
      l.Credited sender last.assetOut.id? n.toNat w'.chain.ledger := by
  obtain ⟨first, b, w₁, w₂, w₃, -, hben, hfee, hswap, rfl⟩ := swapIn_ok h hlast
  obtain ⟨hnet, hfeeAsset, hsum⟩ := FeeSplit.subtract_parts tokenIn w.chain.takerFee
  have hchain := (beneficiary_ok hben).1
  have hb : b ≠ some sender := fun e => hb (by rw [hben, e])
  have hcharged := chargeTakerFee_sender hs hfee (hchain ▸ ha) hf hp hb
  obtain ⟨out, ps, l, hcarry, hmin, hx, rfl, rfl⟩ := Router.swapIn_ok hs hswap
  obtain ⟨l₁, hpaid, hgot⟩ := Ledger.exchanges_effect hx hcharged.anchored
  rw [hchain, hfeeAsset] at hcharged
  rw [hnet] at hpaid
  rw [Pools.carry_asset hlast hcarry] at hgot
  refine ⟨hmin, l₁, ?_, hgot⟩
  rw [← hsum]
  exact hcharged.trans hpaid

theorem swapOut_sender {first : HopOut} {rest : List HopOut} {maxIn n : Amount} {tokenOut : Coin}
    (h : (swapOut sender (first :: rest) maxIn tokenOut).run s w = (.ok n, w'))
    (hb : ((beneficiary first.assetIn tokenOut.asset).run s w).1 ≠ .ok (some sender)) :
    n ≤ maxIn ∧ ∃ l, w.chain.ledger.Charged sender first.assetIn.id? n.toNat l ∧
      l.Credited sender tokenOut.asset.id? tokenOut.amount.toNat w'.chain.ledger := by
  obtain ⟨quoted, split, b, w₁, w₂, m, w₃, -, hsplit, hgross, hben, hfee, hswap, hn, e, rfl⟩ :=
    swapOut_ok h
  obtain ⟨-, hfeeAsset⟩ := FeeSplit.add_parts hsplit
  have hchain := (beneficiary_ok hben).1
  have hb : b ≠ some sender := fun e => hb (by rw [hben, e])
  have hcharged := chargeTakerFee_sender hs hfee (hchain ▸ ha) hf hp hb
  obtain ⟨ps, l, hreq, hmax, hx, rfl⟩ := Router.swapOut_ok hs hswap
  obtain ⟨l₁, hpaid, hgot⟩ := Ledger.exchanges_effect hx hcharged.anchored
  rw [hchain, hfeeAsset] at hcharged
  -- The fee and the payment come to at most the maximum, so their sum is exact.
  have hfeeMax : split.fee.amount.toNat ≤ maxIn.toNat :=
    Nat.le_trans split.fee_le_gross hgross
  have hmax : m.toNat ≤ maxIn.toNat - split.fee.amount.toNat := hmax
  have htotal : n.toNat = m.toNat + split.fee.amount.toNat := by
    rw [hn]
    apply Word.toNat_saturate_of_lt
    have := maxIn.isLt
    omega
  refine ⟨?_, l₁, ?_, hgot⟩
  · rw [Word.le_def]
    omega
  · rw [htotal, Nat.add_comm]
    exact hcharged.trans hpaid

/-- A swap without injected failure, by a sender that its settlement does not otherwise concern,
takes from it exactly what was asked or answered and gives it exactly what was answered or asked,
within its bound. The input and the output asset must not share a ledger entry. -/
theorem sender_protected :
    (∀ (route : List HopIn) (tokenIn : Coin) (minOut n : Amount) (last : HopIn) (w' : World),
      (swapIn sender route tokenIn minOut).run s w = (.ok n, w') → route.getLast? = some last →
      ((beneficiary tokenIn.asset last.assetOut).run s w).1 ≠ .ok (some sender) →
      tokenIn.asset.id? ≠ last.assetOut.id? →
      minOut ≤ n ∧
        w.chain.ledger.Swapped sender tokenIn.asset last.assetOut tokenIn.amount n w'.chain.ledger) ∧
    ∀ (route : List HopOut) (maxIn : Amount) (tokenOut : Coin) (n : Amount) (first : HopOut)
      (w' : World),
      (swapOut sender route maxIn tokenOut).run s w = (.ok n, w') → route.head? = some first →
      ((beneficiary first.assetIn tokenOut.asset).run s w).1 ≠ .ok (some sender) →
      first.assetIn.id? ≠ tokenOut.asset.id? →
      n ≤ maxIn ∧
        w.chain.ledger.Swapped sender first.assetIn tokenOut.asset n tokenOut.amount
          w'.chain.ledger := by
  constructor
  · intro route tokenIn minOut n last w' h hlast hb hne
    obtain ⟨hmin, l, hc, hr⟩ := swapIn_sender hs ha hf hp h hlast hb
    exact ⟨hmin, Ledger.swapped hc hr hne⟩
  · intro route maxIn tokenOut n first w' h hfirst hb hne
    obtain ⟨rest, rfl⟩ := List.head?_eq_some_iff.1 hfirst
    obtain ⟨hmax, l, hc, hr⟩ := swapOut_sender hs ha hf hp h hb
    exact ⟨hmax, Ledger.swapped hc hr hne⟩

omit hs ha hf hp

/-- Fees go to account 5, and nobody is rewarded. -/
def plainSettings : Settings :=
  { Settings.standard with feeAccount := 5, ownersDeployed := false }

/-- Account 9 is `a` and holds all of token 1, which trades one for one against the native currency;
a swap costs one percent. -/
def market (minBalance : Amount) (a : Account) (base : Asset) : World where
  chain :=
    { ledger :=
        { minBalance, issuance := a.free, accounts := .ofList [(9, a)]
          tokens := .ofList [(1,
            { sufficient := true, minBalance := 1, supply := 100, holdings := .ofList [(9, 100)] })] }
      pools := .ofList [(1, ⟨⟨.issued 1, 1000⟩, ⟨.native, 1000⟩, .sum, .zero⟩)]
      base, registry := .empty, burned := ∅, cursor := none, takerFee := .percent 1, events := [] }
  log := []

/-- Token 1 pays no fees here, so the fee is first exchanged for native currency. -/
theorem sender_protected_in_market :
    let w := market 1 { providers := 1, sufficients := 1, free := 50 } .native
    let sold := (swapIn 9 [⟨1, .native⟩] ⟨.issued 1, 100⟩ 99).run plainSettings w
    let bought := (swapOut 9 [⟨1, .issued 1⟩] 100 ⟨.native, 20⟩).run plainSettings w
    sold.1 = .ok 99 ∧
      w.chain.ledger.Swapped 9 (.issued 1) .native 100 99 sold.2.chain.ledger ∧
      bought.1 = .ok 21 ∧
      w.chain.ledger.Swapped 9 (.issued 1) .native 21 20 bought.2.chain.ledger := by
  intro w sold bought
  have hsold : sold.1 = .ok 99 := by decide
  have hbought : bought.1 = .ok 21 := by decide
  have h := @sender_protected plainSettings w 9 rfl (by decide) (by decide) (by decide)
  refine ⟨hsold, ?_, hbought, ?_⟩
  · exact (h.1 _ _ _ _ _ _ (Prod.ext hsold rfl) rfl (by decide) (by decide)).2
  · exact (h.2 _ _ _ _ _ _ (Prod.ext hbought rfl) rfl (by decide) (by decide)).2

/-- Without a least balance an account that nothing refers to vanishes with what it is paid: here
the sale of a whole holding takes the last reference, and the native currency is lost. -/
theorem sender_loses_without_provider :
    let w := market 0 { sufficients := 1 } (.issued 1)
    let sold := (swapIn 9 [⟨1, .native⟩] ⟨.issued 1, 100⟩ 0).run plainSettings w
    plainSettings.routerFailure = none ∧ plainSettings.feeAccount ≠ 9 ∧
      plainSettings.communityPool ≠ 9 ∧
      ((beneficiary (.issued 1) .native).run plainSettings w).1 ≠ .ok (some 9) ∧
      sold.1 = .ok 99 ∧ w.chain.ledger.balance 9 (.issued 1) = 100 ∧
      (sold.2.chain.ledger.balance 9 .native).toNat ≠
        (w.chain.ledger.balance 9 .native).toNat + (99 : Amount).toNat := by
  decide

end Swap

end SwapFees
