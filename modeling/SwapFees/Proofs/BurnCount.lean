import SwapFees.Proofs.Faults
import SwapFees.Proofs.Handover
import SwapFees.Proofs.Ledger.Kept
import SwapFees.Proofs.Settlement

namespace SwapFees

open Effect

/-- How much of an asset an event tells to have burned. -/
def Event.burned (a : Asset) : Event → Nat
  | feeCharged _ fee _ _ communityPool =>
    if fee.asset = a ∧ communityPool = false then fee.amount.toNat else 0
  | residueBurned c => if c.asset = a then c.amount.toNat else 0
  | _ => 0

namespace Chain

/-- How much of an asset the events tell to have burned. -/
def toldBurned (c : Chain) (a : Asset) : Nat := (c.events.map (Event.burned a)).sum

/-- From one chain to another the counters rise, short of saturation, by what the events tell. -/
def Explains (c c' : Chain) : Prop :=
  ∀ a, ∃ n, c'.toldBurned a = c.toldBurned a + n ∧
    (c'.totalBurned a).toNat = min ((c.totalBurned a).toNat + n) (2 ^ (128 : Nat) - 1)

variable {c c' c'' : Chain}

theorem Explains.refl (c : Chain) : c.Explains c := fun a =>
  ⟨0, rfl, by have := (c.totalBurned a).isLt; omega⟩

theorem Explains.trans (h : c.Explains c') (h' : c'.Explains c'') : c.Explains c'' := by
  intro a
  obtain ⟨n, ht, hc⟩ := h a
  obtain ⟨m, ht', hc'⟩ := h' a
  exact ⟨n + m, by omega, by omega⟩

theorem toldBurned_append {es : List Event} (he : c'.events = c.events ++ es) (a : Asset) :
    c'.toldBurned a = c.toldBurned a + (es.map (Event.burned a)).sum := by
  rw [toldBurned, he, List.map_append, List.sum_append]
  rfl

theorem explains_of_events (es : List Event) (hb : c'.burned = c.burned)
    (he : c'.events = c.events ++ es) (hes : ∀ e ∈ es, ∀ a, e.burned a = 0) : c.Explains c' := by
  intro a
  have hz : (es.map (Event.burned a)).sum = 0 := by
    rw [List.map_congr_left fun e he => hes e he a, List.map_const', List.sum_replicate_nat]
    exact Nat.mul_zero _
  have hcount : c'.totalBurned a = c.totalBurned a := congrArg (fun m => (m.get? a).getD 0) hb
  have := (c.totalBurned a).isLt
  refine ⟨0, ?_, ?_⟩
  · rw [toldBurned_append he, hz]
  · rw [hcount]
    omega

theorem explains_of_eq (hb : c'.burned = c.burned) (he : c'.events = c.events) : c.Explains c' :=
  explains_of_events [] hb (by rw [he, List.append_nil]) nofun

theorem explains_of_burn (l : Ledger) (coin : Coin) (e : Event)
    (he : ∀ a, e.burned a = if coin.asset = a then coin.amount.toNat else 0)
    (hb : c'.burned = (c.countBurned l coin.asset coin.amount).burned)
    (hevents : c'.events = c.events ++ [e]) : c.Explains c' := by
  intro a
  have hcount : c'.totalBurned a = (c.countBurned l coin.asset coin.amount).totalBurned a :=
    congrArg (fun m => (m.get? a).getD 0) hb
  refine ⟨e.burned a, ?_, ?_⟩
  · rw [toldBurned_append hevents, List.map_singleton, List.sum_singleton]
  · rw [hcount, toNat_totalBurned_countBurned, he]
    exact congrArg (fun k => min (_ + k) _)
      (ite_congr (propext eq_comm) (fun _ => rfl) fun _ => rfl)

end Chain

/-- Whatever the fee account receives it can spare. -/
structure Chain.Sparing (s : Settings) (c : Chain) : Prop where
  anchored : c.ledger.Anchored s.feeAccount
  kept : c.ledger.Kept

variable {s : Settings} {w w' : World}

theorem Step.sparing {growing : Prop} {c c' : Chain} (h : Step s growing c c')
    (hc : c.Sparing s) : c'.Sparing s :=
  ⟨h.anchored hc.anchored, h.kept hc.kept⟩

theorem Chain.Sparing.run {α : Type} {a : Effect α} {r : Except Failure α}
    (hc : w.chain.Sparing s) (ha : a.Moving s fun _ => True) (h : a.run s w = (r, w')) :
    w'.chain.Sparing s := by
  have hsteps : Steps s True w.chain (a.run s w).2.chain := ha.within w
  rw [h] at hsteps
  exact Steps.keep Step.sparing hsteps hc

namespace Conversion

theorem Outcome.spares {base : Asset} {fee coin : Coin} {c c' : Chain}
    (h : Outcome s base fee c (.converted coin) c') (hc : c.Sparing s)
    (hfee : c.ledger.Spares s.feeAccount fee) : c'.ledger.Spares s.feeAccount coin := by
  cases h with
  | kept hbase => exact hfee
  | exchanged hbase hs ht hasset hout hcarry hx hes =>
    obtain ⟨n, l₁, hburn, hmint⟩ := hx
    rw [if_neg hout] at hmint
    have ha := hc.anchored.burn hburn
    obtain ⟨hsame, hgain⟩ := Ledger.mint_effect hmint
    exact (hc.kept.burn hburn).spares ha hsame.least (hgain ha)

theorem Outcome.explains {base : Asset} {fee : Coin} {c c' : Chain} {r : Conversion}
    (h : Outcome s base fee c r c') : c.Explains c' := by
  obtain ⟨-, hb, es, hes, he⟩ := h.frame
  refine Chain.explains_of_events es hb he fun e hm a => ?_
  have hconversion := hes e hm
  cases e with
  | feeTokenSwapped => rfl
  | _ => cases hconversion

end Conversion

namespace Settlement

variable {fee coin : Coin} {beneficiary payer : Option AccountId}

/-- Paying a share out of a spared coin spares the rest, as far as there is anything left to burn. -/
theorem payShare_spares {revenue : Option Coin} {n : Amount} {l : Ledger}
    (hc : w.chain.Sparing s) (hcoin : coin.amount ≠ 0)
    (hspares : w.chain.ledger.Spares s.feeAccount coin)
    (hb : ∀ who ∈ beneficiary, who ≠ s.feeAccount)
    (h : (payShare beneficiary coin).run s w = (.ok revenue, w'))
    (hburn : w'.chain.ledger.burn s.feeAccount (rest coin revenue) = .ok (n, l)) :
    n = (rest coin revenue).amount := by
  have hc' := hc.run (moving_payShare trivial (fun _ _ => trivial) coin) h
  obtain ⟨hrevenue, l', hw', hpay⟩ := payShare_ok h
  have hledger : w'.chain.ledger = l' := by rw [hw']
  have hhalf := share_le w.chain.ledger beneficiary coin
  generalize share w.chain.ledger beneficiary coin = m at hrevenue hpay hhalf
  rw [hrevenue, rest_paid] at hburn ⊢
  refine Ledger.Spares.burn ?_ hc'.anchored hburn
  have hpos : coin.amount.toNat ≠ 0 := fun e => hcoin (Word.toNat_eq_zero.1 e)
  have hpays := ((Ledger.burn_effect hburn).2 hc'.anchored).1.1
  unfold Ledger.Spares at hspares ⊢
  rw [hledger] at hpays ⊢
  change (coin.amount.subSat m).toNat ≤ l'.holds s.feeAccount coin.asset.id? at hpays
  change l'.holds s.feeAccount coin.asset.id? = (coin.amount.subSat m).toNat ∨
    (coin.amount.subSat m).toNat + l'.least coin.asset.id? ≤ l'.holds s.feeAccount coin.asset.id?
  rw [Word.toNat_subSat] at hpays ⊢
  by_cases hm : m = 0
  · rw [if_pos hm] at hpay
    rw [hpay, hm, Word.toNat_zero, Nat.sub_zero]
    exact hspares
  · rw [if_neg hm] at hpay
    obtain ⟨who, hwho, htransfer⟩ := hpay
    obtain ⟨hcharged, -⟩ := Ledger.transfer_source (hb who hwho).symm htransfer hc.anchored
    -- Had a rest under the minimum gone with the share, nothing would be left to burn.
    have hpaid := hcharged.pays
    have hleast := hcharged.least coin.asset.id?
    unfold Ledger.Pays at hpaid
    change m.toNat ≤ w.chain.ledger.holds s.feeAccount coin.asset.id? ∧
      (l'.holds s.feeAccount coin.asset.id? =
          w.chain.ledger.holds s.feeAccount coin.asset.id? - m.toNat ∨
        w.chain.ledger.holds s.feeAccount coin.asset.id? - m.toNat <
          w.chain.ledger.least coin.asset.id? ∧
        l'.holds s.feeAccount coin.asset.id? = 0) at hpaid
    change l'.least coin.asset.id? = w.chain.ledger.least coin.asset.id? at hleast
    omega

theorem rest_ne_zero {revenue : Option Coin} (hcoin : coin.amount ≠ 0)
    (h : (payShare beneficiary coin).run s w = (.ok revenue, w')) :
    (rest coin revenue).amount ≠ 0 := by
  have hhalf := share_le w.chain.ledger beneficiary coin
  have hpos : coin.amount.toNat ≠ 0 := fun e => hcoin (Word.toNat_eq_zero.1 e)
  rw [(payShare_ok h).1, rest_paid]
  intro e
  have hz := Word.toNat_eq_zero.2 e
  change coin.amount.toNat - (share w.chain.ledger beneficiary coin).toNat = 0 at hz
  omega

theorem shared_explains {revenue : Option Coin} {w₁ w₂ : World} (hc : w.chain.Sparing s)
    (hcoin : coin.amount ≠ 0) (hspares : w.chain.ledger.Spares s.feeAccount coin)
    (hb : ∀ who ∈ beneficiary, who ≠ s.feeAccount)
    (hshare : (payShare beneficiary coin).run s w = (.ok revenue, w₁))
    (hburn : (Bank.burn s.feeAccount (rest coin revenue)).run s w₁ = (.ok (), w₂))
    (hw' : w'.chain =
      { w₂.chain with
        events := w₂.chain.events ++
          [.feeCharged payer (rest coin revenue) beneficiary revenue false] }) :
    w.chain.Explains w'.chain := by
  obtain ⟨-, l, hw₁, -⟩ := payShare_ok hshare
  obtain ⟨n, l', htaken, rfl⟩ := (Bank.burn_ok (rest_ne_zero hcoin hshare)).1 hburn
  obtain rfl := payShare_spares hc hcoin hspares hb hshare htaken
  refine Chain.explains_of_burn l' (rest coin revenue)
    (.feeCharged payer (rest coin revenue) beneficiary revenue false) (fun a => ?_) ?_ ?_
  · simp [Event.burned]
  · rw [hw', hw₁]
    rfl
  · rw [hw', hw₁]

theorem disposed_explains {how how' : Disposition} {w₁ : World} (hc : w.chain.Sparing s)
    (hfee : fee.amount ≠ 0) (hspares : w.chain.ledger.Spares s.feeAccount fee)
    (hdispose : (dispose how s.feeAccount fee).run s w = (.ok how', w₁))
    (hw' : w'.chain =
      { w₁.chain with
        events := w₁.chain.events ++
          [.feeCharged payer fee beneficiary none how'.isCommunityPool] }) :
    w.chain.Explains w'.chain := by
  obtain ⟨rfl, hdone⟩ := dispose_ok hfee hdispose
  cases how' with
  | burned =>
    obtain ⟨n, l, htaken, rfl⟩ := (Bank.burn_ok hfee).1 hdone
    obtain rfl := hspares.burn hc.anchored htaken
    refine Chain.explains_of_burn l fee
      (.feeCharged payer fee beneficiary none false) (fun a => ?_) ?_ ?_
    · simp [Event.burned]
    · rw [hw']
      rfl
    · rw [hw']
      rfl
  | communityPool =>
    obtain ⟨l, -, rfl⟩ := hdone
    refine Chain.explains_of_events [.feeCharged payer fee beneficiary none true]
      (by rw [hw']) (by rw [hw']; rfl) fun e he a => ?_
    rw [List.mem_singleton.1 he]
    simp [Event.burned]

/-- A fee that the fee account can spare is settled as the event tells. -/
theorem settle_explains (hc : w.chain.Sparing s) (hfee : fee.amount ≠ 0)
    (hspares : w.chain.ledger.Spares s.feeAccount fee)
    (hb : ∀ who ∈ beneficiary, who ≠ s.feeAccount)
    (h : (settle fee beneficiary payer).run s w = (.ok (), w')) : w.chain.Explains w'.chain := by
  obtain ⟨r, w₂, hconvert, hr⟩ := settle_ok h
  have houtcome := Conversion.convert_outcome hconvert
  have hc₂ := hc.run (Conversion.moving_convert trivial _ _) hconvert
  refine houtcome.explains.trans ?_
  cases r with
  | converted coin =>
    obtain ⟨revenue, w₃, w₄, hshare, hburn, hw'⟩ := hr
    obtain ⟨-, hcoin, -⟩ := houtcome.coin hfee
    exact shared_explains hc₂ hcoin (houtcome.spares hc hspares) hb hshare hburn hw'
  | unswappable =>
    obtain ⟨how, w₃, hdispose, hw'⟩ := hr
    rw [← houtcome.unswappable.2] at hspares
    exact disposed_explains hc₂ hfee hspares hdispose hw'

/-- A fee is spared once it was collected: it came in beyond what was there, or the fee account paid
it to itself and could keep the minimum. -/
theorem chargeFrom_explains {payer : AccountId} (hc : w.chain.Sparing s) (hfee : fee.amount ≠ 0)
    (hb : ∀ who ∈ beneficiary, who ≠ s.feeAccount)
    (hbears : payer ≠ s.feeAccount → w.chain.ledger.Bears fee)
    (h : (chargeFrom payer fee beneficiary).run s w = (.ok (), w')) :
    w.chain.Explains w'.chain := by
  obtain ⟨l, htransfer, hsettle⟩ := chargeFrom_ok hfee h
  let v : World := w.with { w.chain with ledger := l }
  have hcollected : v.chain.Sparing s := ⟨hc.anchored.transfer htransfer, hc.kept.transfer htransfer⟩
  have hspares : v.chain.ledger.Spares s.feeAccount fee := by
    by_cases hself : payer = s.feeAccount
    · subst hself
      have hsame : v.chain.ledger = w.chain.ledger := Ledger.transfer_self htransfer
      rw [hsame]
      exact .inr (Ledger.transfer_keeps htransfer (by decide))
    · have hgot := Ledger.transfer_dest hself htransfer hc.anchored hfee (hbears hself)
      exact hc.kept.spares hc.anchored hgot.least hgot.holds
  have hmoved : w.chain.Explains v.chain := Chain.explains_of_eq rfl rfl
  exact hmoved.trans (settle_explains hcollected hfee hspares hb hsettle)

end Settlement

namespace Swap

variable {sender : AccountId} {n : Amount}

/-- No collected fee is lost on its way: where it changes hands, the supply bears it. -/
abbrev Arrives (s : Settings) : Handover := fun payer fee _ w =>
  payer ≠ s.feeAccount → w.chain.ledger.Bears fee

theorem explains_of_frame {c c' : Chain} {l : Ledger} {ps : Pools}
    (h : c' = { c with ledger := l, pools := ps }) : c.Explains c' := by
  rw [h]
  exact Chain.explains_of_eq rfl rfl

theorem chargeTakerFee_explains {fee : Coin} {firstHop : HopIn} {beneficiary : Option AccountId}
    (hc : w.chain.Sparing s) (hb : ∀ who ∈ beneficiary, who ≠ s.feeAccount)
    (hmeets : TakerFeeMeets (Arrives s) sender fee firstHop beneficiary s w)
    (h : (chargeTakerFee sender fee firstHop beneficiary).run s w = (.ok (), w')) :
    w.chain.Explains w'.chain := by
  rcases chargeTakerFee_ok h with ⟨-, rfl⟩ | ⟨hfee, got, v, haccepted, hcharge⟩
  · exact .refl _
  have hswapped : w.chain.Explains v.chain := by
    rcases acceptedFee_cases haccepted with ⟨-, -, rfl⟩ | ⟨-, u, m, hu, hswap, -⟩
    · exact .refl _
    · obtain ⟨l, ps, hframe⟩ := Router.swapIn_frame hswap
      exact hu ▸ explains_of_frame hframe
  refine hswapped.trans ?_
  by_cases hgot : got.amount = 0
  · rw [Settlement.chargeFrom_zero hgot] at hcharge
    obtain ⟨-, rfl⟩ := Prod.mk.inj hcharge
    exact .refl _
  · have hc' := hc.run (moving_acceptedFee trivial _ _) haccepted
    exact Settlement.chargeFrom_explains hc' hgot hb (hmeets hfee got v haccepted) hcharge

variable (ho : ∀ a who, s.owners.get? a = some who → who ≠ s.feeAccount)
include ho

theorem swapIn_explains {route : List HopIn} {tokenIn : Coin} {minOut : Amount}
    (hc : w.chain.Sparing s) (hmeets : SwapInMeets (Arrives s) sender route tokenIn s w)
    (h : (swapIn sender route tokenIn minOut).run s w = (.ok n, w')) :
    w.chain.Explains w'.chain := by
  rcases hlast : route.getLast? with _ | last
  · rw [List.getLast?_eq_none_iff.1 hlast] at h
    cases h
  obtain ⟨first, b, w₁, w₂, w₃, hfirst, hben, hfee, hswap, rfl⟩ := swapIn_ok h hlast
  obtain ⟨hw₁, howner⟩ := beneficiary_ok hben
  have hb : ∀ who ∈ b, who ≠ s.feeAccount := fun who hwho =>
    have ⟨a, ha⟩ := howner who hwho
    ho a who ha
  have hcharged := chargeTakerFee_explains (hw₁.symm ▸ hc) hb
    (hmeets first hfirst last hlast b w₁ hben) hfee
  obtain ⟨l, ps, hframe⟩ := Router.swapIn_frame hswap
  rw [hw₁] at hcharged
  refine (hcharged.trans (explains_of_frame hframe)).trans ?_
  exact Chain.explains_of_events [told ..] rfl rfl fun e he a => by
    rw [List.mem_singleton.1 he]
    rfl

theorem swapOut_explains {route : List HopOut} {maxIn : Amount} {tokenOut : Coin}
    (hc : w.chain.Sparing s) (hmeets : SwapOutMeets (Arrives s) sender route maxIn tokenOut s w)
    (h : (swapOut sender route maxIn tokenOut).run s w = (.ok n, w')) :
    w.chain.Explains w'.chain := by
  cases route with
  | nil => cases h
  | cons first rest =>
    obtain ⟨quoted, split, b, w₁, w₂, m, w₃, ⟨ps, hquote⟩, hsplit, hmax, hben, hfee, hswap, -, last,
      rfl⟩ := swapOut_ok h
    obtain ⟨hw₁, howner⟩ := beneficiary_ok hben
    have hb : ∀ who ∈ b, who ≠ s.feeAccount := fun who hwho =>
      have ⟨a, ha⟩ := howner who hwho
      ho a who ha
    have hcharged := chargeTakerFee_explains (hw₁.symm ▸ hc) hb
      (hmeets first rfl _ hquote split hsplit hmax b w₁ hben) hfee
    obtain ⟨l, ps', hframe⟩ := Router.swapOut_frame hswap
    rw [hw₁] at hcharged
    refine (hcharged.trans (explains_of_frame hframe)).trans ?_
    exact Chain.explains_of_events [told ..] rfl rfl fun e he a => by
      rw [List.mem_singleton.1 he]
      rfl

end Swap

namespace Sweep

theorem visit_explains {base a : Asset} (h : (visit base a).run s w = (.ok (), w')) :
    w.chain.Explains w'.chain := by
  unfold visit at h
  rw [run_bind_chain, run_bind_read] at h
  dsimp only at h
  split at h
  · obtain ⟨-, rfl⟩ := Prod.mk.inj h
    exact .refl _
  · obtain ⟨r, v, hr, h⟩ := bind_ok.1 h
    obtain ⟨-, rfl⟩ := Prod.mk.inj h
    exact (Conversion.convert_outcome hr).explains

theorem visitAll_explains {base : Asset} {as : List Asset}
    (h : (visitAll base as).run s w = (.ok (), w')) : w.chain.Explains w'.chain := by
  induction as generalizing w with
  | nil =>
    obtain ⟨-, rfl⟩ := Prod.mk.inj h
    exact .refl _
  | cons a as ih =>
    obtain ⟨⟨⟩, v, ha, h⟩ := bind_ok.1 h
    exact (visit_explains ha).trans (ih h)

theorem burnResidue_explains {base : Asset} (hc : w.chain.Sparing s)
    (h : (burnResidue base).run s w = (.ok (), w')) : w.chain.Explains w'.chain := by
  obtain ⟨residue, rfl, ⟨hw, -⟩ | ⟨-, n, l, hburn, hw⟩⟩ := burnResidue_ok h
  · exact Chain.explains_of_eq (congrArg Chain.burned hw) (congrArg Chain.events hw)
  · have hspares : w.chain.ledger.Spares s.feeAccount ⟨base, w.chain.balance s.feeAccount base⟩ :=
      .inl (w.chain.ledger.toNat_balance s.feeAccount base).symm
    obtain rfl := hspares.burn hc.anchored hburn
    rw [hw]
    exact Chain.explains_of_burn l ⟨base, w.chain.balance s.feeAccount base⟩
      (.residueBurned ⟨base, w.chain.balance s.feeAccount base⟩) (fun a => rfl) rfl rfl

theorem idle_explains {budget used : Weight} (hc : w.chain.Sparing s)
    (h : (idle budget).run s w = (.ok used, w')) : w.chain.Explains w'.chain := by
  obtain ⟨v, moved, burns, hv, hmoved, -, -, h⟩ := idle_ok h
  have hc' := hc.run (moving_visitAll trivial _ _) hv
  have hkept : v.chain.Explains moved.chain := by
    rw [hmoved]
    exact Chain.explains_of_eq rfl rfl
  have hsparing : moved.chain.Sparing s := by
    rw [hmoved]
    exact ⟨hc'.anchored, hc'.kept⟩
  refine (visitAll_explains hv).trans (hkept.trans ?_)
  cases burns with
  | true => exact burnResidue_explains hsparing h
  | false =>
    obtain rfl : w' = moved := h
    exact .refl _

end Sweep

theorem Chain.explains_of_governance {c c' : Chain} (e : Event) (hb : c'.burned = c.burned)
    (he : c'.events = c.events ++ [e]) (hn : ∀ a, e.burned a = 0) : c.Explains c' :=
  explains_of_events [e] hb he fun e' he' a => by
    rw [List.mem_singleton.1 he', hn]

namespace Governance

theorem setFeeToken_explains {t : FeeToken} (h : (setFeeToken t).run s w = (.ok (), w')) :
    w.chain.Explains w'.chain := by
  unfold setFeeToken at h
  rw [run_bind_chain] at h
  split at h
  · cases h
  · rw [run_bind_read] at h
    split at h
    · cases h
    · obtain ⟨-, rfl⟩ := Prod.mk.inj h
      exact Chain.explains_of_governance (.feeTokenSet t) rfl rfl fun a => rfl

theorem removeFeeToken_explains {a : Asset} (h : (removeFeeToken a).run s w = (.ok (), w')) :
    w.chain.Explains w'.chain := by
  unfold removeFeeToken at h
  rw [run_bind_chain] at h
  split at h
  · obtain ⟨-, rfl⟩ := Prod.mk.inj h
    exact Chain.explains_of_governance (.feeTokenRemoved a) rfl rfl fun a => rfl
  · cases h

theorem setTakerFee_explains {rate : Rate} (h : (setTakerFee rate).run s w = (.ok (), w')) :
    w.chain.Explains w'.chain := by
  unfold setTakerFee at h
  split at h
  · obtain ⟨-, rfl⟩ := Prod.mk.inj h
    exact Chain.explains_of_governance (.takerFeeUpdated w.chain.takerFee rate) rfl rfl fun a => rfl
  · cases h

end Governance

theorem Origin.requireRoot_ok {o : Origin} (h : o.requireRoot.run s w = (.ok (), w')) : w' = w := by
  cases o with
  | root => exact (Prod.mk.inj h).2.symm
  | signed who => cases h
  | none => cases h

theorem FeeCall.perform_explains {o : Origin} {c : FeeCall}
    (h : (c.perform o).run s w = (.ok (), w')) : w.chain.Explains w'.chain := by
  obtain ⟨⟨⟩, v, hroot, hdo⟩ := bind_ok.1 h
  rw [← Origin.requireRoot_ok hroot]
  cases c with
  | setBase base =>
    obtain ⟨-, rfl⟩ := Prod.mk.inj hdo
    exact Chain.explains_of_governance
      (.baseUpdated v.chain.base base (Governance.stale v.chain base).length) rfl rfl fun a => rfl
  | setFeeToken t => exact Governance.setFeeToken_explains hdo
  | removeFeeToken a => exact Governance.removeFeeToken_explains hdo

namespace SwapCall

variable (ho : ∀ a who, s.owners.get? a = some who → who ≠ s.feeAccount)
include ho

theorem perform_explains {o : Origin} {c : SwapCall} (hc : w.chain.Sparing s)
    (hmeets : c.Meets (Swap.Arrives s) o s w) (h : (c.perform o).run s w = (.ok (), w')) :
    w.chain.Explains w'.chain := by
  cases c with
  | swapIn route tokenIn minOut =>
    obtain ⟨sender, hsender, n, hswap⟩ := Origin.signed_ok h
    exact Swap.swapIn_explains ho hc (hmeets sender hsender) hswap
  | swapOut route maxIn tokenOut =>
    obtain ⟨sender, hsender, n, hswap⟩ := Origin.signed_ok h
    exact Swap.swapOut_explains ho hc (hmeets sender hsender) hswap
  | setTakerFee rate =>
    obtain ⟨⟨⟩, v, hroot, hset⟩ := bind_ok.1 h
    rw [← Origin.requireRoot_ok hroot]
    exact Governance.setTakerFee_explains hset

end SwapCall

namespace Operation

/-- Whether the runtime itself runs the operation: a call, or the hook of an idle block. -/
def ofRuntime : Operation → Bool
  | call .. => true
  | idle _ => true
  | _ => false

theorem explains (ho : ∀ a who, s.owners.get? a = some who → who ≠ s.feeAccount) {op : Operation}
    (hop : op.ofRuntime = true) (hc : w.chain.Sparing s)
    (hmeets : op.Meets (Swap.Arrives s) s w) :
    w.chain.Explains (op.perform.run s w).2.chain := by
  rcases h : op.perform.run s w with ⟨r, w'⟩
  cases op with
  | call o c =>
    cases r with
    | error e =>
      have hkeep : w'.chain = w.chain := by
        cases c with
        | fees c => exact atomically_error h
        | swaps c => exact atomically_error h
      exact hkeep ▸ .refl _
    | ok =>
      cases c with
      | fees c => exact FeeCall.perform_explains (atomically_ok.1 h)
      | swaps c => exact SwapCall.perform_explains ho hc hmeets (atomically_ok.1 h)
  | idle budget =>
    obtain ⟨used, v, hidle⟩ := Sweep.succeeds_idle (s := s) budget w
    have hrun : (perform (.idle budget)).run s w = (.ok (), v) := bind_ok.2 ⟨used, v, hidle, rfl⟩
    obtain ⟨-, rfl⟩ := Prod.mk.inj (h.symm.trans hrun)
    exact Sweep.idle_explains hc hidle
  | _ => cases hop

end Operation

/-- What the runtime runs for a history explains its counts. -/
theorem World.replay_explains (ho : ∀ a who, s.owners.get? a = some who → who ≠ s.feeAccount)
    {ops : List Operation} (hops : ∀ op ∈ ops, op.ofRuntime = true) :
    ∀ w : World, w.chain.Sparing s → World.Meets (Swap.Arrives s) s w ops →
      w.chain.Explains (World.replay s w ops).chain := by
  induction ops with
  | nil => exact fun w _ _ => .refl _
  | cons op ops ih =>
    intro w hc hmeets
    have hop := hops op List.mem_cons_self
    have hexplains := op.explains ho hop hc hmeets.1
    have hsteps : Steps s True w.chain (op.perform.run s w).2.chain :=
      op.within_perform (fun _ => trivial) w
    have hc' := Steps.keep Step.sparing hsteps hc
    have hrest := hmeets.2
    have ih := ih (fun op h => hops op (List.mem_cons_of_mem _ h)) (op.perform.run s w).2 hc'
    unfold replay
    rcases h : op.perform.run s w with ⟨r, w'⟩
    rw [h] at hexplains hrest ih
    rcases r with (e | f) | ⟨⟩
    · exact hexplains.trans (ih (hrest rfl))
    · exact hexplains
    · exact hexplains.trans (ih (hrest rfl))

/-- From genesis on the burn counters are what the events tell, until they saturate. -/
theorem Genesis.burns_told {g : Genesis} {s : Settings} {c : Chain} (h : g.build s = .ok c)
    (ht : ∀ e ∈ g.tokens, e.2.Kept) (ho : ∀ a who, s.owners.get? a = some who → who ≠ s.feeAccount)
    {ops : List Operation} (hops : ∀ op ∈ ops, op.ofRuntime = true)
    (hmeets : World.Meets (Swap.Arrives s) s ⟨c, []⟩ ops) (a : Asset) :
    ((World.replay s ⟨c, []⟩ ops).chain.totalBurned a).toNat =
      min ((World.replay s ⟨c, []⟩ ops).chain.toldBurned a) (2 ^ (128 : Nat) - 1) := by
  have hc : c.Sparing s :=
    ⟨Reaches.feeAccount_anchored ⟨c, [], h, rfl⟩, Genesis.kept_build h ht⟩
  obtain ⟨n, htold, hcount⟩ := World.replay_explains ho hops ⟨c, []⟩ hc hmeets a
  -- Before the history nothing was counted and nothing told.
  obtain ⟨l₁, l₂, l₃, ps, base, registry, rate, -, -, -, -, rfl⟩ := Genesis.build_ok h
  rw [hcount, htold]
  exact congrArg (min · _) rfl

/-- Token 1 is the base asset and no account keeps less than 100 of it. Account 9 has enough of it
for a sale that is charged 100. -/
def Genesis.scarce (holdings : List (AssetId × AccountId × Amount)) : Genesis :=
  { Genesis.standard with
    defaultBase := .issued 1
    tokens := [(1, { sufficient := true, minBalance := 100 })]
    holdings := (1, 9, 10000) :: (1, 5, 150) :: holdings
    pools := [⟨⟨.issued 1, 20000⟩, ⟨.native, 20000⟩, .sum, .zero⟩] }

/-- Account 9 sells, and an idle block follows. -/
def sale : List Operation :=
  [.call (.signed 9) (.swaps (.swapIn ⟨[⟨1, .native⟩], by decide⟩ ⟨.issued 1, 10000⟩ 0)),
    .idle Weight.top]

/-- The fee is burned, and then what the fee account had at first. -/
theorem Genesis.burns_told_of_scarce :
    ∃ c, (Genesis.scarce []).build Swap.plainSettings = .ok c ∧
      (World.replay Swap.plainSettings ⟨c, []⟩ sale).chain.toldBurned (.issued 1) = 250 ∧
      ((World.replay Swap.plainSettings ⟨c, []⟩ sale).chain.totalBurned (.issued 1)).toNat = 250 := by
  obtain ⟨c, hc, hmeets, htold⟩ : ∃ c, (Genesis.scarce []).build Swap.plainSettings = .ok c ∧
      World.Meets (Swap.Arrives Swap.plainSettings) Swap.plainSettings ⟨c, []⟩ sale ∧
      (World.replay Swap.plainSettings ⟨c, []⟩ sale).chain.toldBurned (.issued 1) = 250 :=
    ⟨_, rfl, by decide +kernel, by decide +kernel⟩
  have hkept : ∀ e ∈ (Genesis.scarce []).tokens, e.2.Kept := fun e he => by
    rw [List.mem_singleton.1 he]
    exact nofun
  have h := @burns_told _ Swap.plainSettings c hc hkept nofun sale (by decide) hmeets
    (.issued 1)
  rw [htold] at h
  exact ⟨c, hc, htold, h⟩

/-- Where the supply cannot bear the fee on its way, the fee is burned out of what was there before,
and the rest of that, too little to be kept, is counted with it. -/
theorem Genesis.burns_more_than_told :
    let g := Genesis.scarce [(1, 7, Word.top.subSat 10150)]
    ∃ c, g.build Swap.plainSettings = .ok c ∧ (∀ op ∈ sale, op.ofRuntime = true) ∧
      (∀ a, Swap.plainSettings.owners.get? a = none) ∧
      (World.replay Swap.plainSettings ⟨c, []⟩ sale).chain.toldBurned (.issued 1) = 100 ∧
      ((World.replay Swap.plainSettings ⟨c, []⟩ sale).chain.totalBurned (.issued 1)).toNat = 150 :=
  ⟨_, rfl, by decide, fun _ => rfl, by decide +kernel, by decide +kernel⟩

end SwapFees
