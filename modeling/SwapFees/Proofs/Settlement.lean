import SwapFees.Proofs.Sender
import SwapFees.Proofs.Value

namespace SwapFees

namespace Ledger

variable {l l' l₁ l₂ : Ledger} {who : AccountId} {coin : Coin} {n m : Amount}

/-- The supply of a coin bears minting it once more. -/
def Bears (l : Ledger) (c : Coin) : Prop :=
  ∀ id ∈ c.asset.id?, (l.supply id).toNat + c.amount.toNat < 2 ^ (128 : Nat)

instance (l : Ledger) (c : Coin) : Decidable (l.Bears c) :=
  inferInstanceAs (Decidable (∀ id ∈ c.asset.id?, _))

theorem Credited.disburse {rest : Amount} (h : l.Credited who coin.asset.id? coin.amount.toNat l₁)
    (hpaid : l₁.Charged who coin.asset.id? n.toNat l₂)
    (hburn : l₂.burn who (coin.withAmount rest) = .ok (m, l')) (hrest : rest ≠ 0)
    (hsum : n.toNat + rest.toNat = coin.amount.toNat)
    (hkept : l.holds who coin.asset.id? = 0 ∨
      l.least coin.asset.id? ≤ l.holds who coin.asset.id?) :
    l.Credited who coin.asset.id? 0 l' ∧ m = rest := by
  obtain ⟨ho, hpays⟩ := burn_effect hburn
  obtain ⟨hpays, hexact⟩ := hpays hpaid.anchored
  have hcharged := hpaid.trans (ho.charged hpaid.anchored hpays)
  have htotal : n.toNat + (coin.withAmount rest).amount.toNat = coin.amount.toNat := hsum
  have hcoin : (coin.withAmount rest).asset = coin.asset := rfl
  rw [htotal] at hcharged
  refine ⟨h.spend hcharged hkept, hexact ?_⟩
  -- What is left for the burn is what came in beyond what was there, and that may be kept.
  have hheld := h.holds
  have hleast₁ := h.least coin.asset.id?
  have hleast₂ := hpaid.least coin.asset.id?
  have hle : rest.toNat ≤ l₂.holds who coin.asset.id? := hpays.1
  have hpos : rest.toNat ≠ 0 := fun e => hrest (Word.toNat_eq_zero.1 e)
  have hpart := hpaid.pays
  unfold Pays at hpart
  rw [hcoin]
  change _ = rest.toNat ∨ rest.toNat + _ ≤ _
  omega

end Ledger

open Effect

def Event.isConversion : Event → Bool
  | feeTokenSwapped .. => true
  | _ => false

def Event.isFeeCharge : Event → Bool
  | feeCharged .. => true
  | _ => false

/-- A conversion concerns the fee account alone, counts nothing as burned and announces only itself.
-/
theorem Conversion.Outcome.frame {s : Settings} {base : Asset} {fee : Coin} {c c' : Chain}
    {r : Conversion} (h : Outcome s base fee c r c') :
    (∀ q, q ≠ s.feeAccount → Ledger.SameFor q c.ledger c'.ledger) ∧ c'.burned = c.burned ∧
      ∃ es, (∀ e ∈ es, e.isConversion = true) ∧
        c'.events = c.events ++ es := by
  cases h with
  | kept hbase => exact ⟨fun q _ => .refl q _, rfl, [], nofun, (List.append_nil _).symm⟩
  | refused hbase => exact ⟨fun q _ => .refl q _, rfl, [], nofun, (List.append_nil _).symm⟩
  | exchanged hbase hs ht hasset hout hcarry hx hes =>
    exact ⟨fun q hq => Ledger.exchanges_others hx hq, rfl, _, fun e he => hes e he ▸ rfl, rfl⟩

theorem Conversion.Outcome.coin {s : Settings} {base : Asset} {fee coin : Coin} {c c' : Chain}
    (h : Outcome s base fee c (.converted coin) c') (hfee : fee.amount ≠ 0) :
    coin.asset = base ∧ coin.amount ≠ 0 ∧ (fee.asset = base → coin = fee ∧ c' = c) := by
  cases h with
  | kept hbase => exact ⟨hbase, hfee, fun _ => ⟨rfl, rfl⟩⟩
  | exchanged hbase hs ht hasset hout hcarry hx hes =>
    exact ⟨hasset, hout, fun e => absurd e hbase⟩

theorem Conversion.Outcome.unswappable {s : Settings} {base : Asset} {fee : Coin} {c c' : Chain}
    (h : Outcome s base fee c .unswappable c') : fee.asset ≠ base ∧ c' = c := by
  cases h with
  | refused hbase => exact ⟨hbase, rfl⟩

theorem Conversion.Outcome.credited {s : Settings} {base : Asset} {fee : Coin} {c c' : Chain}
    {l : Ledger} {coin : Coin} (h : Outcome s base fee c (.converted coin) c')
    (hfee : l.Credited s.feeAccount fee.asset.id? fee.amount.toNat c.ledger)
    (hkept : l.holds s.feeAccount fee.asset.id? = 0 ∨
      l.least fee.asset.id? ≤ l.holds s.feeAccount fee.asset.id?) :
    l.Credited s.feeAccount coin.asset.id? coin.amount.toNat c'.ledger := by
  cases h with
  | kept hbase => exact hfee
  | exchanged hbase hs ht hasset hout hcarry hx hes =>
    obtain ⟨l₁, hpaid, hgot⟩ := Ledger.exchanges_effect hx hfee.anchored
    exact (hfee.spend hpaid hkept).after hgot

namespace Disposition

/-- How much of a fee each disposition burns. -/
def burns (n : Amount) : Disposition → Amount
  | communityPool => 0
  | burned => n

/-- How much of a fee each disposition pays to the community pool. -/
def pays (n : Amount) : Disposition → Amount
  | communityPool => n
  | burned => 0

end Disposition

namespace Settlement

variable {s : Settings} {w w' : World}

theorem dispose_ok {how how' : Disposition} {source : AccountId} {fee : Coin} (hfee : fee.amount ≠ 0)
    (h : (dispose how source fee).run s w = (.ok how', w')) :
    how' = how ∧
      match how with
      | .burned => (Bank.burn source fee).run s w = (.ok (), w')
      | .communityPool => ∃ l,
        w.chain.ledger.transfer source s.communityPool fee .expendable = .ok l ∧
          w' = w.with { w.chain with ledger := l } := by
  cases how with
  | burned =>
    obtain ⟨⟨⟩, v, hburn, h⟩ := bind_ok.1 h
    obtain ⟨hhow, rfl⟩ := Prod.mk.inj h
    exact ⟨(Except.ok.inj hhow).symm, hburn⟩
  | communityPool =>
    rw [dispose, run_bind_read] at h
    split at h
    · cases h
    · obtain ⟨⟨⟩, v, ht, h⟩ := bind_ok.1 h
      obtain ⟨hhow, rfl⟩ := Prod.mk.inj h
      exact ⟨(Except.ok.inj hhow).symm, (Bank.transfer_ok hfee).1 ht⟩

theorem dispose_frame {how how' : Disposition} {source : AccountId} {fee : Coin}
    (hfee : fee.amount ≠ 0) (h : (dispose how source fee).run s w = (.ok how', w')) :
    ∃ l burned, w'.chain = { w.chain with ledger := l, burned } := by
  obtain ⟨-, hdone⟩ := dispose_ok hfee h
  cases how with
  | burned => exact Bank.burn_frame hdone
  | communityPool =>
    obtain ⟨l, -, rfl⟩ := hdone
    exact ⟨l, _, rfl⟩

/-- What the beneficiary gets of a converted fee: half, unless it cannot receive that. -/
def share (l : Ledger) (beneficiary : Option AccountId) (c : Coin) : Amount :=
  match beneficiary with
  | none => 0
  | some who => if l.canReceive who (c.withAmount c.amount.half) then c.amount.half else 0

theorem share_le (l : Ledger) (beneficiary : Option AccountId) (c : Coin) :
    (share l beneficiary c).toNat ≤ c.amount.toNat / 2 := by
  unfold share
  split
  · exact Nat.zero_le _
  · split
    · exact Nat.le_refl _
    · exact Nat.zero_le _

theorem share_ne_zero {l : Ledger} {who : AccountId} {coin : Coin}
    (h : share l (some who) coin ≠ 0) :
    share l (some who) coin = coin.amount.half ∧
      l.canReceive who (coin.withAmount coin.amount.half) = true := by
  unfold share at h ⊢
  dsimp only at h ⊢
  split at h
  · rename_i hcan
    exact ⟨if_pos hcan, hcan⟩
  · exact absurd rfl h

theorem payShare_ok {beneficiary : Option AccountId} {c : Coin} {revenue : Option Coin}
    (h : (payShare beneficiary c).run s w = (.ok revenue, w')) :
    let n := share w.chain.ledger beneficiary c
    revenue = (if n = 0 then none else some (c.withAmount n)) ∧ ∃ l,
      w'.chain = { w.chain with ledger := l } ∧
      if n = 0 then l = w.chain.ledger
      else ∃ who ∈ beneficiary,
        w.chain.ledger.transfer s.feeAccount who (c.withAmount n) .expendable = .ok l := by
  intro n
  cases beneficiary with
  | none =>
    obtain ⟨hr, rfl⟩ := Prod.mk.inj h
    exact ⟨(Except.ok.inj hr).symm, _, rfl, rfl⟩
  | some who =>
    have hn : n = if w.chain.ledger.canReceive who (c.withAmount c.amount.half) then c.amount.half
      else 0 := rfl
    unfold payShare at h
    dsimp only at h
    split at h
    · rename_i hz
      obtain ⟨hr, rfl⟩ := Prod.mk.inj h
      have hz : c.amount.half = 0 := of_decide_eq_true hz
      rw [hz, ite_self] at hn
      refine ⟨?_, _, rfl, by rw [if_pos hn]⟩
      rw [if_pos hn]
      exact (Except.ok.inj hr).symm
    · rename_i hz
      rw [run_bind_chain] at h
      split at h
      · rename_i hcan
        rw [if_pos hcan] at hn
        have hne : n ≠ 0 := hn ▸ Coin.amount_ne_zero hz
        rw [run_bind_read] at h
        obtain ⟨⟨⟩, v, ht, h⟩ := bind_ok.1 h
        obtain ⟨hr, rfl⟩ := Prod.mk.inj h
        obtain ⟨l, htransfer, rfl⟩ := (Bank.transfer_ok (Coin.amount_ne_zero hz)).1 ht
        refine ⟨?_, l, rfl, ?_⟩
        · rw [if_neg hne, hn]
          exact (Except.ok.inj hr).symm
        · rw [if_neg hne, hn]
          exact ⟨who, rfl, htransfer⟩
      · rename_i hcan
        rw [if_neg hcan] at hn
        rw [run_bind_report] at h
        obtain ⟨hr, rfl⟩ := Prod.mk.inj h
        refine ⟨?_, _, rfl, by rw [if_pos hn]⟩
        rw [if_pos hn]
        exact (Except.ok.inj hr).symm

/-- A settlement converts the fee, and shares out and burns or disposes of what it gets. -/
theorem settle_ok {fee : Coin} {beneficiary payer : Option AccountId}
    (h : (settle fee beneficiary payer).run s w = (.ok (), w')) :
    ∃ r w₂, (Conversion.convert w.chain.base fee).run s w = (.ok r, w₂) ∧
      match r with
      | .unswappable => ∃ how w₃, (dispose s.policy s.feeAccount fee).run s w₂ = (.ok how, w₃) ∧
        w'.chain =
          { w₃.chain with
            events := w₃.chain.events ++
              [.feeCharged payer fee beneficiary none how.isCommunityPool] }
      | .converted c => ∃ revenue w₃ w₄,
        (payShare beneficiary c).run s w₂ = (.ok revenue, w₃) ∧
        (Bank.burn s.feeAccount (rest c revenue)).run s w₃ = (.ok (), w₄) ∧
        w'.chain =
          { w₄.chain with
            events := w₄.chain.events ++
              [.feeCharged payer (rest c revenue) beneficiary revenue false] } := by
  unfold settle at h
  rw [run_bind_read, run_bind_chain] at h
  obtain ⟨r, w₂, hconvert, h⟩ := bind_ok.1 h
  refine ⟨r, w₂, hconvert, ?_⟩
  cases r with
  | unswappable =>
    obtain ⟨how, w₃, hdispose, h⟩ := bind_ok.1 h
    obtain ⟨-, rfl⟩ := Prod.mk.inj h
    exact ⟨how, w₃, hdispose, rfl⟩
  | converted c =>
    obtain ⟨revenue, w₃, hshare, h⟩ := bind_ok.1 h
    obtain ⟨⟨⟩, w₄, hburn, h⟩ := bind_ok.1 h
    obtain ⟨-, rfl⟩ := Prod.mk.inj h
    cases revenue with
    | none => exact ⟨none, w₃, w₄, hshare, hburn, rfl⟩
    | some share => exact ⟨some share, w₃, w₄, hshare, hburn, rfl⟩

theorem settle_frame {fee : Coin} {beneficiary payer : Option AccountId} (hfee : fee.amount ≠ 0)
    (h : (settle fee beneficiary payer).run s w = (.ok (), w')) :
    ∃ r w₂ told l burned, (Conversion.convert w.chain.base fee).run s w = (.ok r, w₂) ∧
      Event.isFeeCharge told = true ∧
      w'.chain =
        { w₂.chain with ledger := l, burned, events := w₂.chain.events ++ [told] } := by
  obtain ⟨r, w₂, hconvert, hr⟩ := settle_ok h
  cases r with
  | unswappable =>
    obtain ⟨how, w₃, hdispose, hw'⟩ := hr
    obtain ⟨l, burned, hw₃⟩ := dispose_frame hfee hdispose
    rw [hw₃] at hw'
    exact ⟨_, w₂, _, l, burned, hconvert, rfl, hw'⟩
  | converted c =>
    obtain ⟨revenue, w₃, w₄, hshare, hburn, hw'⟩ := hr
    obtain ⟨-, l, hw₃, -⟩ := payShare_ok hshare
    obtain ⟨l', burned, hw₄⟩ := Bank.burn_frame hburn
    rw [hw₄, hw₃] at hw'
    exact ⟨_, w₂, _, l', burned, hconvert, rfl, hw'⟩

/-- What every settlement of a fee does: the payer loses the fee and nothing else, the fee account
has what it had, `burned` is counted and `told` announced, after at most the conversion. -/
structure Settled (s : Settings) (payer : AccountId) (fee burned : Coin) (told : Event)
    (c c' : Chain) : Prop where
  paid : c'.ledger.holds payer fee.asset.id? + fee.amount.toNat = c.ledger.holds payer fee.asset.id?
  kept : ∀ j, j ≠ fee.asset.id? → c'.ledger.holds payer j = c.ledger.holds payer j
  residue : ∀ j, c'.ledger.holds s.feeAccount j = c.ledger.holds s.feeAccount j
  counted : ∀ a, c'.totalBurned a =
    if a = burned.asset then (c.totalBurned burned.asset).addSat burned.amount
    else c.totalBurned a
  announced : ∃ es, (∀ e ∈ es, e.isConversion = true) ∧
    c'.events = c.events ++ es ++ [told]

variable {payer : AccountId} {fee : Coin} {beneficiary : Option AccountId}

theorem rest_paid (coin : Coin) (n : Amount) :
    rest coin (if n = 0 then none else some (coin.withAmount n)) =
      coin.withAmount (coin.amount.subSat n) := by
  by_cases hn : n = 0
  · have hall : coin.amount.subSat 0 = coin.amount := Word.ext (by simp)
    rw [if_pos hn, hn, hall]
    rfl
  · rw [if_neg hn]
    rfl

theorem shared_effect {coin : Coin} {revenue : Option Coin} {l : Ledger}
    {w₂ w₃ w₄ : World} (hcoin : coin.amount ≠ 0)
    (h : l.Credited s.feeAccount coin.asset.id? coin.amount.toNat w₂.chain.ledger)
    (hkept : l.holds s.feeAccount coin.asset.id? = 0 ∨
      l.least coin.asset.id? ≤ l.holds s.feeAccount coin.asset.id?)
    (hb : ∀ who ∈ beneficiary, who ≠ s.feeAccount)
    (hshare : (payShare beneficiary coin).run s w₂ = (.ok revenue, w₃))
    (hburn : (Bank.burn s.feeAccount (rest coin revenue)).run s w₃ = (.ok (), w₄)) :
    let n := share w₂.chain.ledger beneficiary coin
    revenue = (if n = 0 then none else some (coin.withAmount n)) ∧
      l.Credited s.feeAccount coin.asset.id? 0 w₄.chain.ledger ∧
      (∀ q, q ≠ s.feeAccount → q ∉ beneficiary →
        Ledger.SameFor q w₂.chain.ledger w₄.chain.ledger) ∧
      (∀ who ∈ beneficiary, w₂.chain.ledger.Anchored who →
        w₂.chain.ledger.Bears (coin.withAmount n) →
        w₂.chain.ledger.Credited who coin.asset.id? n.toNat w₄.chain.ledger) ∧
      w₄.chain = w₂.chain.countBurned w₄.chain.ledger coin.asset (coin.amount.subSat n) := by
  intro n
  obtain ⟨hrevenue, l₃, hw₃, hpay⟩ := payShare_ok hshare
  have hhalf := share_le w₂.chain.ledger beneficiary coin
  have hpos : coin.amount.toNat ≠ 0 := fun e => hcoin (Word.toNat_eq_zero.1 e)
  have hn : n.toNat ≤ coin.amount.toNat / 2 := hhalf
  have hsum : n.toNat + (coin.amount.subSat n).toNat = coin.amount.toNat := by
    rw [Word.toNat_subSat]
    omega
  have hrest : coin.amount.subSat n ≠ 0 := by
    intro e
    have := Word.toNat_eq_zero.2 e
    omega
  -- The share goes out, if there is one.
  have hpaid : w₂.chain.ledger.Charged s.feeAccount coin.asset.id? n.toNat l₃ ∧
      (∀ q, q ≠ s.feeAccount → q ∉ beneficiary → Ledger.SameFor q w₂.chain.ledger l₃) ∧
      ∀ who ∈ beneficiary, w₂.chain.ledger.Anchored who →
        w₂.chain.ledger.Bears (coin.withAmount n) →
        w₂.chain.ledger.Credited who coin.asset.id? n.toNat l₃ := by
    by_cases hz : n = 0
    · rw [if_pos hz] at hpay
      rw [hpay, hz, Word.toNat_zero]
      exact ⟨.zero h.anchored _, fun q _ _ => .refl q _, fun who _ ha _ => .zero ha _⟩
    · rw [if_neg hz] at hpay
      obtain ⟨who, hwho, htransfer⟩ := hpay
      have hne := (hb who hwho).symm
      refine ⟨(Ledger.transfer_source hne htransfer h.anchored).1, fun q hq hnot => ?_,
        fun q hq ha hbears => ?_⟩
      · exact Ledger.transfer_others htransfer hq fun e => hnot (e ▸ hwho)
      · obtain rfl := Option.some.inj (hq.symm.trans hwho)
        exact Ledger.transfer_dest hne htransfer ha hz hbears
  obtain ⟨hcharged, hothers, hgain⟩ := hpaid
  rw [hrevenue, rest_paid] at hburn
  obtain ⟨m, l₄, htaken, rfl⟩ := (Bank.burn_ok hrest).1 hburn
  rw [hw₃] at htaken ⊢
  obtain ⟨hzero, hm⟩ := h.disburse hcharged htaken hrest hsum hkept
  have hrest₄ := (Ledger.burn_effect htaken).1.others
  refine ⟨hrevenue, hzero, fun q hq hnot => (hothers q hq hnot).trans (hrest₄ q hq),
    fun who hwho ha hbears => ?_, ?_⟩
  · exact (hgain who hwho ha hbears).sameFor (hrest₄ who (hb who hwho))
  · rw [hm]
    rfl

theorem disposed_effect {how how' : Disposition} {l : Ledger} {w₂ w₃ : World} (hfee : fee.amount ≠ 0)
    (h : l.Credited s.feeAccount fee.asset.id? fee.amount.toNat w₂.chain.ledger)
    (hkept : l.holds s.feeAccount fee.asset.id? = 0 ∨
      l.least fee.asset.id? ≤ l.holds s.feeAccount fee.asset.id?)
    (hp : s.communityPool ≠ s.feeAccount) (ha : w₂.chain.ledger.Anchored s.communityPool)
    (hbears : w₂.chain.ledger.Bears fee)
    (hdispose : (dispose how s.feeAccount fee).run s w₂ = (.ok how', w₃)) :
    how' = how ∧ l.Credited s.feeAccount fee.asset.id? 0 w₃.chain.ledger ∧
      (∀ q, q ≠ s.feeAccount → q ≠ s.communityPool →
        Ledger.SameFor q w₂.chain.ledger w₃.chain.ledger) ∧
      w₂.chain.ledger.Credited s.communityPool fee.asset.id? (how.pays fee.amount).toNat
        w₃.chain.ledger ∧
      (∀ a, w₃.chain.totalBurned a =
        if a = fee.asset then (w₂.chain.totalBurned fee.asset).addSat (how.burns fee.amount)
        else w₂.chain.totalBurned a) ∧
      w₃.chain.events = w₂.chain.events := by
  obtain ⟨rfl, hdone⟩ := dispose_ok hfee hdispose
  refine ⟨rfl, ?_⟩
  cases how' with
  | burned =>
    obtain ⟨m, l₃, hburn, rfl⟩ := (Bank.burn_ok hfee).1 hdone
    have hzero : (0 : Amount).toNat + fee.amount.toNat = fee.amount.toNat := by simp
    obtain ⟨hnone, hm⟩ := h.disburse (Word.toNat_zero ▸ .zero h.anchored _) hburn hfee hzero hkept
    have hothers := (Ledger.burn_effect hburn).1.others
    refine ⟨hnone, fun q hq _ => hothers q hq, ?_, fun a => ?_, rfl⟩
    · rw [Disposition.pays, Word.toNat_zero]
      exact (Ledger.Credited.zero ha _).sameFor (hothers _ hp)
    · rw [hm]
      exact Chain.totalBurned_countBurned a
  | communityPool =>
    obtain ⟨l₃, htransfer, rfl⟩ := hdone
    refine ⟨?_, fun q hq hq' => Ledger.transfer_others htransfer hq hq', ?_, fun a => ?_, rfl⟩
    · exact h.spend (Ledger.transfer_source hp.symm htransfer h.anchored).1 hkept
    · exact Ledger.transfer_dest hp.symm htransfer ha hfee hbears
    · have hzero : (w₂.chain.totalBurned fee.asset).addSat 0 = w₂.chain.totalBurned fee.asset :=
        Word.saturate_toNat _
      rw [Disposition.burns, hzero]
      split
      · rename_i e
        rw [e]
        rfl
      · rfl

/-- What a collected fee was converted to concerns neither counters nor anyone but the payer and the
fee account. -/
structure Collected (s : Settings) (payer : AccountId) (c c₂ : Chain) : Prop where
  bystander : ∀ q, q ≠ payer → q ≠ s.feeAccount → Ledger.SameFor q c.ledger c₂.ledger
  counted : ∀ a, c₂.totalBurned a = c.totalBurned a
  announced : ∃ es, (∀ e ∈ es, e.isConversion = true) ∧
    c₂.events = c.events ++ es

theorem collected_of_outcome {c : Chain} {l : Ledger} {r : Conversion}
    (ht : c.ledger.transfer payer s.feeAccount fee .preserve = .ok l) {c₂ : Chain}
    (h : Conversion.Outcome s c.base fee { c with ledger := l } r c₂) : Collected s payer c c₂ := by
  obtain ⟨hsame, hburned, es, hes, hevents⟩ := h.frame
  refine ⟨fun q hq hq' => ?_, fun a => ?_, es, hes, hevents⟩
  · exact (Ledger.transfer_others ht hq hq').trans (hsame q hq')
  · exact congrArg (fun m => (m.get? a).getD 0) hburned

/-- A collected fee is settled once it is gone from the fee account, counted and announced. -/
theorem Collected.settled {c c₂ c₃ c' : Chain} {burned : Coin} {told : Event}
    (h : Collected s payer c c₂)
    (hcharged : c.ledger.Charged payer fee.asset.id? fee.amount.toNat c'.ledger)
    (hpaid : c'.ledger.holds payer fee.asset.id? + fee.amount.toNat =
      c.ledger.holds payer fee.asset.id?)
    {i : Option AssetId} (hnone : c.ledger.Credited s.feeAccount i 0 c₃.ledger)
    (hcount : ∀ a, c₃.totalBurned a =
      if a = burned.asset then (c₂.totalBurned burned.asset).addSat burned.amount
      else c₂.totalBurned a)
    (hevents : c₃.events = c₂.events)
    (htold : c' = { c₃ with events := c₃.events ++ [told] }) :
    Settled s payer fee burned told c c' := by
  obtain ⟨es, hes, hpast⟩ := h.announced
  have hledger : c'.ledger = c₃.ledger := by rw [htold]
  refine ⟨hpaid, hcharged.rest, fun j => ?_, fun a => ?_, es, hes, ?_⟩
  · rw [hledger]
    exact hnone.same j
  · have hsame : c'.totalBurned a = c₃.totalBurned a := by
      rw [htold]
      rfl
    rw [hsame, hcount, h.counted, h.counted]
  · rw [htold]
    exact congrArg (· ++ [told]) (hevents.trans hpast)

theorem bears_share {l : Ledger} {coin : Coin} (h : l.Bears coin) (beneficiary : Option AccountId)
    (l' : Ledger) : l.Bears (coin.withAmount (share l' beneficiary coin)) := by
  intro id hid
  have hshare := share_le l' beneficiary coin
  have hcoin := h id hid
  change _ + (share l' beneficiary coin).toNat < _
  omega

/-- A fee charged to a payer is either converted, half of it going to a beneficiary that can receive
it and the rest being burned, or disposed of whole as the policy has it. Either way the payer loses
exactly the fee and the fee account keeps exactly what it had. The accounts concerned must be
anchored, and the supply must bear what is paid out of it. -/
theorem chargeFrom_settled (hfee : fee.amount ≠ 0)
    (h : (chargeFrom payer fee beneficiary).run s w = (.ok (), w'))
    (hf : payer ≠ s.feeAccount) (hp : payer ≠ s.communityPool)
    (hpool : s.communityPool ≠ s.feeAccount)
    (hb : ∀ who ∈ beneficiary, who ≠ payer ∧ who ≠ s.feeAccount ∧ who ≠ s.communityPool)
    (ha : ∀ who ∈ [payer, s.feeAccount, s.communityPool], w.chain.ledger.Anchored who)
    (ha' : ∀ who ∈ beneficiary, w.chain.ledger.Anchored who)
    (hkept : ∀ j, w.chain.ledger.holds s.feeAccount j = 0 ∨
      w.chain.ledger.least j ≤ w.chain.ledger.holds s.feeAccount j)
    (hbears : w.chain.ledger.Bears fee) :
    ∃ r w₁ w₂, (Bank.transfer payer s.feeAccount fee .preserve).run s w = (.ok (), w₁) ∧
      (Conversion.convert w.chain.base fee).run s w₁ = (.ok r, w₂) ∧
      match r with
      | .converted coin => ∃ n burned, n = share w₂.chain.ledger beneficiary coin ∧
        burned = coin.withAmount (coin.amount.subSat n) ∧
        coin.asset = w.chain.base ∧ coin.amount ≠ 0 ∧ (fee.asset = w.chain.base → coin = fee) ∧
          Settled s payer fee burned
            (.feeCharged (some payer) burned beneficiary
              (if n = 0 then none else some (coin.withAmount n)) false) w.chain w'.chain ∧
          Ledger.SameFor s.communityPool w.chain.ledger w'.chain.ledger ∧
          ∀ who ∈ beneficiary,
            fee.asset = w.chain.base ∨ w₂.chain.ledger.Bears (coin.withAmount n) →
            w.chain.ledger.Credited who coin.asset.id? n.toNat w'.chain.ledger
      | .unswappable =>
        fee.asset ≠ w.chain.base ∧
          Settled s payer fee (fee.withAmount (s.policy.burns fee.amount))
            (.feeCharged (some payer) fee beneficiary none s.policy.isCommunityPool)
            w.chain w'.chain ∧
          w.chain.ledger.Credited s.communityPool fee.asset.id? (s.policy.pays fee.amount).toNat
            w'.chain.ledger ∧
          ∀ who ∈ beneficiary, Ledger.SameFor who w.chain.ledger w'.chain.ledger := by
  have hnot : beneficiary ≠ some payer := fun e => (hb payer e).1 rfl
  obtain ⟨hcharged, hpaid⟩ := chargeFrom_payer h (ha payer (by simp)) hf hp hnot
  obtain ⟨l, htransfer, hsettle⟩ := chargeFrom_ok hfee h
  have hF := Ledger.transfer_dest hf htransfer (ha s.feeAccount (by simp)) hfee hbears
  have hbearsFee : l.Bears fee := fun id hid =>
    Nat.lt_of_le_of_lt (Nat.le_of_eq (congrArg (· + _) (Ledger.transfer_supply htransfer id)))
      (hbears id hid)
  obtain ⟨r, w₂, hconvert, hr⟩ := settle_ok hsettle
  have houtcome := Conversion.convert_outcome hconvert
  have hcollected := collected_of_outcome htransfer houtcome
  have hpoolSame := hcollected.bystander _ hp.symm hpool
  refine ⟨r, _, w₂, (Bank.transfer_ok hfee).2 ⟨l, htransfer, rfl⟩, hconvert, ?_⟩
  cases r with
  | converted coin =>
    obtain ⟨revenue, w₃, w₄, hshare, hburn, hw'⟩ := hr
    obtain ⟨hasset, hcoin, hbase⟩ := houtcome.coin hfee
    obtain ⟨hrevenue, hnone, hrest, hgain, hw₄⟩ := shared_effect hcoin
      (houtcome.credited hF (hkept _)) (hkept _) (fun who hwho => (hb who hwho).2.1) hshare hburn
    have hledger : w'.chain.ledger = w₄.chain.ledger := by rw [hw']
    rw [hrevenue, rest_paid] at hw'
    refine ⟨_, _, rfl, rfl, hasset, hcoin, fun e => (hbase e).1, ?_, ?_, fun who hwho hroom => ?_⟩
    · refine hcollected.settled hcharged hpaid hnone (fun a => ?_) ?_ hw'
      · rw [hw₄]
        exact Chain.totalBurned_countBurned a
      · rw [hw₄]
        rfl
    · rw [hledger]
      exact hpoolSame.trans (hrest _ hpool fun e => (hb _ e).2.2 rfl)
    · obtain ⟨hne, hne', -⟩ := hb who hwho
      have hsame := hcollected.bystander who hne hne'
      have hbears₂ :
          w₂.chain.ledger.Bears (coin.withAmount (share w₂.chain.ledger beneficiary coin)) := by
        rcases hroom with e | hroom
        · obtain ⟨rfl, hw₂⟩ := hbase e
          exact bears_share (hw₂ ▸ hbearsFee) _ _
        · exact hroom
      rw [hledger]
      exact ((Ledger.Credited.zero (ha' who hwho) none).sameFor hsame).after
        (hgain who hwho (hsame.anchored (ha' who hwho)) hbears₂)
  | unswappable =>
    obtain ⟨how, w₃, hdispose, hw'⟩ := hr
    obtain ⟨hbase, hw₂⟩ := houtcome.unswappable
    have hpoolAnchored := ha s.communityPool (by simp)
    obtain ⟨rfl, hnone, hrest, hgain, hcounted, hevents⟩ := disposed_effect hfee (hw₂ ▸ hF) (hkept _)
      hpool (hpoolSame.anchored hpoolAnchored) (hw₂ ▸ hbearsFee) hdispose
    have hledger : w'.chain.ledger = w₃.chain.ledger := by rw [hw']
    refine ⟨hbase, hcollected.settled hcharged hpaid hnone hcounted hevents hw', ?_, ?_⟩
    · rw [hledger]
      exact ((Ledger.Credited.zero hpoolAnchored none).sameFor hpoolSame).after hgain
    · intro who hwho
      obtain ⟨hne, hne', hne''⟩ := hb who hwho
      rw [hledger]
      exact (hcollected.bystander who hne hne').trans (hrest who hne' hne'')

/-- Account 9 pays fees and account 3 is rewarded; fees in native currency are converted to token 1.
-/
def town (minBalance : Amount) (accounts : List (AccountId × Account)) (supply : Amount)
    (holdings : List (AccountId × Amount)) (base : Asset) : World where
  chain :=
    { ledger :=
        { minBalance, issuance := 1000, accounts := .ofList accounts
          tokens := .ofList [(1,
            { sufficient := true, minBalance := 1, supply, holdings := .ofList holdings })] }
      pools := .ofList [(1, ⟨⟨.native, 1000⟩, ⟨.issued 1, 1000⟩, .sum, .zero⟩)]
      base, registry := Registry.empty.insert ⟨.native, 1⟩, burned := ∅, cursor := none
      takerFee := .zero, events := [] }
  log := []

theorem chargeFrom_settled_in_town :
    let w := town 1 [(9, { providers := 1, free := 1000 }), (3, { sufficients := 1 })] 10 [(3, 10)]
      (.issued 1)
    let charged := (chargeFrom 9 ⟨.native, 100⟩ (some 3)).run Swap.plainSettings w
    charged.1 = .ok () ∧ charged.2.chain.balance 3 (.issued 1) = 60 ∧
      ∃ burned told, Settled Swap.plainSettings 9 ⟨.native, 100⟩ burned told w.chain
        charged.2.chain := by
  intro w charged
  have hok : charged.1 = .ok () := by decide +kernel
  have hrun : charged = (.ok (), charged.2) := by rw [← hok]
  refine ⟨hok, by decide +kernel, ?_⟩
  obtain ⟨r, w₁, w₂, -, -, h⟩ := @chargeFrom_settled Swap.plainSettings w charged.2 9 ⟨.native, 100⟩
    (some 3) (by decide) hrun (by decide) (by decide) (by decide) (by decide)
    (by decide) (by decide) (Ledger.kept_of_entries (by decide) (by decide) _) (by decide)
  cases r with
  | converted coin =>
    obtain ⟨n, burned, -, -, -, -, -, hsettled, -⟩ := h
    exact ⟨_, _, hsettled⟩
  | unswappable => exact ⟨_, _, h.2.1⟩

/-- Where the supply of a token does not bear the amount, what arrives is lost: collected fees, so
that older ones are burned in their place, or a share. Without a least balance an account that
nothing refers to loses its share, too. -/
theorem chargeFrom_loses :
    (let w := town 1 [(9, { providers := 1, sufficients := 1, free := 1000 }),
        (5, { providers := 1, sufficients := 1 })] Word.top [(5, 1000), (9, 300)] (.issued 1)
      let charged := (chargeFrom 9 ⟨.issued 1, 100⟩ none).run Swap.plainSettings w
      (∀ who j, w.chain.ledger.holds who j = 0 ∨
        w.chain.ledger.least j ≤ w.chain.ledger.holds who j) ∧
      charged.1 = .ok () ∧ w.chain.balance 5 (.issued 1) = 1000 ∧
      charged.2.chain.balance 5 (.issued 1) = 900) ∧
    (let w := town 1 [(9, { providers := 1, free := 1000 }), (3, { sufficients := 1 })]
        (Word.top.subSat 100) [(3, 10)] (.issued 1)
      let charged := (chargeFrom 9 ⟨.native, 100⟩ (some 3)).run Swap.plainSettings w
      (∀ who j, w.chain.ledger.holds who j = 0 ∨
        w.chain.ledger.least j ≤ w.chain.ledger.holds who j) ∧
      charged.1 = .ok () ∧
      charged.2.chain.events.getLast? = some (.feeCharged (some 9) ⟨.issued 1, 50⟩ (some 3)
        (some ⟨.issued 1, 50⟩) false) ∧
      w.chain.balance 3 (.issued 1) = 10 ∧ charged.2.chain.balance 3 (.issued 1) = 10) ∧
    (let w := town 0 [(9, { providers := 1, free := 1000 }), (5, { providers := 1 })] 0 [] .native
      let charged := (chargeFrom 9 ⟨.native, 100⟩ (some 3)).run Swap.plainSettings w
      (∀ who j, w.chain.ledger.holds who j = 0 ∨
        w.chain.ledger.least j ≤ w.chain.ledger.holds who j) ∧
      charged.1 = .ok () ∧
      charged.2.chain.events.getLast? = some (.feeCharged (some 9) ⟨.native, 50⟩ (some 3)
        (some ⟨.native, 50⟩) false) ∧
      w.chain.balance 3 .native = 0 ∧ charged.2.chain.balance 3 .native = 0) := by
  refine ⟨⟨Ledger.kept_of_entries (by decide) (by decide), by decide⟩,
    ⟨Ledger.kept_of_entries (by decide) (by decide), by decide⟩,
    ⟨Ledger.kept_of_entries (by decide) (by decide), by decide⟩⟩

end Settlement

end SwapFees
