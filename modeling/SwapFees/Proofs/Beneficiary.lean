import SwapFees.Proofs.Ledger.Spending
import SwapFees.Proofs.Reachable
import SwapFees.Proofs.Settlement

namespace SwapFees

open Effect

theorem Bank.burn_succeeds_iff {s : Settings} {w : World} {who : AccountId} {c : Coin}
    (hc : c.amount ≠ 0) :
    (∃ w', (burn who c).run s w = (.ok (), w')) ↔
      c.amount ≤ w.chain.ledger.spendable who c.asset.id? := by
  rw [← Ledger.burn_isOk_iff]
  constructor
  · rintro ⟨w', h⟩
    obtain ⟨n, l, hl, -⟩ := (burn_ok hc).1 h
    rw [hl]
    rfl
  · intro h
    rcases hl : w.chain.ledger.burn who c with _ | ⟨n, l⟩
    · rw [hl] at h
      cases h
    · exact ⟨_, (burn_ok hc).2 ⟨n, l, hl, rfl⟩⟩

theorem Conversion.Outcome.covered {s : Settings} {base : Asset} {fee : Coin} {c c' : Chain}
    {r : Conversion} (h : Outcome s base fee c r c') (hc : c.ledger.Covered) :
    c'.ledger.Covered := by
  cases h with
  | kept hbase => exact hc
  | exchanged hbase hs ht hasset hout hcarry hx hes => exact (Ledger.exchanges_books hx hc).1
  | refused hbase => exact hc

theorem Conversion.Outcome.anchored {s : Settings} {base : Asset} {fee : Coin} {c c' : Chain}
    {r : Conversion} (h : Outcome s base fee c r c') {who : AccountId}
    (ha : c.ledger.Anchored who) : c'.ledger.Anchored who := by
  cases h with
  | kept hbase => exact ha
  | exchanged hbase hs ht hasset hout hcarry hx hes => exact ha.exchange hx
  | refused hbase => exact ha

namespace Settlement

variable {s : Settings} {w w₂ : World} {payer who : AccountId} {fee coin : Coin}
  {beneficiary source : Option AccountId}

/-- Once the fee is converted, a settlement succeeds as far as the fee can be shared out or disposed
of. -/
theorem settle_succeeds_iff {r : Conversion}
    (hconvert : (Conversion.convert w.chain.base fee).run s w = (.ok r, w₂)) :
    (∃ w', (settle fee beneficiary source).run s w = (.ok (), w')) ↔
      match r with
      | .unswappable => ∃ how w₃, (dispose s.policy s.feeAccount fee).run s w₂ = (.ok how, w₃)
      | .converted c => ∃ revenue w₃ w₄, (payShare beneficiary c).run s w₂ = (.ok revenue, w₃) ∧
        (Bank.burn s.feeAccount (rest c revenue)).run s w₃ = (.ok (), w₄) := by
  constructor
  · rintro ⟨w', h⟩
    obtain ⟨r', w₂', hconvert', hr⟩ := settle_ok h
    obtain ⟨hr', rfl⟩ := Prod.mk.inj (hconvert.symm.trans hconvert')
    obtain rfl := Except.ok.inj hr'
    cases r with
    | unswappable =>
      obtain ⟨how, w₃, hdispose, -⟩ := hr
      exact ⟨how, w₃, hdispose⟩
    | converted c =>
      obtain ⟨revenue, w₃, w₄, hshare, hburn, -⟩ := hr
      exact ⟨revenue, w₃, w₄, hshare, hburn⟩
  · intro hr
    unfold settle
    rw [run_bind_read, run_bind_chain]
    cases r with
    | unswappable =>
      obtain ⟨how, w₃, hdispose⟩ := hr
      exact ⟨_, bind_ok.2 ⟨_, w₂, hconvert, bind_ok.2 ⟨how, w₃, hdispose, rfl⟩⟩⟩
    | converted c =>
      obtain ⟨revenue, w₃, w₄, hshare, hburn⟩ := hr
      exact ⟨_, bind_ok.2 ⟨_, w₂, hconvert,
        bind_ok.2 ⟨revenue, w₃, hshare, bind_ok.2 ⟨(), w₄, hburn, rfl⟩⟩⟩⟩

theorem payShare_of_zero (h : share w.chain.ledger beneficiary coin = 0) :
    ∃ w', (payShare beneficiary coin).run s w = (.ok none, w') ∧ w'.chain = w.chain := by
  unfold share at h
  cases beneficiary with
  | none => exact ⟨w, rfl, rfl⟩
  | some who =>
    unfold payShare
    dsimp only at h ⊢
    split
    · exact ⟨w, rfl, rfl⟩
    · rename_i hz
      have hcan : ¬ w.chain.ledger.canReceive who (coin.withAmount coin.amount.half) = true := by
        intro hcan
        rw [if_pos hcan] at h
        exact Coin.amount_ne_zero hz h
      rw [run_bind_chain, if_neg hcan]
      exact ⟨_, rfl, rfl⟩

theorem payShare_of_ne_zero (hc : w.chain.ledger.Covered)
    (hspend : coin.amount ≤ w.chain.ledger.spendable s.feeAccount coin.asset.id?)
    (h : share w.chain.ledger (some who) coin ≠ 0) :
    let paid := coin.withAmount (share w.chain.ledger (some who) coin)
    ∃ l, w.chain.ledger.transfer s.feeAccount who paid .expendable = .ok l ∧
      (payShare (some who) coin).run s w =
        (.ok (some paid), w.with { w.chain with ledger := l }) := by
  intro paid
  obtain ⟨hhalf, hcan⟩ := share_ne_zero h
  have hpaid : paid = coin.withAmount coin.amount.half := congrArg coin.withAmount hhalf
  have hne : coin.amount.half ≠ 0 := hhalf ▸ h
  have hle : coin.amount.half ≤ w.chain.ledger.spendable s.feeAccount coin.asset.id? := by
    have hspend : coin.amount.toNat ≤
      (w.chain.ledger.spendable s.feeAccount coin.asset.id?).toNat := hspend
    rw [Word.le_def, Word.toNat_half]
    omega
  have hissued := Ledger.spendable_le_issued hc s.feeAccount coin.asset.id?
  have htransfer : (w.chain.ledger.transfer s.feeAccount who (coin.withAmount coin.amount.half)
      .expendable).isOk = true :=
    (Ledger.transfer_isOk_iff (c := coin.withAmount coin.amount.half) hne
      (Nat.le_trans hle hissued)).2 ⟨hle, .inl rfl, hcan⟩
  rw [hpaid]
  rcases hl : w.chain.ledger.transfer s.feeAccount who (coin.withAmount coin.amount.half)
    .expendable with _ | l
  · rw [hl] at htransfer
    cases htransfer
  refine ⟨l, rfl, ?_⟩
  unfold payShare
  dsimp only
  rw [if_neg (Coin.not_isZero hne), run_bind_chain, if_pos hcan, run_bind_read]
  exact bind_ok.2 ⟨(), _, (Bank.transfer_ok hne).2 ⟨l, hl, rfl⟩, rfl⟩

/-- Beside an anchored fee account that may spend the coin, a share and the rest can be paid exactly
when nothing is shared or the minimum stays behind the share. -/
theorem shares_iff (hcoin : coin.amount ≠ 0) (hc : w.chain.ledger.Covered)
    (ha : w.chain.ledger.Anchored s.feeAccount)
    (hspend : coin.amount ≤ w.chain.ledger.spendable s.feeAccount coin.asset.id?)
    (hwho : who ≠ s.feeAccount) :
    let n := share w.chain.ledger (some who) coin
    (∃ revenue w₃ w₄, (payShare (some who) coin).run s w = (.ok revenue, w₃) ∧
        (Bank.burn s.feeAccount (rest coin revenue)).run s w₃ = (.ok (), w₄)) ↔
      n = 0 ∨ w.chain.ledger.least coin.asset.id? + n.toNat ≤
        w.chain.ledger.holds s.feeAccount coin.asset.id? := by
  intro n
  by_cases hn : n = 0
  · refine ⟨fun _ => .inl hn, fun _ => ?_⟩
    obtain ⟨w₃, hshare, hw₃⟩ := payShare_of_zero (s := s) hn
    obtain ⟨w₄, hburn⟩ := (Bank.burn_succeeds_iff (s := s) (w := w₃) hcoin).2 (hw₃ ▸ hspend)
    exact ⟨none, w₃, w₄, hshare, hburn⟩
  obtain ⟨l, hl, hshare⟩ := payShare_of_ne_zero hc hspend hn
  have hpos : coin.amount.toNat ≠ 0 := fun e => hcoin (Word.toNat_eq_zero.1 e)
  have hhalf : n.toNat ≤ coin.amount.toNat / 2 := share_le w.chain.ledger (some who) coin
  have hrest : coin.amount.subSat n ≠ 0 := fun e => by
    have := Word.toNat_eq_zero.2 e
    rw [Word.toNat_subSat] at this
    omega
  have hsum : n.toNat + (coin.amount.subSat n).toNat = coin.amount.toNat := by
    rw [Word.toNat_subSat]
    omega
  -- The share was sent; what matters is what it leaves for the burn.
  have hburn := Ledger.burn_after_transfer hwho.symm hl ha hrest
    (Nat.le_trans (Nat.le_of_eq hsum) hspend)
  rw [Ledger.burn_isOk_iff] at hburn
  constructor
  · rintro ⟨revenue, w₃, w₄, hshare', hburned⟩
    obtain ⟨hrevenue, rfl⟩ := Prod.mk.inj (hshare.symm.trans hshare')
    obtain rfl := Except.ok.inj hrevenue
    exact .inr (hburn.1 ((Bank.burn_succeeds_iff hrest).1 ⟨w₄, hburned⟩))
  · intro h
    obtain ⟨w₄, hburned⟩ := (Bank.burn_succeeds_iff (s := s)
      (w := w.with { w.chain with ledger := l }) hrest).2 (hburn.2 (h.resolve_left hn))
    exact ⟨_, _, w₄, hshare, hburned⟩

theorem run_chargeFrom {l : Ledger} (hfee : fee.amount ≠ 0)
    (ht : w.chain.ledger.transfer payer s.feeAccount fee .preserve = .ok l) :
    (chargeFrom payer fee beneficiary).run s w =
      (settle fee beneficiary (some payer)).run s (w.with { w.chain with ledger := l }) := by
  have hrun := (Bank.transfer_ok (s := s) (w := w) hfee).2 ⟨l, ht, rfl⟩
  rw [chargeFrom, if_neg (Coin.not_isZero hfee), run_bind_read, run_bind, hrun]

/-- In every reachable world, a settlement that succeeds without a beneficiary succeeds with one
exactly when its fee is disposed of, no share is paid, or the fee account keeps the minimum beside
the share. -/
theorem chargeFrom_rewarded_iff {g : Genesis} {w' : World} (hreach : g.Reaches s w)
    (htokens : ∀ e ∈ g.tokens, e.2.holdings.total Word.toNat ≤ e.2.supply.toNat)
    (hfee : fee.amount ≠ 0) (hwho : who ≠ s.feeAccount)
    (h : (chargeFrom payer fee none).run s w = (.ok (), w')) :
    ∃ r w₁ w₂, (Bank.transfer payer s.feeAccount fee .preserve).run s w = (.ok (), w₁) ∧
      (Conversion.convert w.chain.base fee).run s w₁ = (.ok r, w₂) ∧
      (((chargeFrom payer fee (some who)).run s w).1 = .ok () ↔
        match r with
        | .unswappable => True
        | .converted coin =>
          let n := share w₂.chain.ledger (some who) coin
          n = 0 ∨ w₂.chain.ledger.least coin.asset.id? + n.toNat ≤
            w₂.chain.ledger.holds s.feeAccount coin.asset.id?) := by
  obtain ⟨l, ht, hsettle⟩ := chargeFrom_ok hfee h
  obtain ⟨r, w₂, hconvert, -⟩ := settle_ok hsettle
  have houtcome := Conversion.convert_outcome hconvert
  have hcovered := houtcome.covered (Ledger.transfer_books ht (hreach.covered htokens)).1
  have hanchored := houtcome.anchored (hreach.feeAccount_anchored.transfer ht)
  refine ⟨r, _, w₂, (Bank.transfer_ok hfee).2 ⟨l, ht, rfl⟩, hconvert, ?_⟩
  rw [fst_ok_iff, run_chargeFrom hfee ht, settle_succeeds_iff hconvert]
  have halone := (settle_succeeds_iff hconvert).1 ⟨w', hsettle⟩
  cases r with
  | unswappable => exact ⟨fun _ => trivial, fun _ => halone⟩
  | converted coin =>
    obtain ⟨hasset, hcoin, -⟩ := houtcome.coin hfee
    obtain ⟨revenue, w₃, w₄, hshare, hburn⟩ := halone
    obtain ⟨hrevenue, rfl⟩ := Prod.mk.inj hshare
    obtain rfl := Except.ok.inj hrevenue
    exact shares_iff hcoin hcovered hanchored ((Bank.burn_succeeds_iff hcoin).1 ⟨w₄, hburn⟩) hwho

/-- Native balances below 100 are not kept. -/
def thrifty : Genesis :=
  { Genesis.standard with minBalance := 100, balances := [(3, 1000), (9, 1000)] }

/-- Of 250 the fee account keeps 125 when it has paid the share. -/
theorem chargeFrom_rewarded_from_thrifty :
    ∃ w, thrifty.Reaches Swap.plainSettings w ∧
      ((chargeFrom 9 ⟨.native, 250⟩ none).run Swap.plainSettings w).1 = .ok () ∧
      ((chargeFrom 9 ⟨.native, 250⟩ (some 3)).run Swap.plainSettings w).1 = .ok () := by
  let l : Ledger := ⟨100, 2000, .ofList [(3, { providers := 1, free := 1000 }),
    (5, { providers := 1 }), (9, { providers := 1, free := 1000 })], ∅⟩
  let w : World := ⟨⟨l, ∅, .native, .empty, ∅, none, Genesis.standard.defaultTakerFee, []⟩, []⟩
  have hreach : thrifty.Reaches Swap.plainSettings w := ⟨w.chain, [], by decide, rfl⟩
  have halone : ((chargeFrom 9 ⟨.native, 250⟩ none).run Swap.plainSettings w).1 = .ok () := by
    decide
  obtain ⟨w', hrun⟩ := fst_ok_iff.1 halone
  obtain ⟨r, w₁, w₂, ht, hconvert, hiff⟩ := @chargeFrom_rewarded_iff Swap.plainSettings w 9 3
    ⟨.native, 250⟩ thrifty w' hreach (by decide) (by decide) (by decide) hrun
  refine ⟨w, hreach, halone, hiff.2 ?_⟩
  obtain rfl : ((Bank.transfer 9 5 ⟨.native, 250⟩ .preserve).run Swap.plainSettings w).2 = w₁ :=
    congrArg Prod.snd ht
  cases hconvert
  decide

/-- Of 150 it would keep 75. That is dust and goes with the share, so that nothing is left to
burn. -/
theorem chargeFrom_refused_from_thrifty :
    Swap.plainSettings.feeAccount ≠ 3 ∧ ∃ w, thrifty.Reaches Swap.plainSettings w ∧
      ((chargeFrom 9 ⟨.native, 150⟩ none).run Swap.plainSettings w).1 = .ok () ∧
      ((chargeFrom 9 ⟨.native, 150⟩ (some 3)).run Swap.plainSettings w).1 =
        .error (.error (.token .fundsUnavailable)) :=
  ⟨by decide, _, ⟨_, [], rfl, rfl⟩, by decide, by decide⟩

end Settlement

end SwapFees
