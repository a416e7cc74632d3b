import SwapFees.Proofs.Headroom
import SwapFees.Proofs.Reachable
import SwapFees.Proofs.Sender

namespace SwapFees

namespace Ledger

/-- The books are covered, and no balance is too small to be kept. -/
structure Lossless (l : Ledger) : Prop where
  covered : l.Covered
  unit : ∀ j, l.least j ≤ 1

theorem least_le_of_entries {l : Ledger} {n : Nat} (hn : l.minBalance.toNat ≤ n)
    (ht : ∀ e ∈ l.tokens.toList, e.2.minBalance.toNat ≤ n) (j : Option AssetId) : l.least j ≤ n := by
  cases j with
  | none => exact hn
  | some id =>
    cases he : l.tokens.get? id with
    | none => simp [least, he]
    | some t =>
      rw [least_some he]
      exact ht (id, t) (SortedMap.mem_toList.2 he)

theorem Lossless.congr {l l' : Ledger} (h : l.Lossless) (hc : l'.Covered)
    (hl : ∀ j, l'.least j = l.least j) : l'.Lossless :=
  ⟨hc, fun j => (hl j).symm ▸ h.unit j⟩

end Ledger

namespace Chain

/-- A lossless ledger stays lossless, and no value changes. -/
def Conserving (c c' : Chain) : Prop :=
  c.ledger.Lossless → c'.ledger.Lossless ∧ ∀ j, c'.value j = c.value j

variable {c c' c'' : Chain} {l : Ledger}

theorem Conserving.trans (h : c.Conserving c') (h' : c'.Conserving c'') : c.Conserving c'' := by
  intro he
  obtain ⟨he, hv⟩ := h he
  obtain ⟨he, hv'⟩ := h' he
  exact ⟨he, fun j => (hv' j).trans (hv j)⟩

theorem conserving_of_eq (hl : c'.ledger = c.ledger) (hp : c'.pools = c.pools)
    (hb : c'.burned = c.burned) : c.Conserving c' := by
  intro he
  refine ⟨hl ▸ he, fun j => ?_⟩
  unfold value burnedUnder totalBurned
  rw [hl, hp, hb]

theorem conserving_transfer {source dest : AccountId} {coin : Coin} {p : Preservation}
    (h : c.ledger.transfer source dest coin p = .ok l) :
    c.Conserving { c with ledger := l } := by
  intro he
  obtain ⟨hc, -, hnone⟩ := Ledger.transfer_books h he.covered
  refine ⟨he.congr hc (Ledger.transfer_least h), fun j => ?_⟩
  have hj : l.issued j = c.ledger.issued j := by
    cases j with
    | none => exact hnone (he.unit none)
    | some id => exact Ledger.transfer_supply h id
  exact congrArg (· + Pools.reserves c.pools j + c.burnedUnder j) hj

theorem conserving_burn {who : AccountId} {coin : Coin} {n : Amount}
    (h : c.ledger.burn who coin = .ok (n, l))
    (hfits : (c.totalBurned coin.asset).toNat + n.toNat < 2 ^ (128 : Nat)) :
    c.Conserving (c.countBurned l coin.asset n) := by
  intro he
  obtain ⟨hc, -, -, heq⟩ := Ledger.burn_books h he.covered
  refine ⟨he.congr hc (Ledger.burn_effect h).1.least, fun j => ?_⟩
  have hissued : l.issued j + (Coin.mk coin.asset n).under j = c.ledger.issued j :=
    (heq he.unit).2 j
  have hburned := (burnedUnder_countBurned (l := l) j).2 hfits
  change l.issued j + Pools.reserves c.pools j + (c.countBurned l coin.asset n).burnedUnder j = _
  unfold value
  omega

theorem conserving_exchange {who : AccountId} {tokenIn tokenOut : Coin} {ps : Pools}
    (h : c.ledger.Exchanges who tokenIn tokenOut l)
    (hps : ∀ j, ps.reserves j + tokenOut.under j = Pools.reserves c.pools j + tokenIn.under j) :
    c.Conserving { c with ledger := l, pools := ps } := by
  intro he
  obtain ⟨hc, -, heq⟩ := Ledger.exchanges_books h he.covered
  refine ⟨he.congr hc (Ledger.exchanges_least h), fun j => ?_⟩
  have hissued := heq he.unit j
  have hreserves := hps j
  change l.issued j + ps.reserves j + c.burnedUnder j = _
  unfold value
  omega

end Chain

namespace Effect

variable {α β : Type} {s : Settings} {w w' : World}

/-- However `a` ends, it conserves value. -/
def Conserves (a : Effect α) (s : Settings) (w : World) : Prop :=
  w.chain.Conserving (a.run s w).2.chain

/-- `a` conserves value if it succeeds. -/
abbrev Delivers (a : Effect α) (s : Settings) (w : World) : Prop :=
  a.All s w fun _ w' => w.chain.Conserving w'.chain

theorem conserves_of_eq {a : Effect α} (hl : (a.run s w).2.chain.ledger = w.chain.ledger)
    (hp : (a.run s w).2.chain.pools = w.chain.pools)
    (hb : (a.run s w).2.chain.burned = w.chain.burned) : a.Conserves s w :=
  Chain.conserving_of_eq hl hp hb

theorem conserves_pure (x : α) : (pure x : Effect α).Conserves s w := conserves_of_eq rfl rfl rfl

theorem conserves_fail (e : DispatchError) : (fail e : Effect α).Conserves s w :=
  conserves_of_eq rfl rfl rfl

theorem conserves_report (e : LogEntry) : (report e).Conserves s w := conserves_of_eq rfl rfl rfl

theorem conserves_deposit (e : Event) : (deposit e).Conserves s w := conserves_of_eq rfl rfl rfl

theorem Conserves.delivers {a : Effect α} (h : a.Conserves s w) : a.Delivers s w := by
  intro x w' hr
  unfold Conserves at h
  rwa [hr] at h

theorem conserves_bind {a : Effect α} {f : α → Effect β} (ha : a.Conserves s w)
    (hf : a.All s w fun x w' => (f x).Conserves s w') : (a >>= f).Conserves s w := by
  unfold Conserves at ha ⊢
  rw [run_bind]
  rcases hr : a.run s w with ⟨_ | x, w'⟩
  · rwa [hr] at ha
  · rw [hr] at ha
    exact ha.trans (hf x w' hr)

theorem delivers_bind {a : Effect α} {f : α → Effect β} (ha : a.Delivers s w)
    (hf : a.All s w fun x w' => (f x).Delivers s w') : (a >>= f).Delivers s w := by
  intro y w' h
  obtain ⟨x, v, hx, hy⟩ := bind_ok.1 h
  exact (ha x v hx).trans (hf x v hx y w' hy)

theorem conserves_bind_read {f : Settings → Effect β} (hf : (f s).Conserves s w) :
    ((read : Effect Settings) >>= f).Conserves s w := hf

theorem conserves_bind_chain {f : Chain → Effect β} (hf : (f w.chain).Conserves s w) :
    (chain >>= f).Conserves s w := hf

theorem conserves_attempt {a : Effect α} (ha : a.Conserves s w) : (attempt a).Conserves s w := by
  unfold Conserves at ha ⊢
  rw [run_attempt]
  rcases hr : a.run s w with ⟨(_ | _) | _, w'⟩ <;> rwa [hr] at ha

theorem conserves_transact {keep : α → Bool} {a : Effect α}
    (ha : a.All s w fun x w' => keep x = true → w.chain.Conserving w'.chain) :
    (transact keep a).Conserves s w := by
  unfold Conserves
  rw [run_transact]
  rcases hr : a.run s w with ⟨_ | x, w'⟩
  · exact Chain.conserving_of_eq rfl rfl rfl
  · dsimp only
    split
    · rename_i hkeep
      exact ha x w' hr hkeep
    · exact Chain.conserving_of_eq rfl rfl rfl

theorem conserves_atomically {a : Effect α} (ha : a.Delivers s w) : (atomically a).Conserves s w := by
  unfold Conserves
  rw [run_atomically]
  rcases hr : a.run s w with ⟨_ | x, w'⟩
  · exact Chain.conserving_of_eq rfl rfl rfl
  · exact ha x w' hr

end Effect

open Effect

variable {s : Settings} {w w' : World}

namespace Bank

theorem conserves_transfer (source dest : AccountId) (c : Coin) (p : Preservation) :
    (transfer source dest c p).Conserves s w := by
  unfold transfer
  split
  · exact conserves_pure ()
  · unfold Conserves
    rw [run_onLedger]
    rcases h : w.chain.ledger.transfer source dest c p with _ | l
    · exact Chain.conserving_of_eq rfl rfl rfl
    · exact Chain.conserving_transfer h

theorem conserves_burn {who : AccountId} {c : Coin} (hfits : BurnFits who c w) :
    (burn who c).Conserves s w := by
  unfold burn
  split
  · exact conserves_pure ()
  · rename_i hc
    refine conserves_bind_chain ?_
    rcases h : w.chain.ledger.burn who c with _ | ⟨n, l⟩
    · exact conserves_fail _
    · exact Chain.conserving_burn h (hfits (Coin.amount_ne_zero hc) (n, l) h)

end Bank

namespace Conversion

theorem conserves_announce (e : Event) : (announce e).Conserves s w := by
  refine conserves_bind_read ?_
  split
  · exact conserves_deposit e
  · exact conserves_pure ()

theorem conserves_convert {base : Asset} {fee : Coin} (hfits : ConvertFits base fee w) :
    (convert base fee).Conserves s w := by
  unfold convert
  split
  · exact conserves_pure _
  rename_i hbase
  refine conserves_bind_chain ?_
  split
  · exact conserves_pure _
  rename_i t ht
  refine conserves_bind (conserves_transact ?_) ?_
  · intro r v hr hkeep
    rcases attempt_ok.1 hr with ⟨out, rfl, hrun⟩ | ⟨e, rfl, -⟩
    · obtain ⟨-, -, -, ps, l, hcarry, hx, rfl⟩ := swapThrough_ok hrun
      exact Chain.conserving_exchange hx fun j =>
        (Pools.reserves_carry hcarry j).2 (hfits hbase t ht)
    · cases hkeep
  · intro r v _
    cases r with
    | ok out => exact conserves_bind (conserves_announce _) fun _ _ _ => conserves_pure _
    | error e => exact conserves_bind (conserves_report _) fun _ _ _ => conserves_pure _

end Conversion

namespace Settlement

variable {fee : Coin} {beneficiary : Option AccountId}

theorem conserves_dispose {how : Disposition} {source : AccountId}
    (hfits : how = .burned → Bank.BurnFits source fee w) :
    (dispose how source fee).Conserves s w := by
  cases how with
  | burned => exact conserves_bind (Bank.conserves_burn (hfits rfl)) fun _ _ _ => conserves_pure _
  | communityPool =>
    refine conserves_bind_read ?_
    split
    · exact conserves_fail _
    · exact conserves_bind (Bank.conserves_transfer _ _ _ _) fun _ _ _ => conserves_pure _

theorem conserves_payShare (beneficiary : Option AccountId) (c : Coin) :
    (payShare beneficiary c).Conserves s w := by
  cases beneficiary with
  | none => exact conserves_pure _
  | some who =>
    unfold payShare
    dsimp only
    split
    · exact conserves_pure _
    · refine conserves_bind_chain ?_
      split
      · exact conserves_bind_read <|
          conserves_bind (Bank.conserves_transfer _ _ _ _) fun _ _ _ => conserves_pure _
      · exact conserves_bind (conserves_report _) fun _ _ _ => conserves_pure _

theorem conserves_settle (hfits : SettleFits fee beneficiary s w) (payer : Option AccountId) :
    (settle fee beneficiary payer).Conserves s w := by
  obtain ⟨hconvert, hrest⟩ := hfits
  refine conserves_bind_read (conserves_bind_chain ?_)
  refine conserves_bind (Conversion.conserves_convert hconvert) fun r v hr => ?_
  obtain ⟨hdispose, hburn⟩ := hrest r v hr
  cases r with
  | unswappable =>
    refine conserves_bind (conserves_dispose (hdispose rfl)) fun how _ _ => ?_
    exact conserves_bind (conserves_report _) fun _ _ _ => conserves_deposit _
  | converted c =>
    refine conserves_bind (conserves_payShare beneficiary c) fun revenue u hu => ?_
    have hfits := hburn c rfl revenue u hu
    cases revenue with
    | none => exact conserves_bind (Bank.conserves_burn hfits) fun _ _ _ => conserves_deposit _
    | some share => exact conserves_bind (Bank.conserves_burn hfits) fun _ _ _ => conserves_deposit _

theorem conserves_charge (hfits : ChargeFits fee beneficiary s w) (payer : Option AccountId) :
    (charge fee beneficiary payer).Conserves s w := by
  unfold charge
  split
  · exact conserves_pure ()
  · rename_i hfee
    exact conserves_settle (hfits (Coin.amount_ne_zero hfee)) payer

theorem conserves_chargeFrom {payer : AccountId} (hfits : ChargeFromFits payer fee beneficiary s w) :
    (chargeFrom payer fee beneficiary).Conserves s w := by
  unfold chargeFrom
  split
  · exact conserves_pure ()
  · rename_i hfee
    refine conserves_bind_read (conserves_bind (Bank.conserves_transfer _ _ _ _) fun _ v hv => ?_)
    exact conserves_settle (hfits (Coin.amount_ne_zero hfee) () v hv) _

end Settlement

namespace Swap

variable {sender : AccountId}

theorem conserves_beneficiary (assetIn assetOut : Asset) :
    (beneficiary assetIn assetOut).Conserves s w := by
  refine conserves_bind_read ?_
  split
  · split
    · exact conserves_pure _
    · exact conserves_bind (conserves_report _) fun _ _ _ => conserves_pure _
  · exact conserves_pure _

variable (hs : s.routerFailure = none)
include hs

theorem delivers_acceptedFee {fee : Coin} {firstHop : HopIn} (hfits : AcceptedFeeFits fee firstHop w) :
    (acceptedFee sender fee firstHop).Delivers s w := by
  intro fee' w' h
  rcases acceptedFee_ok hs h with ⟨-, -, rfl⟩ | ⟨hfee, ps, l, hcarry, hx, hw⟩
  · exact Chain.conserving_of_eq rfl rfl rfl
  · rw [hw]
    exact Chain.conserving_exchange hx fun j => (Pools.reserves_carry hcarry j).2 (hfits hfee)

theorem delivers_chargeTakerFee {fee : Coin} {firstHop : HopIn} {beneficiary : Option AccountId}
    (hfits : TakerFeeFits sender fee firstHop beneficiary s w) :
    (chargeTakerFee sender fee firstHop beneficiary).Delivers s w := by
  unfold chargeTakerFee
  split
  · exact (conserves_pure ()).delivers
  · rename_i hfee
    obtain ⟨haccept, hcharge⟩ := hfits (Coin.amount_ne_zero hfee)
    exact delivers_bind (delivers_acceptedFee hs haccept) fun fee' v hv =>
      (Settlement.conserves_chargeFrom (hcharge fee' v hv)).delivers

theorem delivers_swapIn {route : List HopIn} {tokenIn : Coin} {minOut : Amount}
    (hfits : SwapInFits sender route tokenIn s w) :
    (swapIn sender route tokenIn minOut).Delivers s w := by
  intro n w' h
  cases hlast : route.getLast? with
  | none =>
    obtain rfl := List.getLast?_eq_none_iff.1 hlast
    cases h
  | some last =>
    obtain ⟨first, b, w₁, w₂, w₃, hfirst, hb, hfee, hswap, rfl⟩ := swapIn_ok h hlast
    obtain ⟨hfeeFits, hcarryFits⟩ := hfits first hfirst last hlast b w₁ hb
    have h₁ := (conserves_beneficiary _ _).delivers b w₁ hb
    have h₂ := delivers_chargeTakerFee hs hfeeFits () w₂ hfee
    obtain ⟨out, ps, l, hcarry, -, hx, -, rfl⟩ := Router.swapIn_ok hs hswap
    have h₃ := Chain.conserving_exchange hx fun j =>
      (Pools.reserves_carry hcarry j).2 (hcarryFits () w₂ hfee)
    exact ((h₁.trans h₂).trans h₃).trans (Chain.conserving_of_eq rfl rfl rfl)

theorem delivers_swapOut {route : List HopOut} {maxIn : Amount} {tokenOut : Coin}
    (hfits : SwapOutFits sender route maxIn tokenOut s w) :
    (swapOut sender route maxIn tokenOut).Delivers s w := by
  intro n w' h
  cases route with
  | nil => cases h
  | cons first rest =>
    obtain ⟨quoted, split, b, w₁, w₂, m, w₃, ⟨qs, hquote⟩, hsplit, hmax, hb, hfee, hswap, -, e, rfl⟩ :=
      swapOut_ok h
    obtain ⟨hfeeFits, hrequireFits⟩ := hfits first rfl (quoted, qs) hquote split hsplit hmax b w₁ hb
    have h₁ := (conserves_beneficiary _ _).delivers b w₁ hb
    have h₂ := delivers_chargeTakerFee hs hfeeFits () w₂ hfee
    obtain ⟨ps, l, hrequire, -, hx, rfl⟩ := Router.swapOut_ok hs hswap
    have h₃ := Chain.conserving_exchange hx fun j =>
      (Pools.reserves_require hrequire j).2 (hrequireFits () w₂ hfee)
    exact ((h₁.trans h₂).trans h₃).trans (Chain.conserving_of_eq rfl rfl rfl)

end Swap

namespace Sweep

theorem conserves_visit {base a : Asset} (hfits : VisitFits base a s w) :
    (visit base a).Conserves s w := by
  refine conserves_bind_chain (conserves_bind_read ?_)
  dsimp only
  split
  · exact conserves_pure ()
  · rename_i hn
    exact conserves_bind (Conversion.conserves_convert (hfits hn)) fun _ _ _ => conserves_pure ()

theorem conserves_visitAll {base : Asset} {as : List Asset} (hfits : VisitAllFits base s as w) :
    (visitAll base as).Conserves s w := by
  induction as generalizing w with
  | nil => exact conserves_pure ()
  | cons a as ih =>
    obtain ⟨hvisit, hrest⟩ := hfits
    exact conserves_bind (conserves_visit hvisit) fun x v hv => ih (hrest x v hv)

theorem conserves_burnResidue {base : Asset}
    (hfits : Bank.BurnFits s.feeAccount ⟨base, w.chain.balance s.feeAccount base⟩ w) :
    (burnResidue base).Conserves s w := by
  refine conserves_bind_read (conserves_bind_chain ?_)
  dsimp only
  split
  · exact conserves_pure ()
  · refine conserves_bind (conserves_attempt (Bank.conserves_burn hfits)) fun r _ _ => ?_
    cases r with
    | ok _ => exact conserves_deposit _
    | error _ => exact conserves_report _

theorem conserves_idle {budget : Weight} (hfits : IdleFits budget s w) :
    (idle budget).Conserves s w := by
  obtain ⟨hvisits, hburn⟩ := hfits
  refine conserves_bind_chain (conserves_bind_read ?_)
  refine conserves_bind (conserves_visitAll hvisits) fun x v hv => ?_
  have hburn := hburn x v hv
  -- The cursor is on no book.
  refine conserves_bind (conserves_of_eq rfl rfl rfl) fun _ u hu => ?_
  rw [run_modifyChain] at hu
  obtain ⟨-, rfl⟩ := Prod.mk.inj hu
  dsimp only
  split
  · rename_i hfits
    exact conserves_bind (conserves_burnResidue (hburn hfits)) fun _ _ _ => conserves_pure _
  · exact conserves_pure _

end Sweep

namespace Governance

theorem conserves_setFeeToken (t : FeeToken) : (setFeeToken t).Conserves s w := by
  refine conserves_bind_chain ?_
  split
  · exact conserves_fail _
  · refine conserves_bind_read ?_
    split
    · exact conserves_fail _
    · exact conserves_of_eq rfl rfl rfl

theorem conserves_removeFeeToken (a : Asset) : (removeFeeToken a).Conserves s w := by
  refine conserves_bind_chain ?_
  split
  · exact conserves_of_eq rfl rfl rfl
  · exact conserves_fail _

theorem conserves_setTakerFee (rate : Rate) : (setTakerFee rate).Conserves s w := by
  unfold setTakerFee
  split
  · exact conserves_of_eq rfl rfl rfl
  · exact conserves_fail _

end Governance

theorem Origin.conserves_requireRoot (o : Origin) : o.requireRoot.Conserves s w := by
  cases o with
  | root => exact conserves_pure ()
  | signed who => exact conserves_fail _
  | none => exact conserves_fail _

theorem FeeCall.conserves_perform (o : Origin) (c : FeeCall) : (c.perform o).Conserves s w := by
  refine conserves_bind o.conserves_requireRoot fun _ v _ => ?_
  cases c with
  | setBase a => exact conserves_of_eq rfl rfl rfl
  | setFeeToken t => exact Governance.conserves_setFeeToken t
  | removeFeeToken a => exact Governance.conserves_removeFeeToken a

theorem SwapCall.delivers_perform (hs : s.routerFailure = none) {o : Origin} {c : SwapCall}
    (hfits : c.Fits o s w) : (c.perform o).Delivers s w := by
  cases c with
  | swapIn route tokenIn minOut =>
    intro x w' hperform
    obtain ⟨sender, v, horigin, hswap⟩ := bind_ok.1 hperform
    obtain ⟨hsender, rfl⟩ := Origin.requireAccount_ok horigin
    exact delivers_bind (Swap.delivers_swapIn hs (hfits sender hsender))
      (fun _ _ _ => (conserves_pure ()).delivers) x w' hswap
  | swapOut route maxIn tokenOut =>
    intro x w' hperform
    obtain ⟨sender, v, horigin, hswap⟩ := bind_ok.1 hperform
    obtain ⟨hsender, rfl⟩ := Origin.requireAccount_ok horigin
    exact delivers_bind (Swap.delivers_swapOut hs (hfits sender hsender))
      (fun _ _ _ => (conserves_pure ()).delivers) x w' hswap
  | setTakerFee rate =>
    exact (conserves_bind o.conserves_requireRoot fun _ _ _ =>
      Governance.conserves_setTakerFee rate).delivers

/-- An operation without injected failure that creates no pool conserves value, however it ends. -/
theorem Operation.conserves_perform (hs : s.routerFailure = none) {op : Operation}
    (hg : op.grows = false) (hfits : op.Fits s w) : op.perform.Conserves s w := by
  induction op with
  | call o c =>
    cases c with
    | fees c => exact conserves_atomically (c.conserves_perform o).delivers
    | swaps c => exact conserves_atomically (c.delivers_perform hs hfits)
  | idle budget => exact conserves_bind (Sweep.conserves_idle hfits) fun _ _ _ => conserves_pure ()
  | charge fee beneficiary payer => exact Settlement.conserves_charge hfits payer
  | chargeFrom payer fee beneficiary => exact Settlement.conserves_chargeFrom hfits
  | addPool p => cases hg
  | whole op ih => exact conserves_atomically (ih hg hfits).delivers

theorem World.conserving_replay (hs : s.routerFailure = none) {ops : List Operation}
    (hops : ∀ op ∈ ops, op.grows = false) (hfits : World.Fits s w ops) :
    w.chain.Conserving (replay s w ops).chain := by
  induction ops generalizing w with
  | nil => exact Chain.conserving_of_eq rfl rfl rfl
  | cons op ops ih =>
    obtain ⟨hop, hrest⟩ := hfits
    have h : w.chain.Conserving (op.perform.run s w).2.chain :=
      op.conserves_perform hs (hops op List.mem_cons_self) hop
    have ih := @ih (op.perform.run s w).2 fun op hop => hops op (List.mem_cons_of_mem _ hop)
    unfold replay
    split
    · rename_i hr
      rwa [hr] at h
    · rename_i r v hne hr
      rw [hr] at h hrest ih
      refine h.trans (ih (hrest ?_))
      -- This branch is for every end but a fault.
      match r, hne with
      | .ok _, _ => rfl
      | .error (.error _), _ => rfl
      | .error (.fault f), hne => exact absurd rfl (hne f)

namespace World

/-- A history that creates no pool creates no value under any number, whatever its operations do and
however they end. It loses none either where no failure is injected, no balance is too small to be
kept and no reserve or burn counter saturates. -/
theorem replay_value {ops : List Operation} (hc : w.chain.ledger.Covered)
    (hops : ∀ op ∈ ops, op.grows = false) :
    (replay s w ops).chain.ledger.Covered ∧
      (∀ j, (replay s w ops).chain.value j ≤ w.chain.value j) ∧
      (s.routerFailure = none → (∀ j, w.chain.ledger.least j ≤ 1) → World.Fits s w ops →
        ∀ j, (replay s w ops).chain.value j = w.chain.value j) := by
  obtain ⟨hcovered, hle⟩ := replay_value_le hc hops
  refine ⟨hcovered, hle, fun hs hunit hfits j => ?_⟩
  exact (conserving_replay hs hops hfits ⟨hc, hunit⟩).2 j

/-- A sale whose fee is burned, a sale that is taken back, and a sweep. -/
theorem replay_value_in_market :
    let w := Swap.market 1 { providers := 1, sufficients := 1, free := 50 } (.issued 1)
    let sale (minOut : Amount) : Operation :=
      .call (.signed 9) (.swaps (.swapIn ⟨[⟨1, .native⟩], by decide⟩ ⟨.issued 1, 100⟩ minOut))
    let c := (replay Swap.plainSettings w [sale 99, sale 99, .idle .top]).chain
    c.ledger.Covered ∧ c.totalBurned (.issued 1) = 1 ∧ c.ledger.issued none = 149 ∧
      (∀ j, c.value j ≤ w.chain.value j) ∧ ∀ j, c.value j = w.chain.value j := by
  intro w sale c
  obtain ⟨hcovered, hle, heq⟩ := @replay_value Swap.plainSettings w [sale 99, sale 99, .idle .top]
    (Ledger.covered_of_entries (by decide) (by decide)) (by decide)
  refine ⟨hcovered, by decide, by decide, hle, heq rfl ?_ (by decide +kernel)⟩
  exact Ledger.least_le_of_entries (by decide) (by decide)

end World

/-- The same from any world that genesis leads to, where the supplies cover what is held. -/
theorem Genesis.Reaches.value_kept {g : Genesis} {ops : List Operation} (h : g.Reaches s w)
    (ht : ∀ e ∈ g.tokens, e.2.holdings.total Word.toNat ≤ e.2.supply.toNat)
    (hops : ∀ op ∈ ops, op.grows = false) :
    (∀ j, (World.replay s w ops).chain.value j ≤ w.chain.value j) ∧
      (s.routerFailure = none → (∀ j, w.chain.ledger.least j ≤ 1) → World.Fits s w ops →
        ∀ j, (World.replay s w ops).chain.value j = w.chain.value j) := by
  have hc := h.covered ht
  constructor
  · exact (World.replay_value_le hc hops).2
  · intro hs hunit hfits j
    exact (World.conserving_replay hs hops hfits ⟨hc, hunit⟩).2 j

end SwapFees
