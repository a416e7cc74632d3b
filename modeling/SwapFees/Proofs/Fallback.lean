import SwapFees.Proofs.Faults
import SwapFees.Proofs.Parallel

namespace SwapFees

open Effect

/-- The chain without the fee token of `a`. -/
def Chain.unregister (c : Chain) (a : Asset) : Chain := { c with registry := c.registry.erase a }

/-- The fee tokens of `c` are `r`, and `d` is the same chain without that of `a`. -/
def Chain.Lacks (r : Registry) (a : Asset) (c d : Chain) : Prop :=
  c.registry = r ∧ d = c.unregister a

theorem Chain.twins_lacks (r : Registry) (a : Asset) : Chain.Twins (Chain.Lacks r a) where
  same := by
    rintro c d ⟨-, rfl⟩
    exact ⟨_, _, rfl⟩
  write := by
    rintro c d ⟨h, rfl⟩ l ps burned
    exact ⟨h, rfl⟩
  tell := by
    rintro c d ⟨h, rfl⟩ e -
    exact ⟨h, rfl⟩

/-- From `w` and from `w` without the fee token of `a` the effect answers the same and leaves the same,
the fee token apart. Only the log may tell the two from each other. -/
def Effect.Overlooks (a : Asset) (s : Settings) (w : World) (effect : Effect Unit) : Prop :=
  ∃ x c log log', c.registry = w.chain.registry ∧ effect.run s w = (x, ⟨c, log⟩) ∧
    effect.run s (w.with (w.chain.unregister a)) = (x, ⟨c.unregister a, log'⟩)

theorem Effect.overlooks_of_agrees {s : Settings} {w : World} {a : Asset} {effect : Effect Unit}
    (h : (effect.run s (w.with (w.chain.unregister a))).1 = (effect.run s w).1 ∧
      Chain.Lacks w.chain.registry a (effect.run s w).2.chain
        (effect.run s (w.with (w.chain.unregister a))).2.chain) : effect.Overlooks a s w := by
  unfold Overlooks
  rcases hp : effect.run s w with ⟨x, c, log⟩
  rcases hq : effect.run s (w.with (w.chain.unregister a)) with ⟨y, d, log'⟩
  rw [hp, hq] at h
  obtain ⟨hx, hr, hd⟩ := h
  obtain rfl : y = x := hx
  obtain rfl : d = c.unregister a := hd
  exact ⟨y, c, log, log', hr, rfl, rfl⟩

instance {α : Type} (a : Effect α) (s : Settings) (w : World) : Decidable (a.Succeeds s w) :=
  match h : a.run s w with
  | (.ok x, v) => isTrue ⟨x, v, h⟩
  | (.error _, _) => isFalse fun ⟨_, _, h'⟩ => by rw [h] at h'; cases h'

variable {s : Settings} {w v : World} {base a : Asset} {fee : Coin} {t : FeeToken}

theorem Chain.lookup?_unregister (c : Chain) (base a : Asset) :
    (c.unregister a).lookup? base a = none := by
  simp [Chain.lookup?, Chain.unregister, Registry.token?]

namespace Conversion

/-- The swap of a fee through the pool registered for it does not go through. -/
def Fails (s : Settings) (base : Asset) (t : FeeToken) (fee : Coin) (w : World) : Prop :=
  ¬ (swapThrough base t fee).Succeeds s w

instance : Decidable (Fails s base t fee w) := inferInstanceAs (Decidable (¬ _))

/-- A failure is injected, the pool is missing or refuses the swap, nothing comes out, or the ledger
refuses to take the fee or to pay for it. -/
def Refused (s : Settings) (base : Asset) (t : FeeToken) (fee : Coin) (c : Chain) : Prop :=
  s.routerFailure ≠ none ∨ (∃ e, c.pools.carry fee [⟨t.pool, base⟩] = .error e) ∨
    ∃ out ps, c.pools.carry fee [⟨t.pool, base⟩] = .ok (out, ps) ∧
      (out.amount = 0 ∨ (∃ e, c.ledger.burn s.feeAccount fee = .error e) ∨
        ∃ n l e, c.ledger.burn s.feeAccount fee = .ok (n, l) ∧
          l.mint s.feeAccount out = .error e)

theorem fails_iff : Fails s base t fee w ↔ Refused s base t fee w.chain := by
  constructor
  · intro h
    by_cases hs : s.routerFailure ≠ none
    · exact .inl hs
    have hs := Classical.not_not.1 hs
    rcases hcarry : w.chain.pools.carry fee [⟨t.pool, base⟩] with e | ⟨out, ps⟩
    · exact .inr (.inl ⟨e, hcarry⟩)
    refine .inr (.inr ⟨out, ps, hcarry, ?_⟩)
    by_cases hout : out.amount = 0
    · exact .inl hout
    rcases hburn : w.chain.ledger.burn s.feeAccount fee with e | ⟨n, l⟩
    · exact .inr (.inl ⟨e, rfl⟩)
    rcases hmint : l.mint s.feeAccount out with e | l'
    · exact .inr (.inr ⟨n, l, e, rfl, hmint⟩)
    have hx : w.chain.ledger.Exchanges s.feeAccount fee out l' :=
      ⟨n, l, hburn, by rw [if_neg hout, hmint]⟩
    exact absurd ⟨_, _, swapThrough_run hs hcarry hout hx⟩ h
  · rintro h ⟨c, w', hrun⟩
    obtain ⟨hs, -, hc, ps, l, hcarry, ⟨n, l₁, hburn, hpaid⟩, -⟩ := swapThrough_ok hrun
    rcases h with h | ⟨e, h⟩ | ⟨out, ps', h, h'⟩
    · exact h hs
    · cases hcarry.symm.trans h
    obtain ⟨rfl, rfl⟩ := Prod.mk.inj (Except.ok.inj (hcarry.symm.trans h))
    rcases h' with h' | ⟨e, h'⟩ | ⟨m, l₂, e, h', hrefused⟩
    · exact hc h'
    · cases hburn.symm.trans h'
    · obtain ⟨rfl, rfl⟩ := Prod.mk.inj (Except.ok.inj (hburn.symm.trans h'))
      rw [if_neg hc, hrefused] at hpaid
      cases hpaid

theorem run_of_fails (hbase : fee.asset ≠ base) (ht : w.chain.lookup? base fee.asset = some t)
    (h : Fails s base t fee w) :
    ∃ log, (convert base fee).run s w = (.ok .unswappable, ⟨w.chain, log⟩) := by
  have hfault := faultless_swapThrough (s := s) base t fee w
  unfold convert
  rw [if_neg hbase, run_bind_chain, ht]
  dsimp only
  rw [run_bind, run_transact, run_attempt]
  rcases hrun : (swapThrough base t fee).run s w with ⟨(e | f) | c, w'⟩
  · exact ⟨_, rfl⟩
  · rw [Faultless, hrun] at hfault
    exact absurd rfl (hfault f)
  · exact absurd ⟨c, w', hrun⟩ h

/-- A fee turns out to be unswappable if the swap tried fails, and only then. -/
theorem unswappable_iff_fails (hbase : fee.asset ≠ base)
    (ht : w.chain.lookup? base fee.asset = some t) {r : Conversion}
    (h : (convert base fee).run s w = (.ok r, v)) : r = .unswappable ↔ Fails s base t fee w := by
  constructor
  · rintro rfl ⟨c, w', hswap⟩
    cases convert_of_swapThrough hbase ht hswap h
  · intro hfails
    obtain ⟨log, hrun⟩ := run_of_fails hbase ht hfails
    exact (Except.ok.inj (Prod.mk.inj (hrun.symm.trans h)).1).symm

theorem run_of_unregistered (hbase : fee.asset ≠ base)
    (ht : w.chain.lookup? base fee.asset = none) :
    (convert base fee).run s w = (.ok .unswappable, w) := by
  unfold convert
  rw [if_neg hbase, run_bind_chain, ht]
  rfl

end Conversion

namespace Settlement

variable {r : Registry} (beneficiary payer : Option AccountId)

theorem run_settle_of_unswappable
    (h : (Conversion.convert w.chain.base fee).run s w = (.ok .unswappable, v)) :
    (settle fee beneficiary payer).run s w =
      (dispose s.policy s.feeAccount fee >>= fun how => report (.disposed fee how) >>= fun _ =>
        deposit (.feeCharged payer fee beneficiary none how.isCommunityPool)).run s v := by
  unfold settle
  rw [run_bind_read, run_bind_chain, run_bind, h]

theorem settle_agrees (hwv : Chain.Lacks r fee.asset w.chain v.chain)
    (hbase : fee.asset ≠ w.chain.base) (ht : w.chain.registry.token? fee.asset = some t)
    (h : Conversion.Fails s w.chain.base t fee w) :
    ((settle fee beneficiary payer).run s v).1 = ((settle fee beneficiary payer).run s w).1 ∧
      Chain.Lacks r fee.asset ((settle fee beneficiary payer).run s w).2.chain
        ((settle fee beneficiary payer).run s v).2.chain := by
  have hv := hwv.2
  have hvbase : v.chain.base = w.chain.base := by rw [hv]; rfl
  have hlookup : w.chain.lookup? w.chain.base fee.asset = some t := by
    rw [Chain.lookup?, if_neg hbase, ht]
  obtain ⟨log, hw⟩ := Conversion.run_of_fails hbase hlookup h
  have hv' : (Conversion.convert v.chain.base fee).run s v = (.ok .unswappable, v) := by
    rw [hvbase]
    refine Conversion.run_of_unregistered hbase ?_
    rw [hv, Chain.lookup?_unregister]
  rw [run_settle_of_unswappable _ _ hw, run_settle_of_unswappable _ _ hv']
  have hdispose : Parallel (Chain.Lacks r fee.asset) s s.emitConversions _ _ :=
    parallel_bind (parallel_dispose (Chain.twins_lacks r fee.asset) s.policy s.feeAccount fee) fun how =>
      parallel_bind (parallel_report (.disposed fee how)) fun _ =>
        parallel_deposit (Chain.twins_lacks r fee.asset)
          (e := .feeCharged payer fee beneficiary none how.isCommunityPool) rfl
  have hagree := hdispose (w := ⟨w.chain, log⟩) (v := v) hwv
  exact ⟨hagree.answer, hagree.chain⟩

/-- A fee whose conversion fails is settled as one in an asset that is no fee token. -/
theorem fails_as_unregistered {s : Settings} {w : World} {fee : Coin} {t : FeeToken}
    (hfee : fee.amount ≠ 0) (hbase : fee.asset ≠ w.chain.base)
    (ht : w.chain.registry.token? fee.asset = some t) :
    (∀ beneficiary payer, Conversion.Fails s w.chain.base t fee w →
      (charge fee beneficiary payer).Overlooks fee.asset s w) ∧
    ∀ payer beneficiary,
      (Bank.transfer payer s.feeAccount fee .preserve).All s w
        (fun _ v => Conversion.Fails s w.chain.base t fee v) →
      (chargeFrom payer fee beneficiary).Overlooks fee.asset s w := by
  have hstart : Chain.Lacks w.chain.registry fee.asset w.chain (w.chain.unregister fee.asset) :=
    ⟨rfl, rfl⟩
  have hzero := Coin.not_isZero hfee
  constructor
  · intro beneficiary payer hfails
    refine overlooks_of_agrees ?_
    simp only [charge, if_neg hzero]
    exact settle_agrees (v := w.with (w.chain.unregister fee.asset)) beneficiary payer hstart hbase ht
      hfails
  · intro payer beneficiary hfails
    have htransfer : Parallel (Chain.Lacks w.chain.registry fee.asset) s s.emitConversions
        (Bank.transfer payer s.feeAccount fee .preserve)
        (Bank.transfer payer s.feeAccount fee .preserve) :=
      Bank.parallel_transfer (Chain.twins_lacks _ _) _ _ _ _
    obtain ⟨hx, hc, -⟩ := htransfer (v := w.with (w.chain.unregister fee.asset)) hstart
    change (Effect.run _ s _).1 = _ at hx
    change Chain.Lacks _ _ _ (Effect.run _ s _).2.chain at hc
    have hrun (u : World) : (chargeFrom payer fee beneficiary).run s u =
        (Bank.transfer payer s.feeAccount fee .preserve >>= fun _ =>
          settle fee beneficiary (some payer)).run s u := by
      rw [chargeFrom, if_neg hzero, run_bind_read]
    refine overlooks_of_agrees ?_
    rw [hrun, hrun, run_bind, run_bind]
    rcases hp : (Bank.transfer payer s.feeAccount fee .preserve).run s w with ⟨x, w₁⟩
    rcases hq : (Bank.transfer payer s.feeAccount fee .preserve).run s
      (w.with (w.chain.unregister fee.asset)) with ⟨y, v₁⟩
    rw [hp, hq] at hx hc
    obtain rfl : y = x := hx
    cases y with
    | error e => exact ⟨rfl, hc⟩
    | ok _ =>
      obtain ⟨l, -, rfl⟩ := (Bank.transfer_ok hfee).1 hp
      exact settle_agrees beneficiary (some payer) hc hbase ht (hfails _ _ hp)

/-- No more of token 1 can be made here, so that a fee is taken but cannot be paid for. -/
theorem fails_as_unregistered_in_town :
    let w := town 1 [(5, { providers := 1, free := 50 }), (9, { providers := 1, free := 100 })]
      Word.top [(8, Word.top)] (.issued 1)
    let fee : Coin := ⟨.native, 20⟩
    fee.asset ≠ w.chain.base ∧ w.chain.registry.token? fee.asset = some ⟨.native, 1⟩ ∧
      Conversion.Fails Swap.plainSettings w.chain.base ⟨.native, 1⟩ fee w ∧
      (charge fee none none).Overlooks fee.asset Swap.plainSettings w ∧
      (chargeFrom 9 fee none).Overlooks fee.asset Swap.plainSettings w ∧
      ((chargeFrom 9 fee none).run Swap.plainSettings w).2.chain.events =
        [.feeCharged (some 9) fee none none true] := by
  intro w fee
  have hbase : fee.asset ≠ w.chain.base := by decide
  have ht : w.chain.registry.token? fee.asset = some ⟨.native, 1⟩ := by decide
  have hfails : Conversion.Fails Swap.plainSettings w.chain.base ⟨.native, 1⟩ fee w := by decide
  have hpaid : (Bank.transfer 9 Swap.plainSettings.feeAccount fee .preserve).All Swap.plainSettings w
      fun _ v => Conversion.Fails Swap.plainSettings w.chain.base ⟨.native, 1⟩ fee v := by decide
  obtain ⟨hcharge, hchargeFrom⟩ := fails_as_unregistered (by decide) hbase ht
  exact ⟨hbase, ht, hfails, hcharge none none hfails, hchargeFrom 9 none hpaid, by decide⟩

end Settlement

end SwapFees
