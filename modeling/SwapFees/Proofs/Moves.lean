import Mathlib.Logic.Relation
import SwapFees.History
import SwapFees.Proofs.Outcome

namespace SwapFees

/-- The least changes of a chain, made by accounts in `party`. -/
inductive Move (party : AccountId → Prop) : Chain → Chain → Prop
  | pay {c : Chain} {source dest : AccountId} {coin : Coin} {p : Preservation} {l : Ledger}
    (hs : party source) (hd : party dest) (h : c.ledger.transfer source dest coin p = .ok l) :
    Move party c { c with ledger := l }
  | burn {c : Chain} {who : AccountId} {coin : Coin} {n : Amount} {l : Ledger}
    (hw : party who) (h : c.ledger.burn who coin = .ok (n, l)) :
    Move party c
      { c with
        ledger := l
        burned := c.burned.insert coin.asset ((c.totalBurned coin.asset).addSat n) }
  | debit {c : Chain} {who : AccountId} {coin : Coin} {n : Amount} {l : Ledger}
    (hw : party who) (h : c.ledger.burn who coin = .ok (n, l)) :
    Move party c { c with ledger := l }
  | trade {c : Chain} {who : AccountId} {tokenIn tokenOut : Coin} {ps : Pools} {l : Ledger}
    (hw : party who) (ht : c.pools.Trades tokenIn tokenOut ps)
    (hx : c.ledger.Exchanges who tokenIn tokenOut l) :
    Move party c { c with ledger := l, pools := ps }
  | announce (c : Chain) (e : Event) : Move party c { c with events := c.events ++ [e] }
  | remember (c : Chain) (last : Option Asset) : Move party c { c with cursor := last }

abbrev Moves (party : AccountId → Prop) : Chain → Chain → Prop := Relation.ReflTransGen (Move party)

/-- However `a` ends, it got there by changes in `R`. -/
def Effect.Within {α : Type} (s : Settings) (R : Chain → Chain → Prop) (a : Effect α) : Prop :=
  ∀ w, Relation.ReflTransGen R w.chain (a.run s w).2.chain

/-- However `a` ends, it got there by moves of `party`. -/
abbrev Effect.Moving {α : Type} (s : Settings) (party : AccountId → Prop) (a : Effect α) : Prop :=
  a.Within s (Move party)

/-- A relation that each move respects holds along all of them. -/
theorem Moves.lift {party : AccountId → Prop} {R : Chain → Chain → Prop} (refl : ∀ c, R c c)
    (trans : ∀ {a b c}, R a b → R b c → R a c) (step : ∀ {c c'}, Move party c c' → R c c')
    {c c' : Chain} (h : Moves party c c') : R c c' := by
  induction h with
  | refl => exact refl c
  | tail _ hm ih => exact trans ih (step hm)

namespace Effect

variable {α β : Type} {s : Settings} {R : Chain → Chain → Prop}

theorem within_of_chain_eq {a : Effect α} (h : ∀ w, (a.run s w).2.chain = w.chain) : a.Within s R :=
  fun w => (h w).symm ▸ .refl

theorem within_of_single {a : Effect α}
    (h : ∀ w, (a.run s w).2.chain = w.chain ∨ R w.chain (a.run s w).2.chain) : a.Within s R := by
  intro w
  rcases h w with e | m
  · exact e.symm ▸ .refl
  · exact .single m

theorem within_pure (x : α) : (pure x : Effect α).Within s R := within_of_chain_eq fun _ => rfl

theorem within_chain : chain.Within s R := within_of_chain_eq fun _ => rfl

theorem within_report (e : LogEntry) : (report e).Within s R := within_of_chain_eq fun _ => rfl

theorem within_fail (e : DispatchError) : (fail e : Effect α).Within s R :=
  within_of_chain_eq fun _ => rfl

theorem within_lift (a : Answer α) : (lift a).Within s R :=
  within_of_chain_eq fun w => by rw [run_lift]

/-- The rest of a sequence need only be known from the worlds in which it is started. -/
theorem within_bind' {a : Effect α} {f : α → Effect β} (ha : a.Within s R)
    (hf : ∀ x w w', a.run s w = (.ok x, w') →
      Relation.ReflTransGen R w'.chain ((f x).run s w').2.chain) :
    (a >>= f).Within s R := by
  intro w
  have h := ha w
  rw [run_bind]
  rcases hr : a.run s w with ⟨_ | x, w'⟩
  · rwa [hr] at h
  · rw [hr] at h
    exact h.trans (hf x w w' hr)

theorem within_bind {a : Effect α} {f : α → Effect β} (ha : a.Within s R)
    (hf : ∀ x, (f x).Within s R) : (a >>= f).Within s R :=
  within_bind' ha fun x _ w' _ => hf x w'

theorem within_bind_read {f : Settings → Effect β} (hf : (f s).Within s R) :
    ((read : Effect Settings) >>= f).Within s R :=
  fun w => by rw [run_bind, run_read]; exact hf w

theorem within_attempt {a : Effect α} (ha : a.Within s R) : (attempt a).Within s R := by
  intro w
  have h := ha w
  rw [run_attempt]
  rcases hr : a.run s w with ⟨(_ | _) | _, w'⟩ <;> rwa [hr] at h

theorem within_transact (keep : α → Bool) {a : Effect α} (ha : a.Within s R) :
    (transact keep a).Within s R := by
  intro w
  have h := ha w
  rw [run_transact]
  rcases hr : a.run s w with ⟨_ | x, w'⟩
  · exact .refl
  · rw [hr] at h
    dsimp only
    split
    · exact h
    · exact .refl

theorem within_atomically {a : Effect α} (ha : a.Within s R) : (atomically a).Within s R := by
  intro w
  have h := ha w
  rw [run_atomically]
  rcases hr : a.run s w with ⟨_ | x, w'⟩
  · exact .refl
  · rwa [hr] at h

theorem within_onLedger {f : Ledger → LedgerResult Ledger}
    (h : ∀ c l, f c.ledger = .ok l → R c { c with ledger := l }) : (onLedger f).Within s R := by
  refine within_of_single fun w => ?_
  rw [run_onLedger]
  rcases hf : f w.chain.ledger with _ | l
  · exact .inl rfl
  · exact .inr (h w.chain l hf)

theorem within_deposit {e : Event} (h : ∀ c, R c { c with events := c.events ++ [e] }) :
    (deposit e).Within s R :=
  fun w => .single (h w.chain)

theorem moving_deposit {party : AccountId → Prop} (e : Event) : (deposit e).Moving s party :=
  within_deposit fun c => .announce c e

end Effect

namespace Bank

open Effect

variable {s : Settings} {R : Chain → Chain → Prop}

theorem within_transfer {source dest : AccountId} {coin : Coin} {p : Preservation}
    (h : ∀ c l, c.ledger.transfer source dest coin p = .ok l → R c { c with ledger := l }) :
    (transfer source dest coin p).Within s R := by
  unfold transfer
  split
  · exact within_pure _
  · exact within_onLedger h

theorem within_burn {who : AccountId} {coin : Coin}
    (h : ∀ c n l, c.ledger.burn who coin = .ok (n, l) →
      R c { c with
        ledger := l
        burned := c.burned.insert coin.asset ((c.totalBurned coin.asset).addSat n) }) :
    (burn who coin).Within s R := by
  refine within_of_single fun w => ?_
  unfold burn
  split
  · exact .inl rfl
  · rw [run_bind, run_chain]
    dsimp only
    rcases hb : w.chain.ledger.burn who coin with _ | ⟨n, l⟩
    · exact .inl rfl
    · exact .inr (h w.chain n l hb)

variable {party : AccountId → Prop}

theorem moving_transfer {source dest : AccountId} (hs : party source) (hd : party dest) (c : Coin)
    (p : Preservation) : (transfer source dest c p).Moving s party :=
  within_transfer fun _ _ h => .pay hs hd h

theorem moving_burn {who : AccountId} (hw : party who) (c : Coin) : (burn who c).Moving s party :=
  within_burn fun _ _ _ h => .burn hw h

end Bank

namespace Router

open Effect

variable {s : Settings} {party : AccountId → Prop}

theorem moving_debit {who : AccountId} (hw : party who) (c : Coin) : (debit who c).Moving s party := by
  refine within_of_single fun w => ?_
  rw [debit, run_onLedger]
  rcases h : w.chain.ledger.burn who c with _ | ⟨n, l⟩
  · exact .inl rfl
  · exact .inr (.debit hw h)

theorem moving_failing (how : RouterFailure) {sender : AccountId} (hw : party sender) (c : Coin) :
    (failing how sender c).Moving s party := by
  cases how with
  | reject => exact within_fail _
  | failAfterDebit => exact within_bind (moving_debit hw c) fun _ => within_fail _
  | zeroOutput => exact within_bind (moving_debit hw c) fun _ => within_pure _

theorem moves_exchange {sender : AccountId} (hw : party sender) {tokenIn tokenOut : Coin}
    {ps : Pools} {w : World} (ht : w.chain.pools.Trades tokenIn tokenOut ps) :
    Moves party w.chain ((exchange sender tokenIn tokenOut ps).run s w).2.chain := by
  rcases hr : (exchange sender tokenIn tokenOut ps).run s w with ⟨_ | ⟨⟨⟩⟩, w'⟩
  · rcases exchange_error hr with e | ⟨n, l, hb, e⟩
    · exact e.symm ▸ .refl
    · exact e.symm ▸ .single (.debit hw hb)
  · obtain ⟨l, hx, rfl⟩ := exchange_ok.1 hr
    exact .single (.trade hw ht hx)

theorem moving_swapIn {sender : AccountId} (hw : party sender) (route : List HopIn) (tokenIn : Coin)
    (minOut : Amount) : (swapIn sender route tokenIn minOut).Moving s party := by
  refine within_bind_read ?_
  split
  · exact moving_failing _ hw _
  · split
    · exact within_fail _
    · intro w
      rw [run_bind_chain, run_bind_lift]
      rcases hc : w.chain.pools.carry tokenIn route with _ | ⟨out, ps⟩
      · exact .refl
      · dsimp only
        split
        · exact .refl
        · -- Answering the amount changes nothing after the exchange.
          have hx := moves_exchange (s := s) hw (.carried route hc)
          rw [run_bind]
          rcases hr : (exchange sender tokenIn out ps).run s w with ⟨_ | _, w'⟩ <;> rwa [hr] at hx

theorem moving_swapOut {sender : AccountId} (hw : party sender) (route : List HopOut)
    (maxIn : Amount) (tokenOut : Coin) : (swapOut sender route maxIn tokenOut).Moving s party := by
  cases route with
  | nil => exact within_fail _
  | cons first rest =>
    refine within_bind_read ?_
    split
    · exact moving_failing _ hw _
    · intro w
      rw [run_bind_chain, run_bind_lift]
      rcases hc : w.chain.pools.quote tokenOut (first :: rest) with _ | ⟨n, ps⟩
      · exact .refl
      · dsimp only
        split
        · exact .refl
        · have hx := moves_exchange (s := s) hw (.bought (first :: rest) n rfl hc)
          rw [run_bind]
          rcases hr : (exchange sender ⟨first.assetIn, n⟩ tokenOut ps).run s w with ⟨_ | _, w'⟩ <;>
            (unfold HopOut.next at hx; rwa [hr] at hx)

theorem moving_estimate (route : List HopOut) (tokenOut : Coin) :
    (estimate route tokenOut).Moving s party :=
  within_bind within_chain fun _ => within_bind (within_lift _) fun _ => within_pure _

end Router

namespace Conversion

open Effect

variable {s : Settings} {party : AccountId → Prop}

theorem moving_swapThrough (hf : party s.feeAccount) (base : Asset) (t : FeeToken) (fee : Coin) :
    (swapThrough base t fee).Moving s party := by
  refine within_bind_read (within_bind (Router.moving_swapIn hf _ _ _) fun n => ?_)
  split
  · exact within_bind (within_report _) fun _ => within_fail _
  · exact within_pure _

theorem moving_announce (e : Event) : (announce e).Moving s party := by
  refine within_bind_read ?_
  split
  · exact moving_deposit e
  · exact within_pure _

theorem moving_convert (hf : party s.feeAccount) (base : Asset) (fee : Coin) :
    (convert base fee).Moving s party := by
  unfold convert
  split
  · exact within_pure _
  · refine within_bind within_chain fun c => ?_
    split
    · exact within_pure _
    · rename_i t _
      refine within_bind (within_transact _ (within_attempt (moving_swapThrough hf base t fee)))
        fun r => ?_
      cases r with
      | ok out => exact within_bind (moving_announce _) fun _ => within_pure _
      | error e => exact within_bind (within_report _) fun _ => within_pure _

end Conversion

namespace Settlement

open Effect

variable {s : Settings} {party : AccountId → Prop}

theorem moving_dispose (hp : party s.communityPool) (how : Disposition) {source : AccountId}
    (hs : party source) (fee : Coin) : (dispose how source fee).Moving s party := by
  cases how with
  | burned => exact within_bind (Bank.moving_burn hs _) fun _ => within_pure _
  | communityPool =>
    refine within_bind_read ?_
    split
    · exact within_fail _
    · exact within_bind (Bank.moving_transfer hs hp _ _) fun _ => within_pure _

theorem within_payShare {R : Chain → Chain → Prop} {beneficiary : Option AccountId} {c : Coin}
    (h : ∀ who ∈ beneficiary, ∀ n,
      (Bank.transfer s.feeAccount who (c.withAmount n) .expendable).Within s R) :
    (payShare beneficiary c).Within s R := by
  cases beneficiary with
  | none => exact within_pure _
  | some who =>
    unfold payShare
    dsimp only
    split
    · exact within_pure _
    · refine within_bind within_chain fun _ => ?_
      split
      · exact within_bind_read (within_bind (h who rfl _) fun _ => within_pure _)
      · exact within_bind (within_report _) fun _ => within_pure _

theorem moving_payShare (hf : party s.feeAccount) {beneficiary : Option AccountId}
    (hb : ∀ who ∈ beneficiary, party who) (c : Coin) : (payShare beneficiary c).Moving s party :=
  within_payShare fun who hw _ => Bank.moving_transfer hf (hb who hw) _ _

variable (hf : party s.feeAccount) (hp : party s.communityPool)
include hf hp

theorem moving_settle (fee : Coin) {beneficiary : Option AccountId}
    (hb : ∀ who ∈ beneficiary, party who) (payer : Option AccountId) :
    (settle fee beneficiary payer).Moving s party := by
  refine within_bind_read (within_bind within_chain fun c => ?_)
  refine within_bind (Conversion.moving_convert hf _ _) fun r => ?_
  cases r with
  | unswappable =>
    refine within_bind (moving_dispose hp _ hf _) fun how => ?_
    exact within_bind (within_report _) fun _ => moving_deposit _
  | converted coin =>
    refine within_bind (moving_payShare hf hb _) fun revenue => ?_
    exact within_bind (Bank.moving_burn hf _) fun _ => moving_deposit _

theorem moving_charge (fee : Coin) {beneficiary : Option AccountId}
    (hb : ∀ who ∈ beneficiary, party who) (payer : Option AccountId) :
    (charge fee beneficiary payer).Moving s party := by
  unfold charge
  split
  · exact within_pure _
  · exact moving_settle hf hp fee hb payer

theorem moving_chargeFrom {payer : AccountId} (hs : party payer) (fee : Coin)
    {beneficiary : Option AccountId} (hb : ∀ who ∈ beneficiary, party who) :
    (chargeFrom payer fee beneficiary).Moving s party := by
  unfold chargeFrom
  split
  · exact within_pure _
  · exact within_bind_read <| within_bind (Bank.moving_transfer hs hf _ _) fun _ =>
      moving_settle hf hp fee hb _

end Settlement

namespace Swap

open Effect

variable {s : Settings} {party : AccountId → Prop}

theorem moving_beneficiary (assetIn assetOut : Asset) :
    (beneficiary assetIn assetOut).Moving s party := by
  refine within_bind_read ?_
  split
  · split
    · exact within_pure _
    · exact within_bind (within_report _) fun _ => within_pure _
  · exact within_pure _

theorem moving_acceptedFee {sender : AccountId} (hs : party sender) (fee : Coin) (firstHop : HopIn) :
    (acceptedFee sender fee firstHop).Moving s party := by
  refine within_bind within_chain fun c => ?_
  split
  · exact within_pure _
  · exact within_bind (within_report _) fun _ =>
      within_bind (Router.moving_swapIn hs _ _ _) fun _ => within_pure _

theorem moving_depositSwap (sender : AccountId) (pool : PoolId) (tokensIn tokensOut : Coin)
    (rate : Rate) : (depositSwap sender pool tokensIn tokensOut rate).Moving s party :=
  within_bind within_chain fun _ => moving_deposit _

theorem beneficiary_ok {assetIn assetOut : Asset} {w w' : World} {r : Option AccountId}
    (h : (beneficiary assetIn assetOut).run s w = (.ok r, w')) :
    w'.chain = w.chain ∧ ∀ who ∈ r, ∃ a, s.owners.get? a = some who := by
  rw [beneficiary, run_bind_read] at h
  split at h
  · split at h
    · rename_i owner ho
      obtain ⟨hr, rfl⟩ := Prod.mk.inj h
      obtain rfl := Except.ok.inj hr
      refine ⟨rfl, fun who hw => ?_⟩
      obtain rfl := Option.some.inj hw
      rcases Option.or_eq_some_iff.1 ho with e | ⟨-, e⟩
      · exact ⟨_, e⟩
      · exact ⟨_, e⟩
    · obtain ⟨hr, rfl⟩ := Prod.mk.inj h
      obtain rfl := Except.ok.inj hr
      exact ⟨rfl, fun who hw => by cases hw⟩
  · obtain ⟨hr, rfl⟩ := Prod.mk.inj h
    obtain rfl := Except.ok.inj hr
    exact ⟨rfl, fun who hw => by cases hw⟩

variable (hf : party s.feeAccount) (hp : party s.communityPool) {sender : AccountId}
  (hs : party sender)
include hf hp hs

theorem moving_chargeTakerFee (fee : Coin) (firstHop : HopIn) {beneficiary : Option AccountId}
    (hb : ∀ who ∈ beneficiary, party who) :
    (chargeTakerFee sender fee firstHop beneficiary).Moving s party := by
  unfold chargeTakerFee
  split
  · exact within_pure _
  · exact within_bind (moving_acceptedFee hs _ _) fun fee =>
      Settlement.moving_chargeFrom hf hp hs fee hb

variable (ho : ∀ a who, s.owners.get? a = some who → party who)
include ho

theorem moving_swapIn (route : List HopIn) (tokenIn : Coin) (minOut : Amount) :
    (swapIn sender route tokenIn minOut).Moving s party := by
  unfold swapIn
  split
  · refine within_bind within_chain fun c => within_bind' (moving_beneficiary _ _) fun r w w' hr => ?_
    -- Only the run that found the beneficiary tells that it is an owner.
    have hb : ∀ who ∈ r, party who := fun who hw =>
      have ⟨a, ha⟩ := (beneficiary_ok hr).2 who hw
      ho a who ha
    refine within_bind (moving_chargeTakerFee hf hp hs _ _ hb) (fun _ => ?_) w'
    exact within_bind (Router.moving_swapIn hs _ _ _) fun n =>
      within_bind (moving_depositSwap _ _ _ _ _) fun _ => within_pure _
  · exact within_fail _

theorem moving_swapOut (route : List HopOut) (maxIn : Amount) (tokenOut : Coin) :
    (swapOut sender route maxIn tokenOut).Moving s party := by
  unfold swapOut
  split
  · refine within_bind within_chain fun c => within_bind (Router.moving_estimate _ _) fun n => ?_
    refine within_bind (within_lift _) fun split => ?_
    split
    · exact within_fail _
    · refine within_bind' (moving_beneficiary _ _) fun r w w' hr => ?_
      have hb : ∀ who ∈ r, party who := fun who hw =>
        have ⟨a, ha⟩ := (beneficiary_ok hr).2 who hw
        ho a who ha
      refine within_bind (moving_chargeTakerFee hf hp hs _ _ hb) (fun _ => ?_) w'
      exact within_bind (Router.moving_swapOut hs _ _ _) fun n =>
        within_bind (moving_depositSwap _ _ _ _ _) fun _ => within_pure _
  · exact within_fail _

end Swap

namespace Sweep

open Effect

variable {s : Settings} {party : AccountId → Prop} (hf : party s.feeAccount)
include hf

theorem moving_visit (base a : Asset) : (visit base a).Moving s party := by
  refine within_bind within_chain fun c => within_bind_read ?_
  dsimp only
  split
  · exact within_pure _
  · exact within_bind (Conversion.moving_convert hf _ _) fun _ => within_pure _

theorem moving_visitAll (base : Asset) (as : List Asset) : (visitAll base as).Moving s party := by
  induction as with
  | nil => exact within_pure _
  | cons a as ih => exact within_bind (moving_visit hf base a) fun _ => ih

theorem moving_burnResidue (base : Asset) : (burnResidue base).Moving s party := by
  refine within_bind_read (within_bind within_chain fun c => ?_)
  dsimp only
  split
  · exact within_pure _
  · refine within_bind (within_attempt (Bank.moving_burn hf _)) fun r => ?_
    cases r with
    | ok _ => exact moving_deposit _
    | error _ => exact within_report _

theorem moving_idle (budget : Weight) : (idle budget).Moving s party := by
  refine within_bind within_chain fun c => within_bind_read ?_
  refine within_bind (moving_visitAll hf _ _) fun _ => ?_
  refine within_bind (fun w => .single (.remember _ _)) fun _ => ?_
  dsimp only
  split
  · exact within_bind (moving_burnResidue hf _) fun _ => within_pure _
  · exact within_pure _

end Sweep

end SwapFees
