import SwapFees.Proofs.Divisors
import SwapFees.Settlement

namespace SwapFees

namespace DispatchError

inductive OfLedger : DispatchError → Prop
  | token (e : TokenError) : OfLedger (.token e)
  | arithmetic (e : ArithmeticError) : OfLedger (.arithmetic e)
  | assets (e : AssetError) : OfLedger (.assets e)

inductive OfSettlement : DispatchError → Prop
  | ledger {e : DispatchError} (h : e.OfLedger) : OfSettlement e
  | communityPool : OfSettlement .communityPoolUnavailable

theorem OfSettlement.ne_pool {e : DispatchError} (h : e.OfSettlement) (r : PoolError) :
    e ≠ .pool r := by
  rintro rfl
  cases h with
  | ledger h => cases h

end DispatchError

namespace Ledger

variable {l : Ledger} {id : AssetId} {who source dest : AccountId} {n : Amount} {e : DispatchError}

theorem checkDeposit_refused (h : l.checkDeposit who n = .error e) : e.OfLedger := by
  grind [checkDeposit, DispatchError.OfLedger]

theorem checkIncrease_refused {minted : Bool} (h : l.checkIncrease id who n minted = .error e) :
    e.OfLedger := by
  grind [checkIncrease, DispatchError.OfLedger]

theorem increase_refused (h : l.increase id who n = .error e) : e.OfLedger := by
  grind [increase, checkIncrease_refused, DispatchError.OfLedger]

theorem map_refused {α β : Type} {x : LedgerResult α} {f : α → β} (h : x.map f = .error e) :
    x = .error e := by
  cases x with
  | error d => simpa [Except.map] using h
  | ok a => cases h

theorem mint_refused {c : Coin} (h : l.mint who c = .error e) : e.OfLedger := by
  unfold mint at h
  split at h
  · grind [mintNative, DispatchError.OfLedger]
  · unfold mintToken at h
    split at h
    · cases h
      exact .arithmetic _
    · exact increase_refused (map_refused h)

theorem burn_refused {c : Coin} (h : l.burn who c = .error e) : e.OfLedger := by
  unfold burn at h
  split at h
  · have := map_refused h
    grind [burnNative, DispatchError.OfLedger]
  · grind [burnToken, DispatchError.OfLedger]

theorem transfer_refused {c : Coin} {p : Preservation} (h : l.transfer source dest c p = .error e) :
    e.OfLedger := by
  unfold transfer at h
  split at h
  · grind [transferNative, checkDeposit_refused, DispatchError.OfLedger]
  · grind [transferToken, checkIncrease_refused, DispatchError.OfLedger]

end Ledger

namespace Effect

variable {α β : Type} {s : Settings} {w : World}

/-- The run ends with an answer, if only a refusal. -/
def Faultless (a : Effect α) (s : Settings) (w : World) : Prop := Answer.Faultless (a.run s w).1

theorem faultless_pure (x : α) : (pure x : Effect α).Faultless s w := Answer.faultless_ok x

theorem faultless_fail (e : DispatchError) : (fail e : Effect α).Faultless s w :=
  Answer.faultless_refuse e

theorem faultless_modifyChain (f : Chain → Chain) : (modifyChain f).Faultless s w :=
  Answer.faultless_ok ()

theorem faultless_report (e : LogEntry) : (report e).Faultless s w := Answer.faultless_ok ()

theorem faultless_deposit (e : Event) : (deposit e).Faultless s w := Answer.faultless_ok ()

theorem faultless_lift {x : Answer α} (h : x.Faultless) : (lift x).Faultless s w := by
  rw [Faultless, run_lift]
  exact h

/-- The rest of a sequence need only be known from the worlds in which it is started. -/
theorem faultless_bind {a : Effect α} {f : α → Effect β} (ha : a.Faultless s w)
    (hf : ∀ x v, a.run s w = (.ok x, v) → (f x).Faultless s v) : (a >>= f).Faultless s w := by
  unfold Faultless at ha ⊢
  rw [run_bind]
  rcases hr : a.run s w with ⟨e | x, v⟩
  · rw [hr] at ha
    exact fun fault h => ha fault (congrArg Except.error (Except.error.inj h))
  · exact hf x v hr

theorem faultless_bind_read {f : Settings → Effect β} (hf : (f s).Faultless s w) :
    ((read : Effect Settings) >>= f).Faultless s w := hf

theorem faultless_bind_chain {f : Chain → Effect β} (hf : (f w.chain).Faultless s w) :
    (chain >>= f).Faultless s w := hf

theorem faultless_onLedger (f : Ledger → LedgerResult Ledger) : (onLedger f).Faultless s w := by
  rw [Faultless, run_onLedger]
  split
  · exact Answer.faultless_ok _
  · exact Answer.faultless_refuse _

theorem faultless_atomically {a : Effect α} (h : a.Faultless s w) : (atomically a).Faultless s w := by
  unfold Faultless at h ⊢
  rw [run_atomically]
  rcases hr : a.run s w with ⟨e | x, v⟩
  · rw [hr] at h
    exact h
  · exact Answer.faultless_ok _

def Succeeds (a : Effect α) (s : Settings) (w : World) : Prop := ∃ x v, a.run s w = (.ok x, v)

theorem Succeeds.faultless {a : Effect α} (h : a.Succeeds s w) : a.Faultless s w := by
  obtain ⟨x, v, h⟩ := h
  rw [Faultless, h]
  exact Answer.faultless_ok x

theorem succeeds_pure (x : α) : (pure x : Effect α).Succeeds s w := ⟨x, w, rfl⟩

theorem succeeds_bind {a : Effect α} {f : α → Effect β} (ha : a.Succeeds s w)
    (hf : ∀ x v, a.run s w = (.ok x, v) → (f x).Succeeds s v) : (a >>= f).Succeeds s w := by
  obtain ⟨x, v, hx⟩ := ha
  obtain ⟨y, u, hy⟩ := hf x v hx
  exact ⟨y, u, bind_ok.2 ⟨x, v, hx, hy⟩⟩

theorem succeeds_attempt {a : Effect α} (h : a.Faultless s w) : (attempt a).Succeeds s w := by
  unfold Faultless at h
  unfold Succeeds
  rw [run_attempt]
  rcases hr : a.run s w with ⟨(e | f) | x, v⟩
  · exact ⟨_, _, rfl⟩
  · rw [hr] at h
    exact absurd rfl (h f)
  · exact ⟨_, _, rfl⟩

theorem succeeds_transact (keep : α → Bool) {a : Effect α} (h : a.Succeeds s w) :
    (transact keep a).Succeeds s w := by
  obtain ⟨x, v, h⟩ := h
  exact ⟨x, _, by rw [run_transact, h]⟩

variable {P Q : DispatchError → Prop}

/-- At worst the run is refused, with an error that has the property. -/
def AtWorst (a : Effect α) (s : Settings) (w : World) (P : DispatchError → Prop) : Prop :=
  ∀ f w', a.run s w = (.error f, w') → ∃ e, f = .error e ∧ P e

theorem AtWorst.imp {a : Effect α} (h : a.AtWorst s w P) (hPQ : ∀ e, P e → Q e) :
    a.AtWorst s w Q := by
  intro f w' hrun
  obtain ⟨e, he, hp⟩ := h f w' hrun
  exact ⟨e, he, hPQ e hp⟩

theorem Succeeds.atWorst {a : Effect α} (h : a.Succeeds s w) : a.AtWorst s w P := by
  obtain ⟨x, v, hx⟩ := h
  intro f w' hrun
  rw [hx] at hrun
  cases hrun

theorem AtWorst.faultless {a : Effect α} (h : a.AtWorst s w P) : a.Faultless s w := by
  intro f hf
  obtain ⟨e, he, -⟩ := h _ _ (Prod.ext hf rfl)
  cases he

theorem atWorst_pure (x : α) : (pure x : Effect α).AtWorst s w P := (succeeds_pure x).atWorst

theorem atWorst_fail {e : DispatchError} (h : P e) : (fail e : Effect α).AtWorst s w P := by
  rintro f w' ⟨⟩
  exact ⟨e, rfl, h⟩

theorem atWorst_onLedger {f : Ledger → LedgerResult Ledger}
    (h : ∀ e, f w.chain.ledger = .error e → P e) : (onLedger f).AtWorst s w P := by
  intro g w' hrun
  rw [run_onLedger] at hrun
  split at hrun
  · cases hrun
  · rename_i e he
    cases hrun
    exact ⟨e, rfl, h e he⟩

theorem atWorst_bind {a : Effect α} {f : α → Effect β} (ha : a.AtWorst s w P)
    (hf : ∀ x v, a.run s w = (.ok x, v) → (f x).AtWorst s v P) : (a >>= f).AtWorst s w P := by
  intro g w' hrun
  rw [run_bind] at hrun
  rcases hr : a.run s w with ⟨e | x, v⟩
  · rw [hr] at hrun
    cases hrun
    exact ha g w' hr
  · rw [hr] at hrun
    exact hf x v hr g w' hrun

theorem atWorst_bind_read {f : Settings → Effect β} (hf : (f s).AtWorst s w P) :
    ((read : Effect Settings) >>= f).AtWorst s w P := hf

theorem atWorst_bind_chain {f : Chain → Effect β} (hf : (f w.chain).AtWorst s w P) :
    (chain >>= f).AtWorst s w P := hf

end Effect

open Effect DispatchError

variable {s : Settings}

namespace Bank

theorem atWorst_transfer (source dest : AccountId) (c : Coin) (p : Preservation) (w : World) :
    (transfer source dest c p).AtWorst s w OfLedger := by
  unfold transfer
  split
  · exact atWorst_pure _
  · exact atWorst_onLedger fun _ => Ledger.transfer_refused

theorem atWorst_burn (who : AccountId) (c : Coin) (w : World) :
    (burn who c).AtWorst s w OfLedger := by
  unfold burn
  split
  · exact atWorst_pure _
  · refine atWorst_bind_chain ?_
    split
    · rename_i e he
      exact atWorst_fail (Ledger.burn_refused he)
    · exact Succeeds.atWorst ⟨_, _, rfl⟩

end Bank

namespace Router

theorem atWorst_debit (who : AccountId) (c : Coin) (w : World) :
    (debit who c).AtWorst s w OfLedger :=
  atWorst_onLedger fun _ h => Ledger.burn_refused (Ledger.map_refused h)

theorem atWorst_credit (who : AccountId) (c : Coin) (w : World) :
    (credit who c).AtWorst s w OfLedger := by
  unfold credit
  split
  · exact atWorst_pure _
  · exact atWorst_onLedger fun _ => Ledger.mint_refused

theorem atWorst_exchange (sender : AccountId) (tokenIn tokenOut : Coin) (ps : Pools) (w : World) :
    (exchange sender tokenIn tokenOut ps).AtWorst s w OfLedger :=
  atWorst_bind (atWorst_debit _ _ w) fun _ v _ =>
    atWorst_bind (atWorst_credit _ _ v) fun _ _ _ => Succeeds.atWorst ⟨_, _, rfl⟩

end Router

end SwapFees
