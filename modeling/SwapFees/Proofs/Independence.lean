import SwapFees.Proofs.Ledger.Stable
import SwapFees.Proofs.Sender

namespace SwapFees

/-- Nothing was paid, but references were given or taken. An account without a provider may be gone
by that. -/
structure Account.Unpaid (a a' : Account) : Prop where
  providers : a'.providers = a.providers
  free : a'.free = a.free ∨ a.providers = 0 ∧ a'.free = 0

namespace Account.Unpaid

theorem refl (a : Account) : a.Unpaid a := ⟨rfl, .inl rfl⟩

theorem trans {a b c : Account} (h : a.Unpaid b) (h' : b.Unpaid c) : a.Unpaid c where
  providers := h'.providers.trans h.providers
  free := by
    have hsame := h.providers
    have hb := h.free
    rcases h'.free with hc | ⟨hnone, hc⟩
    · rw [hc]
      exact hb
    · exact .inr ⟨hsame ▸ hnone, hc⟩

end Account.Unpaid

namespace Ledger

/-- Only what is kept under `i` differs. A change of a token also gives and takes references. -/
structure Beside (i : Option AssetId) (l l' : Ledger) : Prop where
  tokens : ∀ id, i ≠ some id → l'.tokens.get? id = l.tokens.get? id
  accounts : i ≠ none → ∀ q, (l.account q).Unpaid (l'.account q)

variable {l l' : Ledger} {i : Option AssetId} {who : AccountId}

namespace Beside

theorem refl (i : Option AssetId) (l : Ledger) : Beside i l l := ⟨fun _ _ => rfl, fun _ _ => .refl _⟩

theorem trans {l'' : Ledger} (h : Beside i l l') (h' : Beside i l' l'') : Beside i l l'' where
  tokens id hid := (h'.tokens id hid).trans (h.tokens id hid)
  accounts hi q := (h.accounts hi q).trans (h'.accounts hi q)

theorem holds_token {id : AssetId} (h : Beside i l l') (hid : i ≠ some id) (q : AccountId) :
    l'.holds q (some id) = l.holds q (some id) := by
  rw [holds_some, holds_some, holding, holding?, h.tokens id hid]
  rfl

/-- What is kept under another number stays, but for native currency that nothing provides for. -/
theorem balance {b : Asset} (h : Beside i l l') (hb : i ≠ b.id?) (q : AccountId) :
    l'.balance q b = l.balance q b ∨
      b = .native ∧ (l.account q).providers = 0 ∧ l'.balance q b = 0 := by
  cases b with
  | native => exact (h.accounts hb q).free.imp_right fun hgone => ⟨rfl, hgone⟩
  | issued id => exact .inl (Word.ext (h.holds_token hb q))
  | bridged id => exact .inl (Word.ext (h.holds_token hb q))

end Beside

theorem beside_putAccount {a : Account} (hp : a.providers = (l.account who).providers)
    (hf : a.free = (l.account who).free) : Beside i l (l.putAccount who a) where
  tokens _ _ := by rw [tokens_putAccount]
  accounts _ q := by
    by_cases hq : q = who
    · rw [hq, account_putAccount_self]
      split
      · rename_i hgone
        have hnone : (l.account who).providers = 0 := hp ▸ hgone.1
        exact ⟨hnone.symm, .inr ⟨hnone, rfl⟩⟩
      · exact ⟨hp, .inl hf⟩
    · rw [account_putAccount_of_ne _ hq]
      exact .refl _

theorem beside_putToken (id : AssetId) (t : Token) : Beside (some id) l (l.putToken id t) where
  tokens _ hj := SortedMap.get?_insert_of_ne _ _ fun e => hj (congrArg some e)
  accounts _ _ := .refl _

theorem beside_giveReference (t : Token) : Beside i l (l.giveReference t who) := by
  apply beside_putAccount
  · split <;> rfl
  · split <;> rfl

theorem beside_takeReference (t : Token) : Beside i l (l.takeReference t who) := by
  apply beside_putAccount
  · split <;> rfl
  · split <;> rfl

theorem beside_takeHolding (id : AssetId) (t : Token) (who : AccountId) (b n : Amount) :
    Beside (some id) l (l.takeHolding id t who b n).2 := by
  unfold takeHolding
  dsimp only
  split
  · exact (beside_giveReference t).trans (beside_putToken id _)
  · exact beside_putToken id _

theorem beside_addHolding (id : AssetId) (t : Token) (who : AccountId) (n : Amount) :
    Beside (some id) l (l.addHolding id t who n) := by
  unfold addHolding
  split
  · exact beside_putToken id _
  · exact (beside_takeReference t).trans (beside_putToken id _)

theorem beside_increase {id : AssetId} {n : Amount} (h : l.increase id who n = .ok l') :
    Beside (some id) l l' := by
  rcases increase_ok h with ⟨-, hsame⟩ | ⟨t, -, hadded⟩
  · rw [hsame]
    exact .refl _ _
  · rw [hadded]
    exact beside_addHolding id t who n

theorem beside_setSupply (id : AssetId) (n : Amount) : Beside (some id) l (l.setSupply id n) := by
  unfold setSupply
  split
  · exact .refl _ _
  · exact beside_putToken id _

theorem stable_beside (i : Option AssetId) (l : Ledger) : StableUnder i (Beside i l) where
  issued hi _ _ h := ⟨h.tokens, fun hne => absurd hi hne⟩
  setFree hi _ _ _ h := by
    refine ⟨fun id hid => ?_, fun hne => absurd hi hne⟩
    rw [tokens_setFree]
    exact h.tokens id hid
  takeHolding hi _ _ _ htake h := by
    have hstep := congrArg Prod.snd htake
    dsimp only at hstep
    rw [hi] at h ⊢
    rw [← hstep]
    exact h.trans (beside_takeHolding _ _ _ _ _)
  increase hi hincrease h := by
    rw [hi] at h ⊢
    exact h.trans (beside_increase hincrease)
  setSupply n hi h := by
    rw [hi] at h ⊢
    exact h.trans (beside_setSupply _ n)

end Ledger

open Effect

def Chain.Beside (i : Option AssetId) (c c' : Chain) : Prop := c.ledger.Beside i c'.ledger

theorem Chain.beside_of_moves {i : Option AssetId} {c c' : Chain}
    (h : Relation.ReflTransGen (Chain.Beside i) c c') : c.Beside i c' := by
  induction h with
  | refl => exact .refl i c.ledger
  | tail _ hstep ih => exact Ledger.Beside.trans ih hstep

namespace Bank

variable {s : Settings} {i : Option AssetId} {c : Coin} (hc : c.asset.id? = i)
include hc

theorem within_beside_transfer (source dest : AccountId) (p : Preservation) :
    (transfer source dest c p).Within s (Chain.Beside i) := by
  apply within_transfer
  intro chain l h
  rw [← hc]
  exact (Ledger.stable_beside _ chain.ledger).transfer h (.refl _ _)

theorem within_beside_burn (who : AccountId) : (burn who c).Within s (Chain.Beside i) := by
  apply within_burn
  intro chain n l h
  rw [← hc]
  exact (Ledger.stable_beside _ chain.ledger).burn h (.refl _ _)

end Bank

theorem Router.within_beside_credit {s : Settings} {c : Coin} (who : AccountId) :
    (credit who c).Within s (Chain.Beside c.asset.id?) := by
  unfold credit
  split
  · exact within_pure _
  · apply within_onLedger
    intro chain l h
    exact (Ledger.stable_beside _ chain.ledger).mint h (.refl _ _)

namespace Settlement

variable {s : Settings} {w : World} {fee : Coin}

/-- A fee in the base asset is not converted, so that settling it concerns nothing else. -/
theorem settle_beside (hbase : fee.asset = w.chain.base) (beneficiary payer : Option AccountId) :
    w.chain.Beside fee.asset.id? ((settle fee beneficiary payer).run s w).2.chain := by
  have hkept : (Conversion.convert w.chain.base fee).run s w = (.ok (.converted fee), w) := by
    unfold Conversion.convert
    rw [if_pos hbase]
    rfl
  apply Chain.beside_of_moves
  unfold settle
  rw [run_bind_read, run_bind_chain, run_bind, hkept]
  refine within_bind (within_payShare fun who _ n => ?_) (fun revenue => ?_) w
  · exact Bank.within_beside_transfer (c := fee.withAmount n) rfl _ _ _
  · refine within_bind (Bank.within_beside_burn ?_ _) fun _ => within_deposit fun c => ?_
    · cases revenue <;> rfl
    · exact Ledger.Beside.refl _ c.ledger

theorem chargeFrom_beside (hbase : fee.asset = w.chain.base) (payer : AccountId)
    (beneficiary : Option AccountId) :
    w.chain.Beside fee.asset.id? ((chargeFrom payer fee beneficiary).run s w).2.chain := by
  unfold chargeFrom
  split
  · exact Ledger.Beside.refl _ _
  rename_i hfee
  rw [run_bind_read, run_bind]
  have hpaid := Chain.beside_of_moves
    (Bank.within_beside_transfer (s := s) (c := fee) rfl payer s.feeAccount .preserve w)
  rcases hr : (Bank.transfer payer s.feeAccount fee .preserve).run s w with ⟨e | ⟨⟩, w₁⟩
  · rw [hr] at hpaid
    exact hpaid
  · rw [hr] at hpaid
    obtain ⟨l, -, hw⟩ := (Bank.transfer_ok (Coin.amount_ne_zero hfee)).1 hr
    have hbase₁ : fee.asset = w₁.chain.base := by rw [hw]; exact hbase
    exact Ledger.Beside.trans hpaid (settle_beside hbase₁ beneficiary (some payer))

end Settlement

/-- What is done with a single coin. -/
inductive Payment
  | transfer (source dest : AccountId) (p : Preservation)
  | burn (who : AccountId)
  | mint (who : AccountId)
  | fee (payer : AccountId) (beneficiary : Option AccountId)

namespace Payment

def perform (c : Coin) : Payment → Effect Unit
  | transfer source dest p => Bank.transfer source dest c p
  | burn who => Bank.burn who c
  | mint who => Router.credit who c
  | fee payer beneficiary => Settlement.chargeFrom payer c beneficiary

/-- Whether only the asset of the coin is concerned: a fee in another asset than the base asset is
converted. -/
def Alone (base : Asset) (c : Coin) : Payment → Prop
  | fee _ _ => c.asset = base
  | _ => True

variable {s : Settings} {w : World}

theorem perform_beside {c : Coin} (p : Payment) (halone : p.Alone w.chain.base c) :
    w.chain.Beside c.asset.id? ((p.perform c).run s w).2.chain := by
  cases p with
  | transfer source dest p =>
    exact Chain.beside_of_moves (Bank.within_beside_transfer rfl source dest p w)
  | burn who => exact Chain.beside_of_moves (Bank.within_beside_burn rfl who w)
  | mint who => exact Chain.beside_of_moves (Router.within_beside_credit who w)
  | fee payer beneficiary => exact Settlement.chargeFrom_beside halone payer beneficiary

/-- However a payment ends, no balance in an asset of another number differs by it, except that an
account without a provider may be gone with its native currency. -/
theorem perform_keeps_others {a b : Asset} (hids : a.id? ≠ b.id?) (p : Payment) (n : Amount)
    (halone : p.Alone w.chain.base ⟨a, n⟩) (who : AccountId) :
    let c := ((p.perform ⟨a, n⟩).run s w).2.chain
    c.balance who b = w.chain.balance who b ∨
      b = .native ∧ (w.chain.ledger.account who).providers = 0 ∧ c.balance who b = 0 :=
  (perform_beside p halone).balance hids who

/-- A fee in token 1, which is the base asset here, leaves the payer its native currency. -/
theorem perform_keeps_others_in_market :
    let w := Swap.market 1 { providers := 1, sufficients := 1, free := 50 } (.issued 1)
    let p : Payment := .fee 9 none
    let paid := (p.perform ⟨.issued 1, 20⟩).run Swap.plainSettings w
    (Asset.issued 1).id? ≠ Asset.native.id? ∧ p.Alone w.chain.base ⟨.issued 1, 20⟩ ∧
      paid.1 = .ok () ∧ paid.2.chain.balance 9 (.issued 1) = 80 ∧
      paid.2.chain.balance 9 .native = w.chain.balance 9 .native := by
  intro w p paid
  have hids : (Asset.issued 1).id? ≠ Asset.native.id? := by decide
  have halone : p.Alone w.chain.base ⟨.issued 1, 20⟩ := rfl
  have hprovided : (w.chain.ledger.account 9).providers ≠ 0 := by decide
  have hkept := @perform_keeps_others Swap.plainSettings w _ _ hids p 20 halone 9
  exact ⟨hids, halone, by decide, by decide, hkept.resolve_right fun hgone => hprovided hgone.2.1⟩

/-- Issued and bridged tokens of one number are the same balance, so that paying one pays the other
too. And where no least balance is set, an account may live by token 1 only: it is gone with the
last of it, with 10 of the native currency. -/
theorem perform_changes_others :
    let w := Swap.market 1 { providers := 1, sufficients := 1, free := 50 } .native
    let paid := (perform ⟨.issued 1, 40⟩ (.transfer 9 8 .expendable)).run Swap.plainSettings w
    let thin := Swap.market 0 { sufficients := 1, free := 10 } .native
    let burned := (perform ⟨.issued 1, 100⟩ (.burn 9)).run Swap.plainSettings thin
    (Asset.issued 1 ≠ .bridged 1 ∧ paid.1 = .ok () ∧
        paid.2.chain.balance 9 (.bridged 1) ≠ w.chain.balance 9 (.bridged 1)) ∧
      (Asset.issued 1).id? ≠ Asset.native.id? ∧ burned.1 = .ok () ∧
        thin.chain.balance 9 .native = 10 ∧ burned.2.chain.balance 9 .native = 0 := by
  decide

end Payment

end SwapFees
