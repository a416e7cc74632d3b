import SwapFees.Proofs.Independence
import SwapFees.Proofs.Ledger.Alive
import SwapFees.Proofs.Ledger.Plain

namespace SwapFees

namespace Ledger

variable {l l' : Ledger} {who : AccountId} {i : Option AssetId} {id : AssetId} {t : Token}
  {c : Coin} {n m b : Amount}

/-- What a burn of `n` takes of a balance: all of it if the rest would be under the least. -/
def taken (l : Ledger) (who : AccountId) (i : Option AssetId) (n : Nat) : Nat :=
  if l.holds who i < n + l.least i then l.holds who i else n

theorem taken_of_kept {n : Nat} (h : n + l.least i ≤ l.holds who i) : l.taken who i n = n :=
  if_neg (Nat.not_lt.2 h)

theorem taken_of_lost {n : Nat} (h : l.holds who i < n + l.least i) :
    l.taken who i n = l.holds who i :=
  if_pos h

theorem taken_le {n : Nat} (h : n ≤ l.holds who i) : l.taken who i n ≤ l.holds who i := by
  unfold taken
  split
  · exact Nat.le_refl _
  · exact h

theorem taken_eq_iff {n : Nat} :
    l.taken who i n = n ↔ l.holds who i = n ∨ n + l.least i ≤ l.holds who i := by
  unfold taken
  split <;> omega

/-- Of what `who` has under `i`, and of what is issued under it, that much is gone. -/
structure Takes (l : Ledger) (who : AccountId) (i : Option AssetId) (n : Nat) (l' : Ledger) :
    Prop where
  amount_le : n ≤ l.holds who i
  held : l'.holds who i + l.taken who i n = l.holds who i
  issued : ∀ j, l'.issued j + (if j = i then l.taken who i n else 0) = l.issued j

theorem kept_iff (hle : n ≤ l.free who) :
    l.minBalance ≤ (l.free who).subSat n ↔ n.toNat + l.least none ≤ l.holds who none := by
  rw [Word.le_def] at hle ⊢
  rw [Word.toNat_subSat, least_none, holds_none]
  omega

theorem free_setFree_of_alive (h : l.Alive) :
    (l.setFree who ((l.free who).subSat n)).free who =
      if l.minBalance ≤ (l.free who).subSat n then (l.free who).subSat n else 0 := by
  rw [setFree_eq]
  change ((l.putAccount who _).account who).free = _
  rw [account_putAccount_self]
  split
  · rename_i hgone
    split
    · -- What is kept keeps its providers, so the account was as good as gone before.
      rename_i hkept
      have hheld : l.minBalance ≤ (l.account who).free := Nat.le_trans hkept (Nat.sub_le _ _)
      unfold Account.keeping at hgone
      rw [if_pos hkept] at hgone
      simp only [hheld, if_true] at hgone
      have hnone : l.free who = 0 := by
        apply Classical.byContradiction
        intro hfree
        exact h who hfree hgone
      rw [hnone]
      exact Word.ext (Nat.zero_sub _).symm
    · rfl
  · exact Account.free_keeping _ _ _

theorem holds_setFree_rest (h : l.Alive) (hle : n ≤ l.free who) :
    (l.setFree who ((l.free who).subSat n)).holds who none + l.taken who none n.toNat =
      l.holds who none := by
  rw [holds_none, free_setFree_of_alive h]
  by_cases hkept : l.minBalance ≤ (l.free who).subSat n
  · rw [if_pos hkept, taken_of_kept ((kept_iff hle).1 hkept)]
    exact Nat.sub_add_cancel hle
  · rw [if_neg hkept, taken_of_lost (Nat.lt_of_not_le (mt (kept_iff hle).2 hkept)), Word.toNat_zero]
    exact Nat.zero_add _

/-- The rest is dropped from what is issued, even before the coin is. -/
theorem issuance_setFree_rest (hle : n ≤ l.free who) (hcover : l.free who ≤ l.issuance) :
    (l.setFree who ((l.free who).subSat n)).issuance.toNat + l.taken who none n.toNat =
      l.issuance.toNat + n.toNat := by
  rw [setFree_eq]
  dsimp only
  by_cases hkept : l.minBalance ≤ (l.free who).subSat n
  · rw [if_pos hkept, taken_of_kept ((kept_iff hle).1 hkept)]
  · rw [if_neg hkept, taken_of_lost (Nat.lt_of_not_le (mt (kept_iff hle).2 hkept))]
    rw [Word.le_def] at hle hcover
    simp only [Word.toNat_subSat, holds_none]
    omega

theorem burnNative_takes (h : l.Alive) (hcovered : l.Covered) (hb : l.burnNative who n = .ok l') :
    l.Takes who none n.toNat l' := by
  obtain ⟨hle, issuance, hissuance, hl⟩ := burnNative_ok hb
  have hcover : l.free who ≤ l.issuance :=
    Nat.le_trans (l.free_le_circulating who) (hcovered none)
  have hbook := issuance_setFree_rest hle hcover
  have htaken : l.taken who none n.toNat ≤ l.issuance.toNat := Nat.le_trans (taken_le hle) hcover
  rw [hl]
  refine ⟨hle, holds_setFree_rest h hle, fun j => ?_⟩
  cases j with
  | none =>
    rw [if_pos rfl, issued, issued, hissuance, Word.toNat_subSat]
    omega
  | some id =>
    rw [if_neg (by simp), issued, issued, supply, supply, tokens_setFree]
    rfl

/-- The books of a token count as burned whatever is taken. -/
theorem burnToken_takes (hcovered : l.Covered) (hn : n ≠ 0)
    (hb : l.burnToken id who n = .ok (m, l')) :
    l.Takes who (some id) n.toNat l' ∧ m.toNat = l.taken who (some id) n.toNat := by
  rcases burnToken_ok hb with ⟨hz, -⟩ | ⟨t, b, l₁, ht, hheld, hle, htake, hl⟩
  · exact absurd hz hn
  obtain ⟨-, -, hsum, hs, htokens⟩ := takeHolding_ok ht hheld hle htake
  obtain ⟨-, -, -, hbooks⟩ := takeHolding_books ht hheld hle htake
  have hle : n.toNat ≤ b.toNat := hle
  have hholds : l.holds who (some id) = b.toNat := congrArg Word.toNat (holding_eq ht hheld)
  have hcover : b.toNat ≤ t.supply.toNat := by
    rw [← hholds, ← issued_some ht]
    exact Nat.le_trans (l.holds_le_circulating who _) (hcovered _)
  have htaken : m.toNat = l.taken who (some id) n.toNat := by
    have hrest := @holds_takeHolding l id t who b n
    rw [htake] at hrest
    dsimp only at hrest
    unfold taken
    rw [hholds, least_some ht]
    by_cases hend : b.subSat n < t.minBalance
    · rw [if_pos hend] at hrest
      rw [Word.lt_def, Word.toNat_subSat] at hend
      rw [if_pos (by omega)]
      omega
    · rw [if_neg hend] at hrest
      rw [Word.lt_def, Word.toNat_subSat] at hend
      rw [if_neg (by omega)]
      omega
  have hsupply : l₁.tokens.get? id = some { t with holdings := hs } := by
    rw [htokens, SortedMap.get?_insert_self]
  refine ⟨⟨by rw [hholds]; exact hle, ?_, fun j => ?_⟩, htaken⟩
  · rw [hl, (sameFor_setSupply l₁ id _ who).holds, ← htaken, hholds, Nat.add_comm]
    exact hsum
  · rw [hl, (setSupply_books hsupply _ j).2, ← htaken]
    split
    · rename_i hj
      rw [hj, issued_some ht, Word.toNat_subSat]
      omega
    · exact hbooks j

theorem burn_takes (h : l.Alive) (hcovered : l.Covered) (hc : c.amount ≠ 0)
    (hb : l.burn who c = .ok (n, l')) :
    l.Takes who c.asset.id? c.amount.toNat l' ∧
      n.toNat = if c.asset = .native then c.amount.toNat
        else l.taken who c.asset.id? c.amount.toNat := by
  rw [← if_congr Asset.id?_eq_none rfl rfl]
  unfold burn at hb
  split at hb
  · rename_i hid
    rw [hid, if_pos rfl]
    rcases hrun : l.burnNative who c.amount with e | l₁
    · rw [hrun] at hb
      cases hb
    · rw [hrun] at hb
      obtain ⟨hcount, hl⟩ := Prod.mk.inj (Except.ok.inj hb)
      rw [← hcount, ← hl]
      exact ⟨burnNative_takes h hcovered hrun, rfl⟩
  · rename_i id hid
    rw [hid, if_neg (Option.some_ne_none id)]
    exact burnToken_takes hcovered hc hb

/-- The burn ends the holding that alone keeps the account alive, and native currency with it. -/
def Forfeits (l : Ledger) (who : AccountId) (c : Coin) : Prop :=
  ∃ id t, c.asset.id? = some id ∧ l.tokens.get? id = some t ∧
    l.holds who (some id) < c.amount.toNat + t.minBalance.toNat ∧ t.sufficient = true ∧
    (l.account who).providers = 0 ∧ (l.account who).sufficients = 1 ∧ l.free who ≠ 0

/-- A reference given back costs the native currency if it was a sufficient one and the last. -/
theorem free_giveReference_iff (h : l.Alive) :
    (l.giveReference t who).free who = l.free who ↔
      ¬ (t.sufficient = true ∧ (l.account who).providers = 0 ∧ (l.account who).sufficients = 1 ∧
        l.free who ≠ 0) := by
  have halive := h who
  unfold giveReference free at *
  rw [account_putAccount_self]
  cases t.sufficient with
  | false =>
    simp only [Bool.false_eq_true, if_false, false_and, not_false_iff, iff_true]
    split
    · rename_i hgone
      apply Classical.byContradiction
      intro hfree
      exact halive (Ne.symm hfree) hgone
    · rfl
  | true =>
    simp only [if_true, true_and]
    split
    · rename_i hgone
      constructor
      · intro hfree hforfeits
        exact hforfeits.2.2 hfree.symm
      · intro hkept
        apply Classical.byContradiction
        intro hfree
        have hreferred := halive (Ne.symm hfree)
        exact hkept ⟨hgone.1, by omega, Ne.symm hfree⟩
    · rename_i hkept
      simp only [true_iff]
      intro hforfeits
      exact hkept ⟨hforfeits.1, by rw [hforfeits.2.1]⟩

theorem free_takeHolding_iff (h : l.Alive) (hn : n ≤ b) :
    (l.takeHolding id t who b n).2.free who = l.free who ↔
      ¬ (b.toNat < n.toNat + t.minBalance.toNat ∧ t.sufficient = true ∧
        (l.account who).providers = 0 ∧ (l.account who).sufficients = 1 ∧ l.free who ≠ 0) := by
  have hle : n.toNat ≤ b.toNat := hn
  have hend : b.subSat n < t.minBalance ↔ b.toNat < n.toNat + t.minBalance.toNat := by
    rw [Word.lt_def, Word.toNat_subSat]
    omega
  unfold takeHolding
  dsimp only
  split
  · rename_i hlost
    rw [and_iff_right (hend.1 hlost)]
    exact free_giveReference_iff h
  · rename_i hkept
    exact iff_of_true rfl fun hforfeits => hkept (hend.2 hforfeits.1)

theorem burn_forfeits_iff (h : l.Alive) (hc : c.amount ≠ 0) (hid : c.asset.id? = some id)
    (hb : l.burn who c = .ok (n, l')) : l'.free who = l.free who ↔ ¬ l.Forfeits who c := by
  unfold burn at hb
  rw [hid] at hb
  rcases burnToken_ok hb with ⟨hz, -⟩ | ⟨t, b, l₁, ht, hheld, hle, htake, hl⟩
  · exact absurd hz hc
  have hholds : l.holds who (some id) = b.toNat := congrArg Word.toNat (holding_eq ht hheld)
  have hfree : l'.free who = (l.takeHolding id t who b c.amount).2.free who := by
    rw [hl, htake]
    exact congrArg Account.free (sameFor_setSupply l₁ id _ who).account
  rw [hfree, free_takeHolding_iff h hle, ← hholds]
  apply not_congr
  constructor
  · intro hlost
    exact ⟨id, t, hid, ht, hlost⟩
  · intro hforfeits
    obtain ⟨j, u, hj, hu, hlost⟩ := hforfeits
    rw [hid] at hj
    cases hj
    rw [ht] at hu
    cases hu
    exact hlost

end Ledger

open Ledger

/-- The coin is gone from the balance of `who` and from what is issued, and is counted; nothing else
of any balance, of the issuance or of the counts differs. -/
structure Chain.BurnsExactly (c : Chain) (who : AccountId) (coin : Coin) (c' : Chain) : Prop where
  held : ∀ q j, c'.ledger.holds q j + coin.heldBy who q j = c.ledger.holds q j
  issued : ∀ j, c'.ledger.issued j + coin.under j = c.ledger.issued j
  counted : ∀ a, c'.totalBurned a =
    if a = coin.asset then (c.totalBurned a).addSat coin.amount else c.totalBurned a

namespace Ledger

variable {l l' : Ledger} {who : AccountId} {c : Coin} {n : Amount}

theorem burn_keeps (h : l.Alive) (hc : c.amount ≠ 0) (hb : l.burn who c = .ok (n, l'))
    (hkept : ¬ l.Forfeits who c) {q : AccountId} {j : Option AssetId}
    (hne : ¬ (q = who ∧ j = c.asset.id?)) : l'.holds q j = l.holds q j := by
  by_cases hq : q = who
  · rw [hq] at hne ⊢
    have hj : c.asset.id? ≠ j := fun e => hne ⟨rfl, e.symm⟩
    cases j with
    | some id => exact ((stable_beside _ l).burn hb (.refl _ _)).holds_token hj who
    | none =>
      obtain ⟨id, hid⟩ := Option.ne_none_iff_exists'.1 hj
      exact congrArg Word.toNat ((burn_forfeits_iff h hc hid hb).2 hkept)
  · exact ((burn_effect hb).1.others q hq).holds j

end Ledger

theorem Chain.burnsExactly_iff {c : Chain} {l' : Ledger} {who : AccountId} {coin : Coin} {n : Amount}
    (halive : c.ledger.Alive) (hcovered : c.ledger.Covered) (hcoin : coin.amount ≠ 0)
    (hb : c.ledger.burn who coin = .ok (n, l')) :
    c.BurnsExactly who coin (c.countBurned l' coin.asset n) ↔
      (c.ledger.holds who coin.asset.id? = coin.amount.toNat ∨
        coin.amount.toNat + c.ledger.least coin.asset.id? ≤ c.ledger.holds who coin.asset.id?) ∧
      ¬ c.ledger.Forfeits who coin := by
  obtain ⟨⟨hle, hheld, hissued⟩, hcount⟩ := burn_takes halive hcovered hcoin hb
  rw [← taken_eq_iff]
  constructor
  · intro hexact
    constructor
    · have hpaid : l'.holds who coin.asset.id? + _ = _ := hexact.held who coin.asset.id?
      rw [Coin.heldBy_self] at hpaid
      omega
    · intro hforfeits
      obtain ⟨id, -, hid, -⟩ := id hforfeits
      have hother : ¬ (who = who ∧ none = coin.asset.id?) := by simp [hid]
      have hfree : l'.holds who none + _ = _ := hexact.held who none
      rw [Coin.heldBy_of_ne hother] at hfree
      exact (burn_forfeits_iff halive hcoin hid hb).1 (Word.ext hfree) hforfeits
  · rintro ⟨htaken, hkept⟩
    have hamount : n = coin.amount := by
      apply Word.ext
      rw [hcount, htaken, ite_self]
    refine ⟨fun q j => ?_, fun j => ?_, fun a => ?_⟩
    · change l'.holds q j + _ = _
      by_cases hpays : q = who ∧ j = coin.asset.id?
      · rw [hpays.1, hpays.2, Coin.heldBy_self, ← hheld, htaken]
      · rw [Coin.heldBy_of_ne hpays]
        exact burn_keeps halive hcoin hb hkept hpays
    · rw [htaken] at hissued
      exact hissued j
    · rw [totalBurned_countBurned, hamount]
      split
      · rename_i ha
        rw [ha]
      · rfl

namespace Bank

open Effect

variable {s : Settings} {w w' : World} {who : AccountId} {coin : Coin}

/-- A burn that succeeds burns exactly the coin if it leaves nothing or at least the least balance
and forfeits no native currency, and only then. Otherwise the rest goes with the coin, from the
issuance too; only the counter of a token tells. -/
theorem burn_exactly_iff (halive : w.chain.ledger.Alive) (hcovered : w.chain.ledger.Covered)
    (hcoin : coin.amount ≠ 0) (h : (burn who coin).run s w = (.ok (), w')) :
    let l := w.chain.ledger
    let taken := l.taken who coin.asset.id? coin.amount.toNat
    (w.chain.BurnsExactly who coin w'.chain ↔
        (l.holds who coin.asset.id? = coin.amount.toNat ∨
          coin.amount.toNat + l.least coin.asset.id? ≤ l.holds who coin.asset.id?) ∧
        ¬ l.Forfeits who coin) ∧
      w'.chain.ledger.holds who coin.asset.id? + taken = l.holds who coin.asset.id? ∧
      w'.chain.ledger.issued coin.asset.id? + taken = l.issued coin.asset.id? ∧
      ∃ n : Amount, n.toNat = (if coin.asset = .native then coin.amount.toNat else taken) ∧
        w'.chain.totalBurned coin.asset = (w.chain.totalBurned coin.asset).addSat n := by
  intro l taken
  obtain ⟨n, l', hb, hw⟩ := (burn_ok hcoin).1 h
  obtain ⟨⟨hle, hheld, hissued⟩, hcount⟩ := burn_takes halive hcovered hcoin hb
  have hchain : w'.chain = w.chain.countBurned l' coin.asset n := by
    rw [hw]
    rfl
  have hbooks := hissued coin.asset.id?
  rw [if_pos rfl] at hbooks
  rw [hchain]
  refine ⟨Chain.burnsExactly_iff halive hcovered hcoin hb, hheld, hbooks, n, hcount, ?_⟩
  rw [Chain.totalBurned_countBurned, if_pos rfl]

/-- Account 9 has 150 of token 1 and of the native currency. Of either 100 are the least. -/
def savings : World where
  chain :=
    { ledger :=
        { minBalance := 100, issuance := 150
          accounts := .ofList [(9, { providers := 1, sufficients := 1, free := 150 })]
          tokens := .ofList [(1,
            { sufficient := true, minBalance := 100, supply := 150, holdings := .ofList [(9, 150)] })] }
      pools := ∅, base := .native, registry := .empty, burned := ∅, cursor := none
      takerFee := .zero, events := [] }
  log := []

/-- What is left of 150 when 50 are burned may just be kept. -/
theorem burn_exactly_of_savings :
    let w := savings
    let burned := (burn 9 ⟨.issued 1, 50⟩).run Swap.plainSettings w
    w.chain.ledger.Alive ∧ w.chain.ledger.Covered ∧ burned.1 = .ok () ∧
      w.chain.BurnsExactly 9 ⟨.issued 1, 50⟩ burned.2.chain := by
  intro w burned
  have halive : w.chain.ledger.Alive := Ledger.alive_of_entries (by decide)
  have hcovered : w.chain.ledger.Covered := Ledger.covered_of_entries (by decide) (by decide)
  have hburned : burned.1 = .ok () := by decide
  have hprovided : (w.chain.ledger.account 9).providers ≠ 0 := by decide
  have hexact := (burn_exactly_iff halive hcovered (by decide) (Prod.ext hburned rfl)).1
  refine ⟨halive, hcovered, hburned, hexact.2 ⟨.inr (by decide), ?_⟩⟩
  rintro ⟨id, t, -, -, -, -, hproviders, -⟩
  exact hprovided hproviders

/-- When 100 are burned, 150 are gone: of the token 150 are counted, of the native currency 100. And
where no least balance is set, the last of token 1 takes 10 of the native currency along. -/
theorem burn_not_exactly :
    let w := savings
    let tokens := (burn 9 ⟨.issued 1, 100⟩).run Swap.plainSettings w
    let native := (burn 9 ⟨.native, 100⟩).run Swap.plainSettings w
    let thin := Swap.market 0 { sufficients := 1, free := 10 } .native
    let last := (burn 9 ⟨.issued 1, 100⟩).run Swap.plainSettings thin
    (tokens.1 = .ok () ∧ tokens.2.chain.balance 9 (.issued 1) = 0 ∧
        tokens.2.chain.totalBurned (.issued 1) = 150 ∧
        ¬ w.chain.BurnsExactly 9 ⟨.issued 1, 100⟩ tokens.2.chain) ∧
      (native.1 = .ok () ∧ native.2.chain.balance 9 .native = 0 ∧
        native.2.chain.totalBurned .native = 100 ∧
        ¬ w.chain.BurnsExactly 9 ⟨.native, 100⟩ native.2.chain) ∧
      last.1 = .ok () ∧ last.2.chain.balance 9 .native = 0 ∧
        ¬ thin.chain.BurnsExactly 9 ⟨.issued 1, 100⟩ last.2.chain := by
  intro w tokens native thin last
  refine ⟨⟨by decide, by decide, by decide, fun h => ?_⟩, ⟨by decide, by decide, by decide, fun h => ?_⟩,
    by decide, by decide, fun h => ?_⟩
  · exact absurd (h.held 9 (some 1)) (by decide)
  · exact absurd (h.held 9 none) (by decide)
  · exact absurd (h.held 9 none) (by decide)

end Bank

/-- In the worlds that genesis leads to, the condition is on the rest and on what is forfeited alone. -/
theorem Genesis.Reaches.burnsExactly_iff {g : Genesis} {s : Settings} {w w' : World}
    {who : AccountId} {coin : Coin} (h : g.Reaches s w)
    (ht : ∀ e ∈ g.tokens, e.2.holdings.total Word.toNat ≤ e.2.supply.toNat)
    (hcoin : coin.amount ≠ 0) (hburn : (Bank.burn who coin).run s w = (.ok (), w')) :
    w.chain.BurnsExactly who coin w'.chain ↔
      (w.chain.ledger.holds who coin.asset.id? = coin.amount.toNat ∨
        coin.amount.toNat + w.chain.ledger.least coin.asset.id? ≤
          w.chain.ledger.holds who coin.asset.id?) ∧
      ¬ w.chain.ledger.Forfeits who coin := by
  obtain ⟨n, l', hl, rfl⟩ := (Bank.burn_ok hcoin).1 hburn
  exact Chain.burnsExactly_iff h.alive (h.covered ht) hcoin hl

end SwapFees
