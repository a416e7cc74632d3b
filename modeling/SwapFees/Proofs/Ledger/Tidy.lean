import SwapFees.Proofs.Ledger.Kept
import SwapFees.Proofs.Ledger.Stable

namespace SwapFees

theorem SortedMap.insert_insert {κ υ : Type} [Ranked κ] (m : SortedMap κ υ) (k : κ) (v v' : υ) :
    (m.insert k v).insert k v' = m.insert k v' := by
  apply ext
  intro q
  by_cases hq : k = q
  · simp [hq]
  · simp [get?_insert_of_ne _ _ hq]

theorem SortedMap.erase_insert {κ υ : Type} [Ranked κ] {m : SortedMap κ υ} {k : κ}
    (h : m.get? k = none) (v : υ) : (m.insert k v).erase k = m := by
  apply ext
  intro q
  by_cases hq : k = q
  · simp [← hq, h]
  · simp [get?_erase_of_ne _ hq, get?_insert_of_ne _ _ hq]

attribute [ext] Ledger

/-- Something keeps the account alive, and its balance is nothing or not under the least. -/
structure Account.Tidy (min : Amount) (a : Account) : Prop where
  alive : ¬ (a.providers = 0 ∧ a.sufficients = 0)
  free : a.free = 0 ∨ min ≤ a.free

theorem Account.keeping_self {min : Amount} {a : Account} (hfree : a.free = 0 ∨ min ≤ a.free) :
    a.keeping min a.free = a := by
  unfold keeping
  by_cases hheld : min ≤ a.free
  · simp [hheld]
  · have hz := hfree.resolve_right hheld
    cases a
    simp_all

theorem Account.keeping_keeping {min n : Amount} {a : Account} (hn : min ≤ n)
    (hfree : a.free = 0 ∨ min ≤ a.free) : (a.keeping min n).keeping min a.free = a := by
  unfold keeping
  rw [if_pos hn]
  by_cases hheld : min ≤ a.free
  · simp [hn, hheld]
  · have hz := hfree.resolve_right hheld
    rw [hz] at hheld
    cases a
    simp_all

namespace Ledger

/-- Every account and every holding that is stored may be kept, and of every token something. -/
structure Tidy (l : Ledger) : Prop where
  accounts : ∀ who a, l.accounts.get? who = some a → a.Tidy l.minBalance
  holdings : l.Kept
  positive : ∀ id t, l.tokens.get? id = some t → t.minBalance ≠ 0

variable {l l' l'' : Ledger} {who : AccountId} {c : Coin} {id : AssetId} {t t' : Token}
  {a : Account} {n m b : Amount}

namespace Tidy

theorem free (h : l.Tidy) (who : AccountId) : l.free who = 0 ∨ l.minBalance ≤ l.free who := by
  unfold Ledger.free account
  cases ha : l.accounts.get? who with
  | none => exact .inl rfl
  | some a => exact (h.accounts who a ha).free

theorem putAccount (h : l.Tidy) (hfree : a.free = 0 ∨ l.minBalance ≤ a.free) (who : AccountId) :
    (l.putAccount who a).Tidy where
  accounts q b hb := by
    rw [minBalance_putAccount]
    unfold Ledger.putAccount at hb
    split at hb
    · by_cases hq : who = q
      · simp [hq] at hb
      · simp [SortedMap.get?_erase_of_ne _ hq] at hb
        exact h.accounts q b hb
    · rename_i halive
      by_cases hq : who = q
      · simp [hq] at hb
        exact hb ▸ ⟨halive, hfree⟩
      · simp [SortedMap.get?_insert_of_ne _ _ hq] at hb
        exact h.accounts q b hb
  holdings := h.holdings.congr (tokens_putAccount a)
  positive := by simpa using h.positive

theorem putToken (h : l.Tidy) (hkept : t.Kept) (hpositive : t.minBalance ≠ 0) (id : AssetId) :
    (l.putToken id t).Tidy where
  accounts := h.accounts
  holdings := h.holdings.putToken hkept id
  positive j u hu := by
    rw [tokens_putToken] at hu
    by_cases hj : id = j
    · simp [hj] at hu
      exact hu ▸ hpositive
    · simp [SortedMap.get?_insert_of_ne _ _ hj] at hu
      exact h.positive j u hu

theorem withIssuance (h : l.Tidy) (n : Amount) : { l with issuance := n }.Tidy :=
  ⟨h.accounts, h.holdings, h.positive⟩

theorem setFree (h : l.Tidy) (who : AccountId) (n : Amount) : (l.setFree who n).Tidy := by
  rw [setFree_eq]
  apply withIssuance
  apply h.putAccount
  rw [Account.free_keeping]
  split
  · rename_i hn
    exact .inr hn
  · exact .inl rfl

theorem giveReference (h : l.Tidy) (t : Token) (who : AccountId) :
    (l.giveReference t who).Tidy := by
  apply h.putAccount
  split
  · exact h.free who
  · exact h.free who

theorem takeReference (h : l.Tidy) (t : Token) (who : AccountId) :
    (l.takeReference t who).Tidy := by
  apply h.putAccount
  split
  · exact h.free who
  · exact h.free who

end Tidy

theorem stable_tidy : Stable Tidy where
  issued n h := h.withIssuance n
  setFree who n h := h.setFree who n
  takeHolding {l l' id t who b n m} ht _ _ htake h := by
    have hpositive := h.positive id t ht
    unfold takeHolding at htake
    dsimp only at htake
    split at htake
    · obtain ⟨-, rfl⟩ := Prod.mk.inj htake
      exact (h.giveReference t who).putToken ((h.holdings id t ht).erase who) hpositive id
    · rename_i hrest
      obtain ⟨-, rfl⟩ := Prod.mk.inj htake
      exact h.putToken ((h.holdings id t ht).insert (Nat.le_of_not_lt hrest)) hpositive id
  increase {l l' id who n} hi h := by
    have hkept := h.holdings.increase hi
    rcases increase_ok hi with ⟨-, rfl⟩ | ⟨t, hcheck, rfl⟩
    · exact h
    · obtain ⟨ht, -, -⟩ := checkIncrease_ok hcheck
      have hpositive := h.positive id t ht
      unfold addHolding at hkept ⊢
      split at hkept
      · exact h.putToken (hkept id _ (SortedMap.get?_insert_self ..)) hpositive id
      · have htaken := h.takeReference t who
        exact htaken.putToken (hkept id _ (SortedMap.get?_insert_self ..)) hpositive id
  setSupply id n h := by
    unfold setSupply
    split
    · exact h
    · rename_i t ht
      have hkept : ({ t with supply := n } : Token).Kept := h.holdings id t ht
      exact h.putToken hkept (h.positive id t ht) id

theorem Tidy.issuance_kept (h : l.Tidy) (who : AccountId) (k : Amount) :
    (if l.minBalance ≤ l.free who then k else k.subSat (l.free who)) = k := by
  split
  · rfl
  · rename_i hsmall
    rw [(h.free who).resolve_right hsmall]
    apply Word.ext
    simp

theorem accounts_putAccount (l : Ledger) (who : AccountId) (a : Account) :
    (l.putAccount who a).accounts =
      if a.providers = 0 ∧ a.sufficients = 0 then l.accounts.erase who
      else l.accounts.insert who a := by
  unfold putAccount
  split <;> rfl

theorem putAccount_putAccount (l : Ledger) (who : AccountId) (a b : Account) :
    (l.putAccount who a).putAccount who b = l.putAccount who b := by
  apply Ledger.ext (by simp) (by simp) ?_ (by simp)
  apply SortedMap.ext
  intro q
  rw [accounts_putAccount, accounts_putAccount, accounts_putAccount]
  by_cases hq : who = q
  · subst hq
    split <;> simp
  · split <;> split <;> simp [SortedMap.get?_erase_of_ne _ hq, SortedMap.get?_insert_of_ne _ _ hq]

theorem Tidy.putAccount_self (h : l.Tidy) (who : AccountId) :
    l.putAccount who (l.account who) = l := by
  apply Ledger.ext (by simp) (by simp) ?_ (by simp)
  apply SortedMap.ext
  intro q
  rw [accounts_putAccount]
  by_cases hq : who = q
  · subst hq
    unfold account
    cases hw : l.accounts.get? who with
    | none => simp
    | some a => simp [(h.accounts who a hw).alive]
  · split <;> simp [SortedMap.get?_erase_of_ne _ hq, SortedMap.get?_insert_of_ne _ _ hq]

theorem putAccount_withIssuance (l : Ledger) (who : AccountId) (a : Account) (n : Amount) :
    { l with issuance := n }.putAccount who a = { l.putAccount who a with issuance := n } := by
  unfold putAccount
  split <;> rfl

theorem setFree_withIssuance (l : Ledger) (who : AccountId) (n k : Amount) :
    { l with issuance := k }.setFree who n =
      { l.setFree who n with issuance := if l.minBalance ≤ n then k else k.subSat n } := by
  rw [setFree_eq, setFree_eq, putAccount_withIssuance]
  rfl

@[simp] theorem minBalance_setFree : (l.setFree who n).minBalance = l.minBalance := by
  rw [setFree_eq]
  exact minBalance_putAccount _

theorem account_setFree_of_held (hheld : (l.setFree who n).free who ≠ 0) :
    (l.setFree who n).account who = (l.account who).keeping l.minBalance n := by
  have hput : (l.setFree who n).account who =
      (l.putAccount who ((l.account who).keeping l.minBalance n)).account who := by
    rw [setFree_eq]
    rfl
  rw [hput, account_putAccount_self]
  apply if_neg
  intro hdead
  apply hheld
  unfold Ledger.free
  rw [hput, account_putAccount_self, if_pos hdead]

/-- A balance that is kept is taken back without a trace. -/
theorem Tidy.setFree_setFree (h : l.Tidy) (hn : l.minBalance ≤ n)
    (hheld : (l.setFree who n).free who ≠ 0) :
    (l.setFree who n).setFree who (l.free who) = l := by
  have hset : l.setFree who n = l.putAccount who ((l.account who).keeping l.minBalance n) := by
    rw [setFree_eq, if_pos hn]
    apply Ledger.ext <;> simp
  have hback : ((l.setFree who n).account who).keeping l.minBalance (l.free who) =
      l.account who := by
    rw [account_setFree_of_held hheld]
    exact Account.keeping_keeping hn (h.free who)
  rw [setFree_eq, minBalance_setFree, hback, hset, putAccount_putAccount, h.putAccount_self]
  apply Ledger.ext
  · rfl
  · rw [h.issuance_kept]
    simp
  · rfl
  · rfl

theorem Tidy.burnNative_mintNative (h : l.Tidy) (hn : n ≠ 0) (hm : l.mintNative who n = .ok l')
    (hb : l'.burnNative who n = .ok l'') : l'' = l := by
  obtain ⟨issuance, total, hissuance, htotal, hmin, rfl⟩ := mintNative_ok hm
  obtain ⟨hle, issuance', hissuance', rfl⟩ := burnNative_ok hb
  have hfree : ({ l.setFree who total with issuance } : Ledger).free who =
      (l.setFree who total).free who := rfl
  rw [hfree] at hle hissuance' ⊢
  -- Of an account that was dropped nothing could be burned.
  have hheld : (l.setFree who total).free who ≠ 0 := by
    intro hz
    apply hn
    apply Word.toNat_eq_zero.1
    rw [hz, Word.le_def, Word.toNat_zero] at hle
    omega
  have hrest : ((l.setFree who total).free who).subSat n = l.free who := by
    unfold Ledger.free at htotal ⊢
    rw [account_setFree_of_held hheld, Account.free_keeping, if_pos hmin]
    apply Word.ext
    rw [Word.toNat_subSat, htotal]
    omega
  rw [hrest, setFree_withIssuance, h.setFree_setFree hmin hheld] at hissuance' ⊢
  apply Ledger.ext
  · rfl
  · rw [hissuance']
    dsimp only
    rw [minBalance_setFree, h.issuance_kept]
    apply Word.ext
    rw [Word.toNat_subSat]
    omega
  · rfl
  · rfl

theorem setSupply_of_get? (ht : l.tokens.get? id = some t) (n : Amount) :
    l.setSupply id n = l.putToken id { t with supply := n } := by
  unfold setSupply
  rw [ht]

theorem putToken_putToken (l : Ledger) (id : AssetId) (t t' : Token) :
    (l.putToken id t).putToken id t' = l.putToken id t' := by
  unfold putToken
  dsimp only
  rw [SortedMap.insert_insert]

theorem putToken_self (ht : l.tokens.get? id = some t) : l.putToken id t = l := by
  unfold putToken
  rw [SortedMap.insert_get? ht]

theorem putAccount_putToken (l : Ledger) (id : AssetId) (t : Token) (who : AccountId)
    (a : Account) :
    (l.putToken id t).putAccount who a = (l.putAccount who a).putToken id t := by
  apply Ledger.ext
  · simp [putToken]
  · simp [putToken]
  · rw [accounts_putAccount]
    unfold putToken
    dsimp only
    rw [accounts_putAccount]
  · simp

theorem Tidy.giveReference_takeReference (h : l.Tidy)
    (hroom : t.sufficient = true ∨ (l.account who).hasRoom = true) :
    (l.takeReference t who).giveReference t who = l := by
  have hwhole := h.putAccount_self who
  unfold Ledger.takeReference Ledger.giveReference
  dsimp only
  rw [account_putAccount_self, putAccount_putAccount]
  cases hs : t.sufficient with
  | true => simp [hwhole]
  | false =>
    have halive : (l.account who).providers ≠ 0 := by
      simp [hs, Account.hasRoom] at hroom
      exact hroom.1
    simp [halive, hwhole]

theorem giveReference_putToken (l : Ledger) (id : AssetId) (t u : Token) (who : AccountId) :
    (l.putToken id u).giveReference t who = (l.giveReference t who).putToken id u :=
  putAccount_putToken l id u who _

theorem hasRoom_of_checkIncrease {minted : Bool} (hc : l.checkIncrease id who n minted = .ok t)
    (hnone : t.holdings.get? who = none) :
    t.sufficient = true ∨ (l.account who).hasRoom = true := by
  have ht := (checkIncrease_ok hc).1
  unfold checkIncrease at hc
  rw [ht] at hc
  dsimp only at hc
  split at hc
  · cases hc
  · rw [hnone] at hc
    dsimp only at hc
    split at hc
    · cases hc
    · split at hc
      · cases hc
      · rename_i hroom
        cases hs : t.sufficient <;> simp_all

theorem setSupply_addHolding (l : Ledger) (id : AssetId) (t : Token) (who : AccountId)
    (n k : Amount) :
    (l.addHolding id t who n).setSupply id k = l.addHolding id { t with supply := k } who n := by
  unfold addHolding
  cases t.holdings.get? who with
  | none =>
    dsimp only
    rw [setSupply_of_get? (SortedMap.get?_insert_self ..), putToken_putToken]
    rfl
  | some b =>
    dsimp only
    rw [setSupply_of_get? (SortedMap.get?_insert_self ..), putToken_putToken]

theorem Tidy.takeHolding_addHolding (h : l.Tidy) (id : AssetId) (hpositive : t.minBalance ≠ 0)
    (hkept : t.Kept) (hroom : t.holdings.get? who = none →
      t.sufficient = true ∨ (l.account who).hasRoom = true)
    (hfits : ∀ b, t.holdings.get? who = some b → b.toNat + n.toNat < 2 ^ (128 : Nat)) :
    ∃ hs b, (l.addHolding id t who n).tokens.get? id = some { t with holdings := hs } ∧
      hs.get? who = some b ∧
      (l.addHolding id t who n).takeHolding id { t with holdings := hs } who b n =
        (n, l.putToken id t) := by
  unfold addHolding
  cases hb : t.holdings.get? who with
  | none =>
    -- The holding ends again, since the minimum of the token is not zero.
    have hrest : n.subSat n < t.minBalance := by
      have hne : t.minBalance.toNat ≠ 0 := fun e => hpositive (Word.toNat_eq_zero.1 e)
      rw [Word.lt_def, Word.toNat_subSat]
      omega
    refine ⟨t.holdings.insert who n, n, by simp, by simp, ?_⟩
    unfold takeHolding
    dsimp only
    rw [if_pos hrest, giveReference_putToken, putToken_putToken, SortedMap.erase_insert hb]
    have hgiven := h.giveReference_takeReference (hroom hb)
    exact congrArg (fun l₁ : Ledger => (n, l₁.putToken id t)) hgiven
  | some b =>
    have hrest : (b.addSat n).subSat n = b := by
      have hsum : (b.addSat n).toNat = b.toNat + n.toNat := Word.toNat_saturate_of_lt (hfits b hb)
      apply Word.ext
      rw [Word.toNat_subSat, hsum]
      omega
    have hstays : ¬ (b.addSat n).subSat n < t.minBalance := by
      rw [hrest]
      exact Nat.not_lt.2 (hkept who b hb)
    refine ⟨t.holdings.insert who (b.addSat n), b.addSat n, by simp, by simp, ?_⟩
    unfold takeHolding
    dsimp only
    rw [if_neg hstays, hrest, putToken_putToken, SortedMap.insert_insert, SortedMap.insert_get? hb]

theorem Tidy.burnToken_mintToken (h : l.Tidy) (hn : n ≠ 0) (hm : l.mintToken id who n = .ok l')
    (hb : l'.burnToken id who n = .ok (m, l'')) : l'' = l := by
  obtain ⟨supply, l₁, hsupply, hi, rfl⟩ := mintToken_ok hm
  obtain ⟨t, hc, rfl⟩ := (increase_ok hi).resolve_left fun e => hn e.1
  obtain ⟨ht, hfits, -⟩ := checkIncrease_ok hc
  rw [setSupply_addHolding] at hb
  have hkept : ({ t with supply := supply } : Token).Kept := h.holdings id t ht
  have hroom := hasRoom_of_checkIncrease hc
  obtain ⟨hs, b, hget, hheld, htake⟩ := h.takeHolding_addHolding id
    (t := { t with supply := supply }) (h.positive id t ht) hkept
    hroom fun b hb => holding_eq ht hb ▸ hfits
  obtain ⟨u, b', l₂, hu, hb', -, htake', rfl⟩ := (burnToken_ok hb).resolve_left fun e => hn e.1
  obtain rfl := Option.some.inj (hget.symm.trans hu)
  obtain rfl := Option.some.inj (hheld.symm.trans hb')
  rw [htake] at htake'
  obtain ⟨rfl, rfl⟩ := Prod.mk.inj htake'
  have hback : supply.subSat n = t.supply := by
    unfold Ledger.supply at hsupply
    rw [ht] at hsupply
    apply Word.ext
    rw [Word.toNat_subSat, hsupply]
    simp
  rw [setSupply_of_get? (SortedMap.get?_insert_self ..), putToken_putToken, hback]
  exact putToken_self ht

/-- A coin that is minted and burned again leaves no trace. -/
theorem Tidy.burn_mint (h : l.Tidy) (hc : c.amount ≠ 0) (hm : l.mint who c = .ok l')
    (hb : l'.burn who c = .ok (n, l'')) : l'' = l := by
  unfold mint at hm
  unfold burn at hb
  split at hm
  · rename_i hid
    rw [hid] at hb
    dsimp only at hb
    rcases hn : l'.burnNative who c.amount with _ | l₁
    · rw [hn] at hb
      cases hb
    · rw [hn] at hb
      cases hb
      exact h.burnNative_mintNative hc hm hn
  · rename_i id hid
    rw [hid] at hb
    exact h.burnToken_mintToken hc hm hb

theorem Tidy.setFree_self (h : l.Tidy) (who : AccountId) : l.setFree who (l.free who) = l := by
  have hsame : (l.account who).keeping l.minBalance (l.free who) = l.account who :=
    Account.keeping_self (h.free who)
  rw [setFree_eq, hsame, h.putAccount_self]
  apply Ledger.ext
  · rfl
  · exact h.issuance_kept who l.issuance
  · rfl
  · rfl

theorem Tidy.burn_zero (h : l.Tidy) (hc : c.amount = 0) (hb : l.burn who c = .ok (n, l')) :
    l' = l := by
  have hsub (k : Amount) : k.subSat 0 = k := by
    apply Word.ext
    simp
  unfold burn at hb
  rw [hc] at hb
  split at hb
  · rcases hn : l.burnNative who 0 with _ | l₁
    · rw [hn] at hb
      cases hb
    · rw [hn] at hb
      cases hb
      obtain ⟨-, issuance, hissuance, rfl⟩ := burnNative_ok hn
      rw [hsub (l.free who), h.setFree_self, hsub] at hissuance
      rw [hsub (l.free who), h.setFree_self, hissuance]
  · unfold burnToken at hb
    split at hb
    · cases hb
    · cases hb
      rfl

/-- An exchange for a coin and an exchange of it are one, that never holds it. -/
theorem Tidy.exchanges_trans {tokenIn tokenBetween tokenOut : Coin} (h : l.Tidy)
    (hfirst : l.Exchanges who tokenIn tokenBetween l')
    (hsecond : l'.Exchanges who tokenBetween tokenOut l'') :
    l.Exchanges who tokenIn tokenOut l'' := by
  obtain ⟨n, l₁, hpaid, hgot⟩ := hfirst
  obtain ⟨m, l₂, hspent, hout⟩ := hsecond
  have htidy : l₁.Tidy := stable_tidy.burn hpaid h
  have hback : l₂ = l₁ := by
    split at hgot
    · rename_i hz
      subst hgot
      exact htidy.burn_zero hz hspent
    · rename_i hne
      exact htidy.burn_mint hne hgot hspent
  rw [hback] at hout
  exact ⟨n, l₁, hpaid, hout⟩

/-- What a ledger stores is there: an account is kept alive by something, a holding is not nothing,
and a token has a least holding. -/
structure WellFormed (l : Ledger) : Prop where
  alive : ∀ who a, l.accounts.get? who = some a → ¬ (a.providers = 0 ∧ a.sufficients = 0)
  held : ∀ id t who b, l.tokens.get? id = some t → t.holdings.get? who = some b → b ≠ 0
  positive : ∀ id t, l.tokens.get? id = some t → t.minBalance ≠ 0

theorem wellFormed_iff :
    l.WellFormed ↔
      (∀ e ∈ l.accounts.toList, ¬ (e.2.providers = 0 ∧ e.2.sufficients = 0)) ∧
      ∀ e ∈ l.tokens.toList, e.2.minBalance ≠ 0 ∧ ∀ h ∈ e.2.holdings.toList, h.2 ≠ 0 := by
  constructor
  · intro h
    refine ⟨fun e he => h.alive e.1 e.2 (SortedMap.mem_toList.1 he), fun e he => ?_⟩
    have hget := SortedMap.mem_toList.1 he
    exact ⟨h.positive e.1 e.2 hget,
      fun b hb => h.held e.1 e.2 b.1 b.2 hget (SortedMap.mem_toList.1 hb)⟩
  · rintro ⟨ha, ht⟩
    refine ⟨fun who a hget => ha (who, a) (SortedMap.mem_toList.2 hget),
      fun id t who b hget hb => ?_, fun id t hget => ?_⟩
    · exact (ht (id, t) (SortedMap.mem_toList.2 hget)).2 (who, b) (SortedMap.mem_toList.2 hb)
    · exact (ht (id, t) (SortedMap.mem_toList.2 hget)).1

instance (l : Ledger) : Decidable l.WellFormed := decidable_of_iff' _ wellFormed_iff

theorem tidy_iff :
    l.Tidy ↔ l.WellFormed ∧ ∀ who j, l.holds who j = 0 ∨ l.least j ≤ l.holds who j := by
  constructor
  · intro h
    refine ⟨⟨fun who a ha => (h.accounts who a ha).alive, fun id t who b ht hb hz => ?_,
      h.positive⟩, kept_of_entries (fun e he => ?_) fun e he b hb => ?_⟩
    · have hmin := h.holdings id t ht who b hb
      rw [hz, Word.le_def, Word.toNat_zero] at hmin
      exact h.positive id t ht (Word.toNat_eq_zero.1 (by omega))
    · exact (h.accounts e.1 e.2 (SortedMap.mem_toList.1 he)).free
    · have hget := SortedMap.mem_toList.1 he
      exact .inr (h.holdings e.1 e.2 hget b.1 b.2 (SortedMap.mem_toList.1 hb))
  · rintro ⟨hformed, hkept⟩
    refine ⟨fun who a ha => ⟨hformed.alive who a ha, ?_⟩, fun id t ht who b hb => ?_,
      hformed.positive⟩
    · have hfree : l.free who = a.free := by
        unfold Ledger.free account
        rw [ha]
        rfl
      rw [← hfree]
      exact (hkept who none).imp_left Word.toNat_eq_zero.1
    · have hheld := hkept who (some id)
      rw [holds_some, holding_eq ht hb, least_some ht] at hheld
      exact hheld.resolve_left fun hz => hformed.held id t who b ht hb (Word.toNat_eq_zero.1 hz)

end Ledger

namespace Genesis

open Ledger

variable {g : Genesis} {s : Settings} {l l' : Ledger}

theorem tidy_endow {minBalance : Amount} {balances : List (AccountId × Amount)}
    (h : endow minBalance balances = .ok l) : l.Tidy := by
  unfold endow at h
  split at h
  · cases h
  · split at h
    · cases h
    · rename_i hsmall
      split at h
      · cases h
        refine ⟨fun who a ha => ?_, nofun, nofun⟩
        obtain ⟨e, he, hea⟩ := List.mem_map.1 (SortedMap.mem_of_get?_ofList ha)
        obtain ⟨-, rfl⟩ := Prod.mk.inj hea
        refine ⟨by simp, .inr (Nat.le_of_not_lt fun hlt => hsmall ?_)⟩
        exact List.any_eq_true.2 ⟨e, he, decide_eq_true hlt⟩
      · cases h

theorem positive_of_define {ts : List (AssetId × Token)} (h : define l ts = .ok l') :
    ∀ e ∈ ts, e.2.minBalance ≠ 0 := by
  induction ts generalizing l with
  | nil => simp
  | cons e ts ih =>
    unfold define at h
    split at h
    · cases h
    · split at h
      · cases h
      · rename_i hpositive
        rw [List.forall_mem_cons]
        exact ⟨hpositive, ih h⟩

/-- Whatever happens after genesis, no balance comes under its minimum and nothing is stored that is
not there. -/
theorem Reaches.tidy {w : World} (h : g.Reaches s w) (ht : ∀ e ∈ g.tokens, e.2.Kept) :
    w.chain.ledger.Tidy := by
  apply h.ledger stable_tidy
  intro c hb
  obtain ⟨l₁, l₂, l₃, h₁, h₂, h₃, hledger⟩ := ledger_build hb
  have hdefined : l₂.Tidy := define_keeps h₂
    (fun e he _ hl => hl.putToken (ht e he) (positive_of_define h₂ e he) e.1) (tidy_endow h₁)
  have hheld : l₃.Tidy := hold_keeps h₃ stable_tidy.mint hdefined
  rw [hledger]
  unfold addProvider
  apply hheld.putAccount
  exact hheld.free s.feeAccount

end Genesis

end SwapFees
