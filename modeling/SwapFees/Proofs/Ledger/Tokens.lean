import SwapFees.Proofs.Ledger.Balance

namespace SwapFees.Ledger

variable {l l' : Ledger} {id : AssetId} {t : Token} {who : AccountId} {b n m : Amount}

theorem holding?_eq (ht : l.tokens.get? id = some t) : l.holding? id who = t.holdings.get? who := by
  rw [holding?, ht]
  rfl

theorem holding_eq (ht : l.tokens.get? id = some t) (hb : t.holdings.get? who = some b) :
    l.holding id who = b := by
  rw [holding, holding?_eq ht, hb]
  rfl

theorem least_some (ht : l.tokens.get? id = some t) : l.least (some id) = t.minBalance.toNat := by
  simp [least, ht]

theorem kept_of_entries
    (hn : ∀ e ∈ l.accounts.toList, e.2.free = 0 ∨ l.minBalance ≤ e.2.free)
    (ht : ∀ e ∈ l.tokens.toList, ∀ h ∈ e.2.holdings.toList, h.2 = 0 ∨ e.2.minBalance ≤ h.2)
    (who : AccountId) (j : Option AssetId) : l.holds who j = 0 ∨ l.least j ≤ l.holds who j := by
  cases j with
  | none =>
    rw [holds_none, free, account]
    cases ha : l.accounts.get? who with
    | none => exact .inl Word.toNat_zero
    | some a => exact (hn (who, a) (SortedMap.mem_toList.2 ha)).imp_left Word.toNat_eq_zero.2
  | some id =>
    rw [holds_some]
    cases hh : l.holding? id who with
    | none => exact .inl (by rw [holding, hh]; exact Word.toNat_zero)
    | some n =>
      obtain ⟨t, he, hn⟩ := Option.bind_eq_some_iff.1 hh
      have hkept := ht (id, t) (SortedMap.mem_toList.2 he) (who, n) (SortedMap.mem_toList.2 hn)
      rw [least_some he, holding_eq he hn]
      exact hkept.imp_left Word.toNat_eq_zero.2

theorem Only.of_sameFor {i : Option AssetId} (h : ∀ q, SameFor q l l') : l.Only i who l' where
  least := (h who).least
  others q _ := h q
  rest _ j _ := (h who).holds j
  anchored := (h who).anchored

@[simp] theorem tokens_giveReference : (l.giveReference t who).tokens = l.tokens :=
  tokens_putAccount _

@[simp] theorem tokens_takeReference : (l.takeReference t who).tokens = l.tokens :=
  tokens_putAccount _

theorem only_giveReference (l : Ledger) (t : Token) (who : AccountId) (i : Option AssetId) :
    l.Only i who (l.giveReference t who) := by
  unfold giveReference
  apply only_putAccount <;> split <;> rfl

theorem only_takeReference (l : Ledger) (t : Token) (who : AccountId) (i : Option AssetId) :
    l.Only i who (l.takeReference t who) := by
  unfold takeReference
  apply only_putAccount <;> split <;> rfl

theorem only_holdings (ht : l.tokens.get? id = some t) {hs : SortedMap AccountId Amount}
    (hh : ∀ q, q ≠ who → hs.get? q = t.holdings.get? q) :
    l.Only (some id) who (l.putToken id { t with holdings := hs }) :=
  only_putToken ht rfl hh

theorem holds_takeHolding :
    (l.takeHolding id t who b n).2.holds who (some id) =
      if b.subSat n < t.minBalance then 0 else b.toNat - n.toNat := by
  unfold takeHolding
  dsimp only
  split
  · rw [holds_some, holding, holding?_putToken, if_pos rfl, SortedMap.get?_erase_self]
    exact Word.toNat_zero
  · rw [holds_some, holding, holding?_putToken, if_pos rfl, SortedMap.get?_insert_self]
    rfl

theorem takeHolding_of_kept (hrest : ¬ b.subSat n < t.minBalance) :
    l.takeHolding id t who b n =
      (n, l.putToken id { t with holdings := t.holdings.insert who (b.subSat n) }) := by
  unfold takeHolding
  exact if_neg hrest

/-- Taking `n` of a holding is paying it; what is taken is what the holding loses. -/
theorem takeHolding_ok (ht : l.tokens.get? id = some t) (hb : t.holdings.get? who = some b)
    (hn : n ≤ b) (hr : l.takeHolding id t who b n = (m, l')) :
    l.Only (some id) who l' ∧ l.Pays who (some id) n.toNat l' ∧
      m.toNat + l'.holds who (some id) = b.toNat ∧
      ∃ hs, l'.tokens = l.tokens.insert id { t with holdings := hs } := by
  have hle : n.toNat ≤ b.toNat := hn
  have hl : l'.holds who (some id) =
      if b.subSat n < t.minBalance then 0 else b.toNat - n.toNat := by
    rw [← holds_takeHolding, hr]
  unfold Pays
  rw [hl, holds_some, holding_eq ht hb, least_some ht]
  unfold takeHolding at hr
  dsimp only at hr
  split at hr
  · rename_i hrest
    have hlost : b.toNat - n.toNat < t.minBalance.toNat := hrest
    obtain ⟨rfl, rfl⟩ := Prod.mk.inj hr
    rw [if_pos hrest]
    refine ⟨?_, ⟨hle, .inr ⟨hlost, rfl⟩⟩, Nat.add_zero _, t.holdings.erase who, by simp⟩
    refine (only_giveReference l t who _).trans (only_holdings (by simpa using ht) fun q hq => ?_)
    exact SortedMap.get?_erase_of_ne _ hq.symm
  · rename_i hrest
    obtain ⟨rfl, rfl⟩ := Prod.mk.inj hr
    rw [if_neg hrest]
    refine ⟨?_, ⟨hle, .inl rfl⟩, by omega, t.holdings.insert who (b.subSat n), rfl⟩
    exact only_holdings ht fun q hq => SortedMap.get?_insert_of_ne _ _ hq.symm

theorem checkIncrease_ok {minted : Bool} (h : l.checkIncrease id who n minted = .ok t) :
    l.tokens.get? id = some t ∧ (l.holding id who).toNat + n.toNat < 2 ^ (128 : Nat) ∧
      (minted = true → t.supply.toNat + n.toNat < 2 ^ (128 : Nat)) := by
  unfold checkIncrease at h
  split at h
  · cases h
  rename_i t' ht
  split at h
  · cases h
  rename_i hsupply
  have hroom : minted = true → t'.supply.toNat + n.toNat < 2 ^ (128 : Nat) := fun hm =>
    Nat.lt_of_not_le fun hle => hsupply ⟨hm, Word.add?_eq_none.2 hle⟩
  split at h
  · rename_i b hb
    split at h
    · cases h
    · rename_i hadd
      cases h
      refine ⟨ht, ?_, hroom⟩
      rw [holding_eq ht hb]
      exact Nat.lt_of_not_le fun hle => hadd (Word.add?_eq_none.2 hle)
  · rename_i hb
    split at h
    · cases h
    split at h
    · cases h
    cases h
    refine ⟨ht, ?_, hroom⟩
    rw [holding, holding?_eq ht, hb]
    have := n.isLt
    have := (Word.toNat_zero : (0 : Amount).toNat = 0)
    change (0 : Amount).toNat + _ < _
    omega

theorem addHolding_ok (h : (l.holding id who).toNat + n.toNat < 2 ^ (128 : Nat))
    (ht : l.tokens.get? id = some t) :
    l.Only (some id) who (l.addHolding id t who n) ∧
      (l.addHolding id t who n).holds who (some id) = l.holds who (some id) + n.toNat ∧
      ∃ hs, (l.addHolding id t who n).tokens = l.tokens.insert id { t with holdings := hs } := by
  unfold addHolding
  split
  · rename_i b hb
    refine ⟨?_, ?_, t.holdings.insert who (b.addSat n), rfl⟩
    · exact only_holdings ht fun q hq => SortedMap.get?_insert_of_ne _ _ hq.symm
    · rw [holding_eq ht hb] at h
      rw [holds_some, holding, holding?_putToken, if_pos rfl, SortedMap.get?_insert_self, holds_some,
        holding_eq ht hb]
      exact Word.toNat_saturate_of_lt h
  · rename_i hb
    refine ⟨?_, ?_, t.holdings.insert who n, by simp⟩
    · refine (only_takeReference l t who _).trans (only_holdings (by simpa using ht) fun q hq => ?_)
      exact SortedMap.get?_insert_of_ne _ _ hq.symm
    · rw [holds_some, holding, holding?_putToken, if_pos rfl, SortedMap.get?_insert_self, holds_some,
        holding, holding?_eq ht, hb]
      change n.toNat = (0 : Amount).toNat + n.toNat
      rw [Word.toNat_zero, Nat.zero_add]

theorem increase_ok (h : l.increase id who n = .ok l') :
    n = 0 ∧ l' = l ∨
      ∃ t, l.checkIncrease id who n true = .ok t ∧ l' = l.addHolding id t who n := by
  unfold increase at h
  split at h
  · rename_i hn
    cases h
    exact .inl ⟨hn, rfl⟩
  · split at h
    · cases h
    · rename_i t ht
      split at h
      · cases h
      · cases h
        exact .inr ⟨t, ht, rfl⟩

/-- An increase changes one holding, and neither the supply nor the terms of the token. -/
theorem receives_increase (h : l.increase id who n = .ok l') :
    l.Only (some id) who l' ∧ l'.holds who (some id) = l.holds who (some id) + n.toNat ∧
      (l' = l ∨ ∃ t hs, l.tokens.get? id = some t ∧
        l'.tokens = l.tokens.insert id { t with holdings := hs }) := by
  rcases increase_ok h with ⟨rfl, rfl⟩ | ⟨t, hc, rfl⟩
  · exact ⟨.refl _ _ _, by rw [Word.toNat_zero, Nat.add_zero], .inl rfl⟩
  · obtain ⟨ht, hb, -⟩ := checkIncrease_ok hc
    obtain ⟨ho, hh, hs, htokens⟩ := addHolding_ok hb ht
    exact ⟨ho, hh, .inr ⟨t, hs, ht, htokens⟩⟩

theorem sameFor_setSupply (l : Ledger) (id : AssetId) (n : Amount) (q : AccountId) :
    SameFor q l (l.setSupply id n) := by
  unfold setSupply
  split
  · exact .refl q l
  · rename_i t ht
    refine ⟨least_putToken ht rfl, rfl, fun j => ?_⟩
    rw [holding?_putToken]
    split
    · rename_i e
      rw [← e, holding?_eq ht]
    · rfl

theorem le_reducibleToken_iff (hn : n ≠ 0) :
    n ≤ l.reducibleToken id who ↔
      ∃ t b, l.tokens.get? id = some t ∧ t.holdings.get? who = some b ∧ t.frozen = false ∧
        n ≤ b ∧ n ≤ t.supply := by
  have hzero : ¬ n ≤ (0 : Amount) := fun h => hn <| Word.toNat_eq_zero.1 <|
    Nat.le_zero.1 (Nat.le_trans h (Nat.le_of_eq Word.toNat_zero))
  unfold reducibleToken
  rcases ht : l.tokens.get? id with _ | t
  · simp [hzero]
  dsimp only
  rcases hb : t.holdings.get? who with _ | b
  · simp [hzero, hb]
  cases hfrozen : t.frozen with
  | true => simp [hzero, hb, hfrozen]
  | false =>
    have hmin : n ≤ (if b ≤ t.supply then b else t.supply) ↔ n ≤ b ∧ n ≤ t.supply := by
      split
      · rename_i hle
        exact ⟨fun h => ⟨h, Nat.le_trans h hle⟩, And.left⟩
      · rename_i hle
        exact ⟨fun h => ⟨Nat.le_trans h (Nat.le_of_not_le hle), h⟩, And.right⟩
    simp [hb, hfrozen, hmin]

theorem le_reducibleToken_of_kept (ht : l.tokens.get? id = some t)
    (hm : n.toNat + m.toNat ≤ (l.reducibleToken id who).toNat)
    (hb : t.holdings.get? who = some b) :
    m ≤ (l.putToken id { t with holdings := t.holdings.insert who (b.subSat n) }).reducibleToken
      id who := by
  by_cases hz : m = 0
  · rw [hz, Word.le_def, Word.toNat_zero]
    exact Nat.zero_le _
  have hne : l.reducibleToken id who ≠ 0 := fun e => by
    rw [e, Word.toNat_zero] at hm
    exact hz (Word.toNat_eq_zero.1 (by omega))
  obtain ⟨t', b', ht', hb', hfrozen, hle, hsupply⟩ := (le_reducibleToken_iff hne).1 (Nat.le_refl _)
  obtain rfl := Option.some.inj (ht.symm.trans ht')
  obtain rfl := Option.some.inj (hb.symm.trans hb')
  rw [Word.le_def] at hle hsupply
  refine (le_reducibleToken_iff hz).2
    ⟨_, _, SortedMap.get?_insert_self .., SortedMap.get?_insert_self .., hfrozen, ?_, ?_⟩
  · rw [Word.le_def, Word.toNat_subSat]
    omega
  · change m.toNat ≤ t.supply.toNat
    omega

theorem reducibleToken_increase {dest : AccountId} (h : l.increase id dest n = .ok l')
    (hne : who ≠ dest) : l'.reducibleToken id who = l.reducibleToken id who := by
  obtain ⟨ho, -, rfl | ⟨t, hs, ht, htokens⟩⟩ := receives_increase h
  · rfl
  have ht' : l'.tokens.get? id = some { t with holdings := hs } := by
    rw [htokens, SortedMap.get?_insert_self]
  have hsame : hs.get? who = t.holdings.get? who := by
    have := (ho.others who hne).holding id
    rwa [holding?_eq ht, holding?_eq ht'] at this
  unfold reducibleToken
  rw [ht, ht']
  dsimp only
  rw [hsame]

theorem burnToken_ok (h : l.burnToken id who n = .ok (m, l')) :
    n = 0 ∧ m = 0 ∧ l' = l ∨
      ∃ t b l₁, l.tokens.get? id = some t ∧ t.holdings.get? who = some b ∧ n ≤ b ∧
        l.takeHolding id t who b n = (m, l₁) ∧ l' = l₁.setSupply id (t.supply.subSat m) := by
  unfold burnToken at h
  split at h
  · cases h
  rename_i hred
  split at h
  · rename_i hn
    cases h
    exact .inl ⟨hn, rfl, rfl⟩
  rename_i hn
  obtain ⟨t, b, ht, hb, -, hle, -⟩ := (le_reducibleToken_iff hn).1 (Nat.le_of_not_lt hred)
  rw [ht] at h
  dsimp only at h
  rw [holding_eq ht hb] at h
  rcases hr : l.takeHolding id t who b n with ⟨k, l₁⟩
  rw [hr] at h
  cases h
  exact .inr ⟨t, b, l₁, ht, hb, hle, hr, rfl⟩

theorem mintToken_ok (h : l.mintToken id who n = .ok l') :
    ∃ supply l₁, supply.toNat = (l.supply id).toNat + n.toNat ∧ l.increase id who n = .ok l₁ ∧
      l' = l₁.setSupply id supply := by
  unfold mintToken at h
  split at h
  · cases h
  · rename_i supply hs
    rcases hi : l.increase id who n with _ | l₁
    · rw [hi] at h
      cases h
    · rw [hi] at h
      cases h
      exact ⟨supply, l₁, Word.add?_eq_some.1 hs, rfl, rfl⟩

variable {source dest : AccountId} {p : Preservation}

theorem transferToken_ok (h : l.transferToken id source dest n p = .ok l') :
    ∃ t b m l₁ t', l.tokens.get? id = some t ∧ t.holdings.get? source = some b ∧ n ≤ b ∧
      t.frozen = false ∧ (p ≠ .expendable → t.minBalance.toNat ≤ b.toNat - n.toNat) ∧
      l.checkIncrease id dest n false = .ok t' ∧ l.takeHolding id t source b n = (m, l₁) ∧
      l' = if source = dest then l else (l₁.increase id dest n).toOption.getD l₁ := by
  unfold transferToken at h
  split at h
  · cases h
  rename_i t ht
  split at h
  · cases h
  split at h
  · cases h
  rename_i hfrozen
  split at h
  · cases h
  rename_i b hb
  split at h
  · cases h
  rename_i hle
  split at h
  · cases h
  rename_i hkeep
  split at h
  · cases h
  rename_i t' hcheck
  rcases hr : l.takeHolding id t source b n with ⟨m, l₁⟩
  rw [hr] at h
  refine ⟨t, b, m, l₁, t', ht, hb, Nat.le_of_not_lt hle, Bool.eq_false_iff.2 hfrozen, fun hp => ?_,
    hcheck, hr, ?_⟩
  · exact Nat.le_of_not_lt fun hlt => hkeep ⟨hlt, hp⟩
  · split at h
    · rename_i e
      cases h
      rw [if_pos e]
    · rename_i e
      cases h
      rw [if_neg e]

/-- What was checked before the sender paid still holds after, except that the supply is now checked
too. -/
theorem increase_of_checked {t' : Token} {hs : SortedMap AccountId Amount} {l₁ : Ledger}
    (hcheck : l.checkIncrease id dest n false = .ok t') (ht : l.tokens.get? id = some t)
    (hfrozen : t.frozen = false) (hsame : SameFor dest l l₁)
    (ht₁ : l₁.tokens.get? id = some { t with holdings := hs })
    (hroom : t.supply.toNat + n.toNat < 2 ^ (128 : Nat)) :
    (l₁.increase id dest n).isOk = true := by
  have hh : hs.get? dest = t.holdings.get? dest := by
    have := hsame.holding id
    rwa [holding?_eq ht, holding?_eq ht₁] at this
  have hsupply : t.supply.add? n ≠ none := fun e => by
    have := Word.add?_eq_none.1 e
    omega
  unfold increase
  split
  · rfl
  · unfold checkIncrease at hcheck ⊢
    rw [ht] at hcheck
    rw [ht₁]
    dsimp only at hcheck ⊢
    rw [if_neg fun h => Bool.false_ne_true h.1] at hcheck
    rw [if_neg fun h => hsupply h.2, hh, hsame.account]
    split at hcheck
    · split at hcheck
      · cases hcheck
      · rename_i hadd
        simp only [hadd, if_false, hfrozen]
        rfl
    · split at hcheck
      · cases hcheck
      · rename_i hmin
        split at hcheck
        · cases hcheck
        · rename_i hcreate
          simp only [hmin, hcreate, if_false, hfrozen]
          rfl

theorem transferToken_effect (hne : source ≠ dest)
    (h : l.transferToken id source dest n p = .ok l') :
    ∃ l₁, l.Only (some id) source l₁ ∧ l₁.Only (some id) dest l' ∧
      l.Pays source (some id) n.toNat l₁ ∧
      (p ≠ .expendable → l.least (some id) ≤ l.holds source (some id) - n.toNat) ∧
      ((l.supply id).toNat + n.toNat < 2 ^ (128 : Nat) →
        l'.holds dest (some id) = l.holds dest (some id) + n.toNat) := by
  obtain ⟨t, b, m, l₁, t', ht, hb, hle, hfrozen, hkeep, hcheck, htake, e⟩ := transferToken_ok h
  rw [if_neg hne] at e
  obtain ⟨hpaid, hpays, -, hs, htokens⟩ := takeHolding_ok ht hb hle htake
  have hsame := hpaid.others dest hne.symm
  refine ⟨l₁, hpaid, ?_, hpays, fun hp => ?_, fun hroom => ?_⟩
  · subst e
    rcases hi : l₁.increase id dest n with _ | l₂
    · exact .refl _ _ _
    · exact (receives_increase hi).1
  · rw [least_some ht, holds_some, holding_eq ht hb]
    exact hkeep hp
  · have ht₁ : l₁.tokens.get? id = some { t with holdings := hs } := by
      rw [htokens, SortedMap.get?_insert_self]
    rw [supply, ht] at hroom
    have hok := increase_of_checked hcheck ht hfrozen hsame ht₁ hroom
    rcases hi : l₁.increase id dest n with _ | l₂
    · rw [hi] at hok
      cases hok
    · rw [hi] at e
      subst e
      exact (receives_increase hi).2.1.trans (congrArg (· + _) (hsame.holds _))

end SwapFees.Ledger
