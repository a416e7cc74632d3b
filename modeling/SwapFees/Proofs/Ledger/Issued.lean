import SwapFees.Proofs.Ledger.Coins
import SwapFees.Proofs.Reserves

namespace SwapFees.Ledger

def issued (l : Ledger) : Option AssetId → Nat
  | none => l.issuance.toNat
  | some id => (l.supply id).toNat

/-- What all accounts together hold under a number. -/
def circulating (l : Ledger) : Option AssetId → Nat
  | none => l.accounts.total fun a => a.free.toNat
  | some id => weigh (fun t => t.holdings.total Word.toNat) (l.tokens.get? id)

def Covered (l : Ledger) : Prop := ∀ j, l.circulating j ≤ l.issued j

variable {l l' : Ledger} {who : AccountId} {n m : Amount} {id : AssetId} {t : Token}

theorem issued_some (ht : l.tokens.get? id = some t) : l.issued (some id) = t.supply.toNat := by
  simp [issued, supply, ht]

theorem circulating_some (ht : l.tokens.get? id = some t) :
    l.circulating (some id) = t.holdings.total Word.toNat := by
  simp [circulating, ht]

theorem covered_of_entries (hn : l.circulating none ≤ l.issued none)
    (ht : ∀ e ∈ l.tokens.toList, e.2.holdings.total Word.toNat ≤ e.2.supply.toNat) : l.Covered := by
  intro j
  cases j with
  | none => exact hn
  | some id =>
    cases he : l.tokens.get? id with
    | none => simp [circulating, he]
    | some t =>
      rw [circulating_some he, issued_some he]
      exact ht (id, t) (SortedMap.mem_toList.2 he)

theorem free_le_circulating (l : Ledger) (who : AccountId) :
    (l.free who).toNat ≤ l.circulating none := by
  have h := l.accounts.weigh_le_total (fun a => a.free.toNat) who
  unfold free account
  cases hw : l.accounts.get? who with
  | none => exact Nat.le_trans (Nat.le_of_eq Word.toNat_zero) (Nat.zero_le _)
  | some a =>
    rw [hw] at h
    exact h

theorem circulating_putAccount (l : Ledger) (who : AccountId) (a : Account) :
    (l.putAccount who a).circulating none + (l.free who).toNat ≤
      l.circulating none + a.free.toNat := by
  have hfree : (l.free who).toNat = weigh (fun a => a.free.toNat) (l.accounts.get? who) := by
    unfold free account
    cases l.accounts.get? who with
    | none => exact Word.toNat_zero
    | some a => rfl
  have herase := l.accounts.total_erase (fun a => a.free.toNat) who
  have hinsert := l.accounts.total_insert (fun a => a.free.toNat) who a
  rw [← hfree] at herase hinsert
  unfold putAccount
  split
  · change (l.accounts.erase who).total _ + _ ≤ l.accounts.total _ + _
    omega
  · exact Nat.le_of_eq hinsert

theorem issued_putAccount (a : Account) (j : Option AssetId) :
    (l.putAccount who a).issued j = l.issued j := by
  cases j <;> simp [issued, supply]

theorem circulating_putAccount_some (a : Account) (id : AssetId) :
    (l.putAccount who a).circulating (some id) = l.circulating (some id) := by
  simp [circulating]

theorem covered_addProvider (hc : l.Covered) (who : AccountId) : (l.addProvider who).Covered := by
  have hput := l.circulating_putAccount who
    { l.account who with providers := (l.account who).providers + 1 }
  intro j
  unfold addProvider
  rw [issued_putAccount]
  cases j with
  | none => exact Nat.le_trans (Nat.le_of_add_le_add_right hput) (hc none)
  | some id =>
    rw [circulating_putAccount_some]
    exact hc (some id)

theorem setFree_books (l : Ledger) (who : AccountId) (n : Amount) :
    ∃ dropped, (dropped = 0 ∨ dropped = n.toNat ∧ n.toNat < l.least none) ∧
      (l.setFree who n).issued none = l.issued none - dropped ∧
      (l.setFree who n).circulating none + (l.free who).toNat + dropped ≤
        l.circulating none + n.toNat ∧
      ∀ id, (l.setFree who n).issued (some id) = l.issued (some id) ∧
        (l.setFree who n).circulating (some id) = l.circulating (some id) := by
  have hc := l.circulating_putAccount who (Account.keeping l.minBalance (l.account who) n)
  rw [Account.free_keeping] at hc
  rw [setFree_eq]
  have hrest : ∀ id (k : Amount),
      { l.putAccount who (Account.keeping l.minBalance (l.account who) n) with
        issuance := k }.issued (some id) = l.issued (some id) ∧
      { l.putAccount who (Account.keeping l.minBalance (l.account who) n) with
        issuance := k }.circulating (some id) = l.circulating (some id) := fun id k =>
    ⟨issued_putAccount _ (some id), circulating_putAccount_some _ id⟩
  by_cases hn : l.minBalance ≤ n
  · rw [if_pos hn] at hc ⊢
    exact ⟨0, .inl rfl, rfl, hc, fun id => hrest id _⟩
  · rw [if_neg hn, Word.toNat_zero] at hc
    rw [if_neg hn]
    refine ⟨n.toNat, .inr ⟨rfl, Nat.lt_of_not_le hn⟩, rfl, ?_, fun id => hrest id _⟩
    exact Nat.add_le_add_right hc n.toNat

theorem issued_putToken (l : Ledger) (id : AssetId) (t : Token) (j : Option AssetId) :
    (l.putToken id t).issued j = if j = some id then t.supply.toNat else l.issued j := by
  cases j with
  | none => rfl
  | some k =>
    unfold issued supply
    by_cases h : k = id
    · simp [h]
    · simp [h, SortedMap.get?_insert_of_ne _ _ (Ne.symm h)]

theorem circulating_putToken (l : Ledger) (id : AssetId) (t : Token) (j : Option AssetId) :
    (l.putToken id t).circulating j =
      if j = some id then t.holdings.total Word.toNat else l.circulating j := by
  cases j with
  | none => rfl
  | some k =>
    unfold circulating
    by_cases h : k = id
    · simp [h]
    · simp [h, SortedMap.get?_insert_of_ne _ _ (Ne.symm h)]

theorem circulating_reference (hl : l' = l.giveReference t who ∨ l' = l.takeReference t who)
    (j : Option AssetId) : l'.circulating j ≤ l.circulating j ∧ l'.issued j = l.issued j := by
  have h : ∃ a : Account, a.free = l.free who ∧ l' = l.putAccount who a := by
    rcases hl with rfl | rfl
    · exact ⟨_, by split <;> rfl, rfl⟩
    · exact ⟨_, by split <;> rfl, rfl⟩
  obtain ⟨a, ha, rfl⟩ := h
  refine ⟨?_, issued_putAccount a j⟩
  cases j with
  | none =>
    have := l.circulating_putAccount who a
    rw [ha] at this
    omega
  | some id => exact Nat.le_of_eq (circulating_putAccount_some a id)

theorem putHoldings_books {l₀ : Ledger} (ht : l.tokens.get? id = some t)
    (h : l₀ = l ∨ ∃ who, l₀ = l.giveReference t who ∨ l₀ = l.takeReference t who)
    (hs : SortedMap AccountId Amount) :
    (l₀.putToken id { t with holdings := hs }).circulating (some id) = hs.total Word.toNat ∧
      (∀ j, j ≠ some id →
        (l₀.putToken id { t with holdings := hs }).circulating j ≤ l.circulating j) ∧
      ∀ j, (l₀.putToken id { t with holdings := hs }).issued j = l.issued j := by
  have hbooks : ∀ j, l₀.circulating j ≤ l.circulating j ∧ l₀.issued j = l.issued j := by
    rcases h with rfl | ⟨who, h⟩
    · exact fun j => ⟨Nat.le_refl _, rfl⟩
    · exact circulating_reference h
  refine ⟨?_, fun j hj => ?_, fun j => ?_⟩
  · rw [circulating_putToken, if_pos rfl]
  · rw [circulating_putToken, if_neg hj]
    exact (hbooks j).1
  · rw [issued_putToken]
    split
    · rename_i hj
      rw [hj, issued_some ht]
    · exact (hbooks j).2

theorem takeHolding_books {b : Amount} (ht : l.tokens.get? id = some t)
    (hb : t.holdings.get? who = some b) (hn : n ≤ b) (hr : l.takeHolding id t who b n = (m, l')) :
    n ≤ m ∧ l'.circulating (some id) + m.toNat = l.circulating (some id) ∧
      (∀ j, j ≠ some id → l'.circulating j ≤ l.circulating j) ∧ ∀ j, l'.issued j = l.issued j := by
  have hle : n.toNat ≤ b.toNat := hn
  rw [circulating_some ht]
  unfold takeHolding at hr
  dsimp only at hr
  split at hr
  · obtain ⟨rfl, rfl⟩ := Prod.mk.inj hr
    have htotal := t.holdings.total_erase Word.toNat who
    rw [hb, weigh_some] at htotal
    obtain ⟨hc, ho, hi⟩ := putHoldings_books ht (.inr ⟨who, .inl rfl⟩) (t.holdings.erase who)
    exact ⟨hn, by rw [hc, htotal], ho, hi⟩
  · obtain ⟨rfl, rfl⟩ := Prod.mk.inj hr
    have htotal := t.holdings.total_insert Word.toNat who (b.subSat n)
    rw [hb, weigh_some, Word.toNat_subSat] at htotal
    obtain ⟨hc, ho, hi⟩ :=
      putHoldings_books ht (.inl rfl) (t.holdings.insert who (b.subSat n))
    exact ⟨Nat.le_refl _, by rw [hc]; omega, ho, hi⟩

theorem increase_books (h : l.increase id who n = .ok l') :
    l'.circulating (some id) = l.circulating (some id) + n.toNat ∧
      (∀ j, j ≠ some id → l'.circulating j ≤ l.circulating j) ∧ ∀ j, l'.issued j = l.issued j := by
  rcases increase_ok h with ⟨rfl, rfl⟩ | ⟨t, hcheck, rfl⟩
  · rw [Word.toNat_zero]
    exact ⟨rfl, fun _ _ => Nat.le_refl _, fun _ => rfl⟩
  obtain ⟨ht, hfits, -⟩ := checkIncrease_ok hcheck
  rw [circulating_some ht]
  unfold addHolding
  split
  · rename_i b hb
    rw [holding_eq ht hb] at hfits
    have hsum : (b.addSat n).toNat = b.toNat + n.toNat := Word.toNat_saturate_of_lt hfits
    have htotal := t.holdings.total_insert Word.toNat who (b.addSat n)
    rw [hb, weigh_some, hsum] at htotal
    obtain ⟨hc, ho, hi⟩ :=
      putHoldings_books ht (.inl rfl) (t.holdings.insert who (b.addSat n))
    exact ⟨by rw [hc]; omega, ho, hi⟩
  · rename_i hb
    have htotal := t.holdings.total_insert Word.toNat who n
    rw [hb, weigh_none] at htotal
    obtain ⟨hc, ho, hi⟩ := putHoldings_books ht (.inr ⟨who, .inr rfl⟩) (t.holdings.insert who n)
    exact ⟨by rw [hc]; omega, ho, hi⟩

theorem setSupply_books (ht : l.tokens.get? id = some t) (n : Amount) (j : Option AssetId) :
    (l.setSupply id n).circulating j = l.circulating j ∧
      (l.setSupply id n).issued j = if j = some id then n.toNat else l.issued j := by
  unfold setSupply
  rw [ht]
  dsimp only
  rw [circulating_putToken, issued_putToken]
  refine ⟨?_, rfl⟩
  split
  · rename_i hj
    rw [hj, circulating_some ht]
  · rfl

/-- A burn counted as `n` takes that off the books, perhaps with a balance too small to be kept. -/
structure Burned (l : Ledger) (i : Option AssetId) (asked n : Amount) (l' : Ledger) : Prop where
  covered : l'.Covered
  asked_le : asked ≤ n
  issued_le : ∀ j, l'.issued j + (if j = i then n.toNat else 0) ≤ l.issued j
  issued_eq : (∀ j, l.least j ≤ 1) →
    n = asked ∧ ∀ j, l'.issued j + (if j = i then n.toNat else 0) = l.issued j

theorem burnNative_books (h : l.burnNative who n = .ok l') (hc : l.Covered) :
    l.Burned none n n l' := by
  obtain ⟨hle, issuance, hissuance, rfl⟩ := burnNative_ok h
  have hle : n.toNat ≤ (l.free who).toNat := hle
  have hfree := l.free_le_circulating who
  have hcover := hc none
  obtain ⟨dropped, hd, hi, hcirc, htokens⟩ := l.setFree_books who ((l.free who).subSat n)
  rw [Word.toNat_subSat] at hd hcirc
  have hissued : issuance.toNat + n.toNat + dropped = l.issued none := by
    rw [hissuance, Word.toNat_subSat]
    change (l.setFree who _).issued none - _ + _ + _ = _
    omega
  refine ⟨fun j => ?_, Nat.le_refl _, fun j => ?_, fun hunit => ⟨rfl, fun j => ?_⟩⟩
  · cases j with
    | none =>
      change (l.setFree who _).circulating none ≤ issuance.toNat
      omega
    | some id =>
      have := htokens id
      have := hc (some id)
      change (l.setFree who _).circulating (some id) ≤ (l.setFree who _).issued (some id)
      omega
  · cases j with
    | none => exact Nat.le_of_add_right_le (Nat.le_of_eq hissued)
    | some id => exact Nat.le_of_eq (htokens id).1
  · have := hunit none
    have hz : dropped = 0 := by omega
    rw [hz] at hissued
    cases j with
    | none => exact hissued
    | some id => exact (htokens id).1

theorem burnToken_books (h : l.burnToken id who n = .ok (m, l')) (hc : l.Covered) :
    l.Burned (some id) n m l' := by
  rcases burnToken_ok h with ⟨rfl, rfl, rfl⟩ | ⟨t, b, l₁, ht, hb, hle, htake, rfl⟩
  · have hz (j : Option AssetId) :
        l'.issued j + (if j = some id then (0 : Amount).toNat else 0) = l'.issued j := by
      rw [Word.toNat_zero, ite_self, Nat.add_zero]
    exact ⟨hc, Nat.le_refl _, fun j => Nat.le_of_eq (hz j), fun _ => ⟨rfl, hz⟩⟩
  obtain ⟨-, ⟨-, hpays⟩, hn, hs, htokens⟩ := takeHolding_ok ht hb hle htake
  obtain ⟨hasked, hcirc, hother, hissued⟩ := takeHolding_books ht hb hle htake
  have ht₁ : l₁.tokens.get? id = some { t with holdings := hs } := by
    rw [htokens, SortedMap.get?_insert_self]
  have hbooks := setSupply_books ht₁ (t.supply.subSat m)
  have hcover := hc (some id)
  rw [issued_some ht] at hcover
  -- The holding was covered by the supply, so the subtraction is exact.
  have heach : ∀ j, (l₁.setSupply id (t.supply.subSat m)).issued j +
      (if j = some id then m.toNat else 0) = l.issued j := by
    intro j
    rw [(hbooks j).2]
    split
    · rename_i hj
      rw [hj, issued_some ht, Word.toNat_subSat]
      omega
    · exact hissued j
  have hle : n.toNat ≤ b.toNat := hle
  have hheld : l.holds who (some id) = b.toNat := congrArg Word.toNat (holding_eq ht hb)
  refine ⟨fun j => ?_, hasked, fun j => Nat.le_of_eq (heach j), fun hunit => ⟨?_, heach⟩⟩
  · have := heach j
    have := hc j
    rw [(hbooks j).1]
    split at *
    · rename_i hj
      subst hj
      omega
    · rename_i hj
      have := hother j hj
      omega
  · have := hunit (some id)
    exact Word.ext (by omega)

variable {c : Coin}

theorem burn_books (h : l.burn who c = .ok (n, l')) (hc : l.Covered) :
    l.Burned c.asset.id? c.amount n l' := by
  unfold burn at h
  split at h
  · rename_i hid
    rw [hid]
    rcases hb : l.burnNative who c.amount with _ | l₁
    · rw [hb] at h
      cases h
    · rw [hb] at h
      cases h
      exact burnNative_books hb hc
  · rename_i id hid
    rw [hid]
    exact burnToken_books h hc

theorem setSupply_self (l : Ledger) (id : AssetId) : l.setSupply id (l.supply id) = l := by
  unfold setSupply supply
  cases ht : l.tokens.get? id with
  | none => rfl
  | some t =>
    unfold putToken
    dsimp only [Option.map_some, Option.getD_some]
    rw [SortedMap.insert_get? ht]

theorem mintToken_issued (h : l.mintToken id who n = .ok l') (j : Option AssetId) :
    l'.issued j = l.issued j + if j = some id then n.toNat else 0 := by
  obtain ⟨supply, l₁, hsupply, hinc, rfl⟩ := mintToken_ok h
  rcases increase_ok hinc with ⟨rfl, rfl⟩ | ⟨t, hcheck, rfl⟩
  · rw [Word.toNat_zero] at hsupply ⊢
    rw [Word.ext hsupply, setSupply_self, ite_self, Nat.add_zero]
  · obtain ⟨ht, hfits, -⟩ := checkIncrease_ok hcheck
    obtain ⟨-, -, hs, htokens⟩ := addHolding_ok hfits ht
    have ht₁ : (l.addHolding id t who n).tokens.get? id = some { t with holdings := hs } := by
      rw [htokens, SortedMap.get?_insert_self]
    rw [(setSupply_books ht₁ supply j).2]
    split
    · rename_i hj
      rw [hj]
      exact hsupply
    · exact (increase_books hinc).2.2 j

theorem mint_issued (h : l.mint who c = .ok l') (j : Option AssetId) :
    l'.issued j = l.issued j + if j = c.asset.id? then c.amount.toNat else 0 := by
  unfold mint at h
  split at h
  · rename_i hid
    rw [hid]
    obtain ⟨issuance, total, hi, -, -, rfl⟩ := mintNative_ok h
    obtain ⟨-, -, -, -, htokens⟩ := l.setFree_books who total
    cases j with
    | none => exact hi
    | some id => exact (htokens id).1
  · rename_i id hid
    rw [hid]
    exact mintToken_issued h j

theorem mintToken_books (h : l.mintToken id who n = .ok l') (hc : l.Covered) : l'.Covered := by
  have hissued := mintToken_issued h
  obtain ⟨supply, l₁, hsupply, hinc, rfl⟩ := mintToken_ok h
  rcases increase_ok hinc with ⟨rfl, rfl⟩ | ⟨t, hcheck, rfl⟩
  · rw [Word.toNat_zero] at hsupply
    rwa [Word.ext hsupply, setSupply_self]
  · obtain ⟨ht, hfits, -⟩ := checkIncrease_ok hcheck
    obtain ⟨-, -, hs, htokens⟩ := addHolding_ok hfits ht
    obtain ⟨hcirc, hother, -⟩ := increase_books hinc
    have ht₁ : (l.addHolding id t who n).tokens.get? id = some { t with holdings := hs } := by
      rw [htokens, SortedMap.get?_insert_self]
    intro j
    have := hc j
    rw [(setSupply_books ht₁ supply j).1, hissued]
    split
    · rename_i hj
      subst hj
      omega
    · rename_i hj
      have := hother j hj
      omega

theorem mint_books (h : l.mint who c = .ok l') (hc : l.Covered) :
    l'.Covered ∧
      ∀ j, l'.issued j = l.issued j + if j = c.asset.id? then c.amount.toNat else 0 := by
  refine ⟨?_, mint_issued h⟩
  unfold mint at h
  split at h
  · obtain ⟨issuance, total, hi, htotal, -, rfl⟩ := mintNative_ok h
    obtain ⟨dropped, -, -, hcirc, htokens⟩ := l.setFree_books who total
    intro j
    cases j with
    | none =>
      have hcover : _ ≤ l.issuance.toNat := hc none
      change (l.setFree who total).circulating none ≤ issuance.toNat
      omega
    | some id =>
      have := htokens id
      have := hc (some id)
      change (l.setFree who total).circulating (some id) ≤ (l.setFree who total).issued (some id)
      omega
  · exact mintToken_books h hc

variable {source dest : AccountId} {p : Preservation}

theorem transfer_supply (h : l.transfer source dest c p = .ok l') (id : AssetId) :
    l'.issued (some id) = l.issued (some id) := by
  by_cases hne : source = dest
  · subst hne
    rw [transfer_self h]
  unfold transfer at h
  split at h
  · obtain ⟨-, -, -, l₁, hl₁, e⟩ := transferNative_ok h
    rw [if_neg hne] at e
    obtain ⟨-, -, -, -, ht₁⟩ := l.setFree_books source ((l.free source).subSat c.amount)
    obtain ⟨-, -, -, -, ht₂⟩ := l₁.setFree_books dest ((l₁.free dest).addSat c.amount)
    rw [e, (ht₂ id).1, hl₁, (ht₁ id).1]
  · obtain ⟨t, b, m, l₁, t', ht, hb, hle, -, -, -, htake, e⟩ := transferToken_ok h
    rw [if_neg hne] at e
    obtain ⟨-, -, -, hissued⟩ := takeHolding_books ht hb hle htake
    rcases hi : l₁.increase _ dest c.amount with _ | l₂
    · rw [hi] at e
      exact e ▸ hissued _
    · rw [hi] at e
      obtain ⟨-, -, hincrease⟩ := increase_books hi
      exact e ▸ (hincrease _).trans (hissued _)

theorem transferNative_books (h : l.transferNative source dest n p = .ok l') (hne : source ≠ dest)
    (hc : l.Covered) :
    l'.Covered ∧ l'.issued none ≤ l.issued none ∧
      (l.least none ≤ 1 → l'.issued none = l.issued none) := by
  obtain ⟨hle, -, -, l₁, hl₁, e⟩ := transferNative_ok h
  rw [if_neg hne] at e
  have hle : n.toNat ≤ (l.free source).toNat := hle
  have hfree := l.free_le_circulating source
  have hcover := hc none
  have hleast : l₁.least none = l.least none := by
    rw [hl₁]
    exact (only_setFree l source _).least none
  have hsum : ((l₁.free dest).addSat n).toNat ≤ (l₁.free dest).toNat + n.toNat := by
    rw [Word.toNat_addSat]
    exact Nat.min_le_left _ _
  obtain ⟨d₁, hd₁, hi₁, hc₁, ht₁⟩ := l.setFree_books source ((l.free source).subSat n)
  obtain ⟨d₂, hd₂, hi₂, hc₂, ht₂⟩ := l₁.setFree_books dest ((l₁.free dest).addSat n)
  rw [← hl₁] at hi₁ hc₁ ht₁
  rw [← e] at hi₂ hc₂ ht₂
  rw [Word.toNat_subSat] at hd₁ hc₁
  refine ⟨fun j => ?_, by omega, fun hunit => ?_⟩
  · cases j with
    | none => omega
    | some id =>
      have := hc (some id)
      have := ht₁ id
      have := ht₂ id
      omega
  · omega

theorem transferToken_books (h : l.transferToken id source dest n p = .ok l') (hne : source ≠ dest)
    (hc : l.Covered) : l'.Covered ∧ l'.issued none = l.issued none := by
  obtain ⟨t, b, m, l₁, t', ht, hb, hle, -, -, -, htake, e⟩ := transferToken_ok h
  rw [if_neg hne] at e
  obtain ⟨hpaid, hcirc, hother, hissued⟩ := takeHolding_books ht hb hle htake
  have hpaid : n.toNat ≤ m.toNat := hpaid
  -- What fails to arrive is lost to the holdings and stays on the books.
  have harrive : (∀ j, l'.issued j = l₁.issued j) ∧ ∀ j, l'.circulating j ≤
      l₁.circulating j + if j = some id then n.toNat else 0 := by
    rcases hi : l₁.increase id dest n with _ | l₂
    · rw [hi] at e
      subst e
      exact ⟨fun _ => rfl, fun _ => Nat.le_add_right _ _⟩
    · rw [hi] at e
      subst e
      obtain ⟨hc₂, ho₂, hi₂⟩ := increase_books hi
      refine ⟨hi₂, fun j => ?_⟩
      split
      · rename_i hj
        rw [hj]
        exact Nat.le_of_eq hc₂
      · rename_i hj
        exact ho₂ j hj
  obtain ⟨hi₂, hc₂⟩ := harrive
  refine ⟨fun j => ?_, (hi₂ _).trans (hissued _)⟩
  have hc₂ := hc₂ j
  have := hc j
  rw [hi₂, hissued]
  split at hc₂
  · rename_i hj
    subst hj
    omega
  · rename_i hj
    have := hother j hj
    omega

/-- A transfer issues nothing, and at most takes a native balance too small to be kept. -/
theorem transfer_books (h : l.transfer source dest c p = .ok l') (hc : l.Covered) :
    l'.Covered ∧ l'.issued none ≤ l.issued none ∧
      (l.least none ≤ 1 → l'.issued none = l.issued none) := by
  by_cases hne : source = dest
  · subst hne
    rw [transfer_self h]
    exact ⟨hc, Nat.le_refl _, fun _ => rfl⟩
  unfold transfer at h
  split at h
  · exact transferNative_books h hne hc
  · obtain ⟨hc', hissued⟩ := transferToken_books h hne hc
    exact ⟨hc', Nat.le_of_eq hissued, fun _ => hissued⟩

theorem exchanges_books {tokenIn tokenOut : Coin} (h : l.Exchanges who tokenIn tokenOut l')
    (hc : l.Covered) :
    l'.Covered ∧
      (∀ j, l'.issued j + tokenIn.under j ≤ l.issued j + tokenOut.under j) ∧
      ((∀ j, l.least j ≤ 1) →
        ∀ j, l'.issued j + tokenIn.under j = l.issued j + tokenOut.under j) := by
  obtain ⟨n, l₁, hb, hm⟩ := h
  obtain ⟨hc₁, hasked, hle, heq⟩ := burn_books hb hc
  have hasked : tokenIn.amount.toNat ≤ n.toNat := hasked
  have hminted : l'.Covered ∧ ∀ j, l'.issued j = l₁.issued j + tokenOut.under j := by
    split at hm
    · rename_i hz
      rw [hm]
      refine ⟨hc₁, fun j => ?_⟩
      rw [Coin.under, hz, Word.toNat_zero, ite_self, Nat.add_zero]
    · exact mint_books hm hc₁
  refine ⟨hminted.1, fun j => ?_, fun hunit j => ?_⟩
  · have := hle j
    have : tokenIn.under j ≤ if j = tokenIn.asset.id? then n.toNat else 0 := by
      unfold Coin.under
      split <;> omega
    rw [hminted.2]
    omega
  · obtain ⟨rfl, heq⟩ := heq hunit
    have : l₁.issued j + tokenIn.under j = l.issued j := heq j
    rw [hminted.2]
    omega

end SwapFees.Ledger
