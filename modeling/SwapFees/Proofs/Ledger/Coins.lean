import SwapFees.Proofs.Ledger.Native
import SwapFees.Proofs.Ledger.Tokens
import SwapFees.Proofs.Outcome

namespace SwapFees.Ledger

variable {l l' : Ledger} {who : AccountId} {c : Coin} {n : Amount}

theorem burn_effect (h : l.burn who c = .ok (n, l')) :
    l.Only c.asset.id? who l' ∧
      (l.Anchored who → l.Pays who c.asset.id? c.amount.toNat l' ∧
        (l.holds who c.asset.id? = c.amount.toNat ∨
          c.amount.toNat + l.least c.asset.id? ≤ l.holds who c.asset.id? → n = c.amount)) := by
  unfold burn at h
  split at h
  · rename_i hid
    rw [hid]
    rcases hb : l.burnNative who c.amount with _ | l₁
    · rw [hb] at h
      cases h
    · rw [hb] at h
      cases h
      obtain ⟨hle, issuance, -, rfl⟩ := burnNative_ok hb
      exact ⟨(only_setFree l who _).withIssuance _, fun ha => ⟨pays_setFree ha hle, fun _ => rfl⟩⟩
  · rename_i id hid
    rw [hid]
    rcases burnToken_ok h with ⟨hz, rfl, rfl⟩ | ⟨t, b, l₁, ht, hb, hle, htake, rfl⟩
    · rw [hz, Word.toNat_zero]
      exact ⟨.refl _ _ _, fun _ => ⟨⟨Nat.zero_le _, .inl rfl⟩, fun _ => rfl⟩⟩
    · obtain ⟨ho, hp, hn, -⟩ := takeHolding_ok ht hb hle htake
      have hs := sameFor_setSupply l₁ id (t.supply.subSat n)
      have hh := (hs who).holds (some id)
      refine ⟨ho.trans (.of_sameFor hs), fun _ => ⟨⟨hp.1, hh.symm ▸ hp.2⟩, fun hrest => ?_⟩⟩
      have := hp.holds_eq hrest
      rw [holds_some, holds_some, holding_eq ht hb] at this
      rw [holds_some] at hn
      exact Word.ext (by omega)

theorem mint_effect (h : l.mint who c = .ok l') :
    l.Only c.asset.id? who l' ∧
      (l.Anchored who → l'.holds who c.asset.id? = l.holds who c.asset.id? + c.amount.toNat) := by
  unfold mint at h
  split at h
  · rename_i hid
    rw [hid]
    obtain ⟨issuance, total, -, ht, hm, rfl⟩ := mintNative_ok h
    refine ⟨(only_setFree l who _).withIssuance _, fun ha => ?_⟩
    have hf := free_setFree ha total
    rw [if_pos hm] at hf
    exact (congrArg Word.toNat hf).trans ht
  · rename_i id hid
    rw [hid]
    obtain ⟨supply, l₁, -, hi, rfl⟩ := mintToken_ok h
    obtain ⟨ho, hh, -⟩ := receives_increase hi
    have hs := sameFor_setSupply l₁ id supply
    exact ⟨ho.trans (.of_sameFor hs), fun _ => ((hs who).holds (some id)).trans hh⟩

variable {source dest : AccountId} {p : Preservation}

theorem transfer_self (h : l.transfer source source c p = .ok l') : l' = l := by
  unfold transfer at h
  split at h
  · obtain ⟨-, -, -, l₁, -, e⟩ := transferNative_ok h
    rwa [if_pos rfl] at e
  · obtain ⟨t, b, m, l₁, t', -, -, -, -, -, -, -, e⟩ := transferToken_ok h
    rwa [if_pos rfl] at e

/-- A payment that the sender must survive leaves it the minimum, also where it pays itself. -/
theorem transfer_keeps (h : l.transfer source dest c p = .ok l') (hp : p ≠ .expendable) :
    c.amount.toNat + l.least c.asset.id? ≤ l.holds source c.asset.id? := by
  unfold transfer at h
  split at h
  · rename_i hid
    rw [hid]
    obtain ⟨hle, hkeep, -⟩ := transferNative_ok h
    have hle : c.amount.toNat ≤ (l.free source).toNat := hle
    have hkeep := hkeep hp
    rw [least_none, holds_none]
    omega
  · rename_i id hid
    rw [hid]
    obtain ⟨t, b, m, l₁, t', ht, hb, hle, -, hkeep, -⟩ := transferToken_ok h
    have hle : c.amount.toNat ≤ b.toNat := hle
    have hkeep := hkeep hp
    rw [least_some ht, holds_some, holding_eq ht hb]
    omega

/-- The sender pays and then the receiver gains, all of it as long as the supply would bear minting
the coin. -/
theorem transfer_effect (hne : source ≠ dest) (h : l.transfer source dest c p = .ok l') :
    ∃ l₁, l.Only c.asset.id? source l₁ ∧ l₁.Only c.asset.id? dest l' ∧
      (l.Anchored source → l.Pays source c.asset.id? c.amount.toNat l₁) ∧
      (p ≠ .expendable →
        l.least c.asset.id? ≤ l.holds source c.asset.id? - c.amount.toNat) ∧
      (l.Anchored dest → c.amount ≠ 0 →
        (∀ id ∈ c.asset.id?, (l.supply id).toNat + c.amount.toNat < 2 ^ (128 : Nat)) →
        l'.holds dest c.asset.id? = l.holds dest c.asset.id? + c.amount.toNat) := by
  unfold transfer at h
  split at h
  · rename_i hid
    rw [hid]
    obtain ⟨l₁, hpaid, hgot, hpays, hkeep, harrives⟩ := transferNative_effect hne h
    exact ⟨l₁, hpaid, hgot, hpays, hkeep, fun ha hn _ => harrives ha hn⟩
  · rename_i id hid
    rw [hid]
    obtain ⟨l₁, hpaid, hgot, hpays, hkeep, harrives⟩ := transferToken_effect hne h
    exact ⟨l₁, hpaid, hgot, fun _ => hpays, hkeep, fun _ _ hroom => harrives (hroom id rfl)⟩

theorem transfer_least (h : l.transfer source dest c p = .ok l') (j : Option AssetId) :
    l'.least j = l.least j := by
  by_cases hne : source = dest
  · subst hne
    rw [transfer_self h]
  · obtain ⟨l₁, h₁, h₂, -⟩ := transfer_effect hne h
    exact (h₂.least j).trans (h₁.least j)

theorem transfer_others (h : l.transfer source dest c p = .ok l') {q : AccountId} (hs : q ≠ source)
    (hd : q ≠ dest) : SameFor q l l' := by
  by_cases hne : source = dest
  · subst hne
    rw [transfer_self h]
    exact .refl q l
  · obtain ⟨l₁, h₁, h₂, -⟩ := transfer_effect hne h
    exact (h₁.others q hs).trans (h₂.others q hd)

theorem transfer_source (hne : source ≠ dest) (h : l.transfer source dest c p = .ok l')
    (ha : l.Anchored source) :
    l.Charged source c.asset.id? c.amount.toNat l' ∧
      (p ≠ .expendable →
        l.least c.asset.id? ≤ l.holds source c.asset.id? - c.amount.toNat) := by
  obtain ⟨l₁, h₁, h₂, hpays, hkeep, -⟩ := transfer_effect hne h
  exact ⟨(h₁.charged ha (hpays ha)).sameFor (h₂.others source hne), hkeep⟩

theorem transfer_dest (hne : source ≠ dest) (h : l.transfer source dest c p = .ok l')
    (ha : l.Anchored dest) (hn : c.amount ≠ 0)
    (hroom : ∀ id ∈ c.asset.id?, (l.supply id).toNat + c.amount.toNat < 2 ^ (128 : Nat)) :
    l.Credited dest c.asset.id? c.amount.toNat l' := by
  obtain ⟨l₁, h₁, h₂, -, -, hgain⟩ := transfer_effect hne h
  have hsame := h₁.others dest hne.symm
  have hc := h₂.rest (hsame.anchored ha)
  exact ⟨fun j => (h₂.least j).trans (h₁.least j), h₂.anchored (hsame.anchored ha),
    hgain ha hn hroom, fun j hj => (hc j hj).trans (hsame.holds j)⟩

theorem exchanges_others {tokenIn tokenOut : Coin} (h : l.Exchanges who tokenIn tokenOut l')
    {q : AccountId} (hq : q ≠ who) : SameFor q l l' := by
  obtain ⟨n, l₁, hb, hm⟩ := h
  have h₁ := (burn_effect hb).1.others q hq
  split at hm
  · exact hm ▸ h₁
  · exact h₁.trans ((mint_effect hm).1.others q hq)

theorem exchanges_least {tokenIn tokenOut : Coin} (h : l.Exchanges who tokenIn tokenOut l')
    (j : Option AssetId) : l'.least j = l.least j := by
  obtain ⟨n, l₁, hb, hm⟩ := h
  have h₁ := (burn_effect hb).1.least j
  split at hm
  · exact hm ▸ h₁
  · exact ((mint_effect hm).1.least j).trans h₁

theorem exchanges_effect {tokenIn tokenOut : Coin} (h : l.Exchanges who tokenIn tokenOut l')
    (ha : l.Anchored who) :
    ∃ l₁, l.Charged who tokenIn.asset.id? tokenIn.amount.toNat l₁ ∧
      l₁.Credited who tokenOut.asset.id? tokenOut.amount.toNat l' := by
  obtain ⟨n, l₁, hb, hm⟩ := h
  obtain ⟨ho, hburn⟩ := burn_effect hb
  have hcharged := ho.charged ha (hburn ha).1
  refine ⟨l₁, hcharged, ?_⟩
  split at hm
  · rename_i hz
    rw [hm, hz, Word.toNat_zero]
    exact .zero hcharged.anchored _
  · obtain ⟨ho', hh⟩ := mint_effect hm
    exact ho'.credited hcharged.anchored (hh hcharged.anchored)

end SwapFees.Ledger
