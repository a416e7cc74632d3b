import SwapFees.Preset
import SwapFees.Proofs.Registry
import SwapFees.Proofs.Steps

namespace SwapFees

/-- Accounts move neither the registry nor the base asset, and no pool away. -/
theorem Move.keeps_registry {party : AccountId → Prop} {c c' : Chain} (h : Move party c c') :
    c'.registry = c.registry ∧ c'.base = c.base ∧ c.pools.Persist c'.pools := by
  cases h with
  | trade hw ht hx => exact ⟨rfl, rfl, ht.persist⟩
  | _ => exact ⟨rfl, rfl, .refl _⟩

def Chain.RegistryLinked (c : Chain) : Prop := c.registry.Linked c.pools c.base

def Chain.RegistrySound (max : Word 32) (c : Chain) : Prop := c.registry.Sound max c.pools c.base

theorem Step.registryLinked {s : Settings} {growing : Prop} {c c' : Chain} (h : Step s growing c c')
    (hc : c.RegistryLinked) : c'.RegistryLinked := by
  unfold Chain.RegistryLinked at hc ⊢
  cases h with
  | move h =>
    obtain ⟨hr, hb, hp⟩ := h.keeps_registry
    rw [hr, hb]
    exact hc.persist hp
  | setBase base => exact Governance.linked_setBase hc base
  | setFeeToken hpath hroom => exact hc.insert hpath
  | removeFeeToken a => exact hc.erase a
  | setTakerFee hrate => exact hc
  | addPool hg h => exact hc.persist (Pools.persist_add h)

theorem Step.registrySound {s : Settings} {growing : Prop} {c c' : Chain} (h : Step s growing c c')
    (hc : c.RegistrySound s.maxFeeTokens) : c'.RegistrySound s.maxFeeTokens := by
  unfold Chain.RegistrySound at hc ⊢
  cases h with
  | move h =>
    obtain ⟨hr, hb, hp⟩ := h.keeps_registry
    rw [hr, hb]
    exact hc.persist hp
  | setBase base => exact Governance.sound_setBase hc base
  | setFeeToken hpath hroom =>
    refine hc.insert hpath (hroom.imp_right fun h => ?_)
    rw [← hc.counted]
    exact h
  | removeFeeToken a => exact hc.erase a
  | setTakerFee hrate => exact hc
  | addPool hg h => exact hc.persist (Pools.persist_add h)

namespace FeeGenesis

theorem register_cons_ok {ps : Pools} {base : Asset} {r r' : Registry} {t : FeeToken}
    {ts : List FeeToken} (h : register ps base r (t :: ts) = .ok r') :
    ps.checkPath t base = .ok () ∧ register ps base (r.insert t) ts = .ok r' := by
  unfold register at h
  split at h
  · cases h
  · split at h
    · cases h
    · rename_i hpath
      exact ⟨hpath, h⟩

theorem linked_register {ps : Pools} {base : Asset} {ts : List FeeToken} {r r' : Registry}
    (h : register ps base r ts = .ok r') (hr : r.Linked ps base) : r'.Linked ps base := by
  induction ts generalizing r with
  | nil =>
    cases h
    exact hr
  | cons t ts ih =>
    obtain ⟨hpath, h⟩ := register_cons_ok h
    exact ih h (hr.insert hpath)

theorem sound_register {max : Word 32} {ps : Pools} {base : Asset} {ts : List FeeToken}
    {r r' : Registry} (h : register ps base r ts = .ok r') (hr : r.Sound max ps base)
    (hlen : r.entries.size + ts.length ≤ max.toNat) : r'.Sound max ps base := by
  induction ts generalizing r with
  | nil =>
    cases h
    exact hr
  | cons t ts ih =>
    rw [List.length_cons] at hlen
    obtain ⟨hpath, h⟩ := register_cons_ok h
    refine ih h (hr.insert hpath (.inr (by omega))) ?_
    change (r.entries.insert t.asset t.pool).size + _ ≤ _
    rw [SortedMap.size_insert]
    split <;> omega

theorem build_ok {g : FeeGenesis} {s : Settings} {c c' : Chain} (h : g.build s c = .ok c') :
    g.tokens.length % 2 ^ (32 : Nat) ≤ s.maxFeeTokens.toNat ∧
      register c'.pools c'.base c.registry g.tokens = .ok c'.registry := by
  unfold build at h
  dsimp only at h
  split at h
  · cases h
  · rename_i hmax
    obtain ⟨r, hr, h⟩ := Answer.bind_ok.1 h
    cases h
    exact ⟨Nat.le_of_not_lt hmax, hr⟩

theorem registrySound_build {g : FeeGenesis} {s : Settings} {c c' : Chain}
    (h : g.build s c = .ok c') (hc : c.registry = .empty) (hlen : g.tokens.length < 2 ^ (32 : Nat)) :
    c'.RegistrySound s.maxFeeTokens := by
  obtain ⟨hmax, hr⟩ := build_ok h
  rw [hc] at hr
  refine sound_register hr Registry.sound_empty ?_
  have : Registry.empty.entries.size = 0 := rfl
  rw [Nat.mod_eq_of_lt hlen] at hmax
  omega

end FeeGenesis

theorem SwapGenesis.build_ok {g : SwapGenesis} {c c' : Chain} (h : g.build c = .ok c') :
    ∃ takerFee, c' = { c with takerFee } := by
  unfold build at h
  split at h
  · cases h
    exact ⟨c.takerFee, rfl⟩
  · split at h
    · cases h
      exact ⟨_, rfl⟩
    · cases h

namespace Genesis

variable {g : Genesis} {s : Settings}

theorem build_fees {c : Chain} (h : g.build s = .ok c) :
    ∃ c₁ c₂ takerFee, c₁.registry = .empty ∧ g.fees.build s c₁ = .ok c₂ ∧
      c = { c₂ with takerFee } := by
  obtain ⟨l₁, -, h⟩ := Answer.bind_ok.1 h
  obtain ⟨l₂, -, h⟩ := Answer.bind_ok.1 h
  obtain ⟨l₃, -, h⟩ := Answer.bind_ok.1 h
  obtain ⟨ps, -, h⟩ := Answer.bind_ok.1 h
  obtain ⟨c₂, hf, h⟩ := Answer.bind_ok.1 h
  obtain ⟨takerFee, rfl⟩ := SwapGenesis.build_ok h
  exact ⟨_, c₂, takerFee, rfl, hf, rfl⟩

theorem registrySound_build {c : Chain} (h : g.build s = .ok c)
    (hlen : g.fees.tokens.length < 2 ^ (32 : Nat)) : c.RegistrySound s.maxFeeTokens := by
  obtain ⟨c₁, c₂, takerFee, hempty, hf, rfl⟩ := build_fees h
  have hsound : c₂.RegistrySound s.maxFeeTokens := FeeGenesis.registrySound_build hf hempty hlen
  exact hsound

theorem registryLinked_build {c : Chain} (h : g.build s = .ok c) : c.RegistryLinked := by
  obtain ⟨c₁, c₂, takerFee, hempty, hf, rfl⟩ := build_fees h
  obtain ⟨-, hr⟩ := FeeGenesis.build_ok hf
  rw [hempty] at hr
  have hlinked : c₂.RegistryLinked := FeeGenesis.linked_register hr Registry.linked_empty
  exact hlinked

theorem Reaches.registrySound {w : World} (h : g.Reaches s w)
    (hlen : g.fees.tokens.length < 2 ^ (32 : Nat)) : w.chain.RegistrySound s.maxFeeTokens := by
  obtain ⟨c, ops, hb, rfl⟩ := h
  apply World.replay_keeps_of_steps (fun _ _ _ => trivial) Step.registrySound
  exact registrySound_build hb hlen

/-- However many fee tokens genesis lists, those that it registers are linked. -/
theorem Reaches.registryLinked {w : World} (h : g.Reaches s w) : w.chain.RegistryLinked := by
  obtain ⟨c, ops, hb, rfl⟩ := h
  apply World.replay_keeps_of_steps (fun _ _ _ => trivial) Step.registryLinked
  exact registryLinked_build hb

end Genesis

namespace Chain

theorem lookup?_base {max : Word 32} {c : Chain} (h : c.RegistrySound max) (a : Asset) :
    c.lookup? c.base a = c.registry.token? a := by
  unfold lookup?
  split
  · rename_i e
    rw [Registry.token?, e, h.base_unregistered]
    rfl
  · rfl

theorem eraseAll_stale {max : Word 32} {c : Chain} (h : c.RegistrySound max) (base : Asset) :
    c.registry.eraseAll (Governance.stale c base) =
      if base = c.base then c.registry else .empty := by
  split
  · rename_i e
    rw [e, Governance.stale_self h]
    rfl
  · rename_i hne
    refine Registry.eq_empty (h.counted.eraseAll _) fun a => ?_
    rw [Registry.pool?_eraseAll]
    split
    · rfl
    · rename_i hn
      cases ha : c.registry.pool? a with
      | none => rfl
      | some id => exact absurd (Governance.mem_stale_of_ne h hne ha) hn

theorem length_stale {max : Word 32} {c : Chain} (h : c.RegistrySound max) (base : Asset) :
    (Governance.stale c base).length + (if base = c.base then c.registry else .empty).entries.size =
      c.registry.entries.size := by
  split
  · rename_i e
    rw [e, Governance.stale_self h]
    exact Nat.zero_add _
  · rename_i hne
    exact Governance.length_stale_of_ne h hne

end Chain

/-- In every world that genesis leads to, the base asset has no entry, every entry has a pool that
holds its asset and the base asset, and the entries are counted and at most as many as allowed. So a
look-up that guards against the base asset finds what a plain one finds, and a new base asset
leaves no entry behind. -/
theorem Genesis.Reaches.registry_invariant {g : Genesis} {s : Settings} {w : World} (h : g.Reaches s w)
    (hlen : g.fees.tokens.length < 2 ^ (32 : Nat)) :
    w.chain.registry.pool? w.chain.base = none ∧
      (∀ a id, w.chain.registry.pool? a = some id →
        ∃ p, w.chain.pools.get? id = some p ∧ a ∈ p.assets ∧ w.chain.base ∈ p.assets) ∧
      w.chain.registry.count.toNat = w.chain.registry.entries.size ∧
      w.chain.registry.count ≤ s.maxFeeTokens ∧
      (∀ a, w.chain.lookup? w.chain.base a = w.chain.registry.token? a) ∧
      ∀ base, ∃ left pruned,
        left = (if base = w.chain.base then w.chain.registry else .empty) ∧
        pruned + left.entries.size = w.chain.registry.entries.size ∧
        ((Call.fees (.setBase base)).dispatch .root).run s w =
          (.ok (), w.with
            { w.chain with
              registry := left
              base
              events := w.chain.events ++ [.baseUpdated w.chain.base base pruned] }) := by
  have hs := h.registrySound hlen
  refine ⟨hs.base_unregistered, hs.paired, hs.counted, ?_, Chain.lookup?_base hs, fun base => ?_⟩
  · rw [Word.le_def, hs.counted]
    exact hs.size_le
  · refine ⟨_, _, rfl, Chain.length_stale hs base, ?_⟩
    rw [← Chain.eraseAll_stale hs]
    rfl

def Genesis.oneFeeToken : Genesis :=
  { Genesis.standard with
    pools := [⟨⟨.native, 1000⟩, ⟨.issued 1, 1000⟩, .sum, .zero⟩]
    fees := ⟨none, [⟨.issued 1, 1⟩]⟩ }

/-- It does so until the native currency is no longer the base asset. -/
theorem Genesis.registry_invariant_of_oneFeeToken :
    ∃ w, Genesis.oneFeeToken.Reaches .standard w ∧
      w.chain.registry.token? (.issued 1) = some ⟨.issued 1, 1⟩ ∧
      ∃ left pruned, left = Registry.empty ∧ pruned + left.entries.size = 1 ∧
        ((Call.fees (.setBase (.issued 2))).dispatch .root).run .standard w =
          (.ok (), w.with
            { w.chain with
              registry := left
              base := .issued 2
              events := w.chain.events ++ [.baseUpdated .native (.issued 2) pruned] }) := by
  obtain ⟨c, hc, hbase, hregistry⟩ : ∃ c, Genesis.oneFeeToken.build .standard = .ok c ∧
      c.base = .native ∧ c.registry = ⟨SortedMap.empty.insert (.issued 1) 1, 1⟩ :=
    ⟨_, rfl, rfl, by decide⟩
  have hr : Genesis.oneFeeToken.Reaches .standard ⟨c, []⟩ := ⟨c, [], hc, rfl⟩
  obtain ⟨-, -, -, -, -, h⟩ := Genesis.Reaches.registry_invariant hr (by decide)
  obtain ⟨left, pruned, hl, hp, hrun⟩ := h (.issued 2)
  simp only [hbase, hregistry] at hl hp hrun
  exact ⟨⟨c, []⟩, hr, by rw [hregistry]; decide, left, pruned, hl, hp, hrun⟩

end SwapFees
