import SwapFees.Genesis
import SwapFees.Proofs.Moves
import SwapFees.Proofs.Pool

namespace SwapFees

namespace Registry

variable {r : Registry}

@[simp] theorem pool?_insert (r : Registry) (t : FeeToken) (a : Asset) :
    (r.insert t).pool? a = if t.asset = a then some t.pool else r.pool? a := by
  by_cases h : t.asset = a
  · subst h
    simp [insert, pool?]
  · rw [if_neg h]
    exact SortedMap.get?_insert_of_ne _ _ h

@[simp] theorem pool?_erase (r : Registry) (q a : Asset) :
    (r.erase q).pool? a = if q = a then none else r.pool? a := by
  by_cases h : q = a
  · subst h
    simp [erase, pool?]
  · rw [if_neg h]
    exact SortedMap.get?_erase_of_ne _ h

@[simp] theorem pool?_eraseAll (r : Registry) (as : List Asset) (a : Asset) :
    (r.eraseAll as).pool? a = if a ∈ as then none else r.pool? a := by
  induction as generalizing r with
  | nil => rfl
  | cons q as ih =>
    rw [eraseAll, List.foldl_cons]
    refine (ih _).trans ?_
    by_cases hq : q = a
    · simp [hq]
    · simp [hq, Ne.symm hq]

theorem mem_entries {a : Asset} {id : PoolId} : (a, id) ∈ r.entries.toList ↔ r.pool? a = some id :=
  SortedMap.mem_toList

def Counted (r : Registry) : Prop := r.count.toNat = r.entries.size

theorem Counted.insert (h : r.Counted) (t : FeeToken)
    (hroom : r.contains t.asset = false → r.entries.size + 1 < 2 ^ (32 : Nat)) :
    (r.insert t).Counted := by
  unfold Counted at h ⊢
  simp only [Registry.insert, SortedMap.size_insert]
  change _ = if r.contains t.asset then _ else _
  split
  · exact h
  · rename_i hc
    have one : (1 : Word 32).toNat = 1 := rfl
    have := hroom (Bool.eq_false_iff.2 hc)
    rw [Word.toNat_addSat, one, h]
    omega

theorem Counted.erase (h : r.Counted) (a : Asset) : (r.erase a).Counted := by
  unfold Counted at h ⊢
  simp only [Registry.erase, SortedMap.size_erase]
  change _ = if r.contains a then _ else _
  split
  · rw [Word.toNat_subSat, h]
    rfl
  · exact h

theorem Counted.eraseAll (h : r.Counted) (as : List Asset) : (r.eraseAll as).Counted := by
  induction as generalizing r with
  | nil => exact h
  | cons a as ih => exact ih (h.erase a)

theorem size_erase_le (r : Registry) (a : Asset) : (r.erase a).entries.size ≤ r.entries.size := by
  simp only [erase, SortedMap.size_erase]
  split <;> omega

theorem size_eraseAll_le (r : Registry) (as : List Asset) :
    (r.eraseAll as).entries.size ≤ r.entries.size := by
  induction as generalizing r with
  | nil => exact Nat.le_refl _
  | cons a as ih => exact Nat.le_trans (ih (r.erase a)) (r.size_erase_le a)

theorem checkPath_ok {ps : Pools} {base : Asset} {t : FeeToken} (h : ps.checkPath t base = .ok ()) :
    t.asset ≠ base ∧ ∃ p, ps.get? t.pool = some p ∧ t.asset ∈ p.assets ∧ base ∈ p.assets := by
  unfold Pools.checkPath at h
  split at h
  · cases h
  · rename_i hne
    split at h
    · cases h
    · rename_i p hp
      split at h
      · rename_i hm
        exact ⟨hne, p, hp, hm⟩
      · cases h

/-- The base asset has no entry, and every entry's pool holds its asset and the base asset. -/
structure Linked (r : Registry) (ps : Pools) (base : Asset) : Prop where
  base_unregistered : r.pool? base = none
  paired : ∀ a id, r.pool? a = some id → ∃ p, ps.get? id = some p ∧ a ∈ p.assets ∧ base ∈ p.assets

variable {ps ps' : Pools} {base : Asset}

theorem linked_empty : Registry.empty.Linked ps base where
  base_unregistered := rfl
  paired a id h := by cases h

namespace Linked

theorem persist (h : r.Linked ps base) (hp : ps.Persist ps') : r.Linked ps' base where
  base_unregistered := h.base_unregistered
  paired a id ha := by
    obtain ⟨p, hg, hm, hb⟩ := h.paired a id ha
    obtain ⟨q, hq, e⟩ := hp id p hg
    exact ⟨q, hq, e ▸ hm, e ▸ hb⟩

theorem insert (h : r.Linked ps base) {t : FeeToken} (hpath : ps.checkPath t base = .ok ()) :
    (r.insert t).Linked ps base := by
  obtain ⟨hne, p, hp, hm⟩ := checkPath_ok hpath
  refine ⟨?_, fun a id ha => ?_⟩
  · rw [pool?_insert, if_neg hne]
    exact h.base_unregistered
  · rw [pool?_insert] at ha
    split at ha
    · rename_i e
      cases ha
      exact ⟨p, hp, e ▸ hm⟩
    · exact h.paired a id ha

theorem erase (h : r.Linked ps base) (a : Asset) : (r.erase a).Linked ps base where
  base_unregistered := by
    rw [pool?_erase, h.base_unregistered]
    split <;> rfl
  paired q id hq := by
    rw [pool?_erase] at hq
    split at hq
    · cases hq
    · exact h.paired q id hq

theorem ne_base (h : r.Linked ps base) {a : Asset} {id : PoolId} (ha : r.pool? a = some id) :
    a ≠ base := by
  rintro rfl
  rw [h.base_unregistered] at ha
  cases ha

theorem pool?_inj (h : r.Linked ps base) {a b : Asset} {id : PoolId} (ha : r.pool? a = some id)
    (hb : r.pool? b = some id) : a = b := by
  obtain ⟨p, hp, hm, hbase⟩ := h.paired a id ha
  obtain ⟨q, hq, hm', -⟩ := h.paired b id hb
  obtain rfl := Option.some.inj (hp.symm.trans hq)
  exact Pool.eq_of_mem_assets hm hm' hbase (h.ne_base ha) (h.ne_base hb)

end Linked

/-- What governance promises of the registry while `base` is the base asset and at most `max` fee
tokens are accepted. -/
structure Sound (r : Registry) (max : Word 32) (ps : Pools) (base : Asset) : Prop where
  base_unregistered : r.pool? base = none
  paired : ∀ a id, r.pool? a = some id → ∃ p, ps.get? id = some p ∧ a ∈ p.assets ∧ base ∈ p.assets
  counted : r.Counted
  size_le : r.entries.size ≤ max.toNat

variable {max : Word 32}

theorem Sound.linked (h : r.Sound max ps base) : r.Linked ps base :=
  ⟨h.base_unregistered, h.paired⟩

theorem Linked.sound (h : r.Linked ps base) (hc : r.Counted) (hmax : r.entries.size ≤ max.toNat) :
    r.Sound max ps base :=
  ⟨h.base_unregistered, h.paired, hc, hmax⟩

theorem sound_empty : Registry.empty.Sound max ps base :=
  linked_empty.sound rfl (Nat.zero_le _)

theorem Sound.persist (h : r.Sound max ps base) (hp : ps.Persist ps') : r.Sound max ps' base :=
  (h.linked.persist hp).sound h.counted h.size_le

theorem Sound.insert (h : r.Sound max ps base) {t : FeeToken} (hpath : ps.checkPath t base = .ok ())
    (hroom : r.contains t.asset = true ∨ r.entries.size < max.toNat) :
    (r.insert t).Sound max ps base := by
  have hmax := max.isLt
  refine (h.linked.insert hpath).sound (h.counted.insert t fun hc => ?_) ?_
  · rcases hroom with e | e
    · rw [hc] at e
      cases e
    · omega
  · have := h.size_le
    simp only [Registry.insert, SortedMap.size_insert]
    change (if r.contains t.asset then _ else _) ≤ _
    split
    · exact this
    · rename_i hc
      rcases hroom with e | e
      · exact absurd e hc
      · exact e

theorem Sound.erase (h : r.Sound max ps base) (a : Asset) : (r.erase a).Sound max ps base :=
  (h.linked.erase a).sound (h.counted.erase a) (Nat.le_trans (r.size_erase_le a) h.size_le)

theorem eq_empty (hc : r.Counted) (h : ∀ a, r.pool? a = none) : r = .empty := by
  have he : r.entries = ∅ := SortedMap.ext h
  obtain ⟨entries, count⟩ := r
  subst he
  have : count = 0 := Word.ext hc
  rw [this]
  rfl

end Registry

namespace Chain

variable {c : Chain} {base a : Asset}

theorem pool?_of_lookup? {t : FeeToken} (h : c.lookup? base a = some t) :
    c.registry.pool? a = some t.pool := by
  unfold lookup? at h
  split at h
  · cases h
  · obtain ⟨id, hid, rfl⟩ := Option.map_eq_some_iff.1 h
    exact hid

end Chain

namespace Governance

variable {c : Chain} {base : Asset}

theorem mem_stale {a : Asset} :
    a ∈ stale c base ↔ ∃ id, c.registry.pool? a = some id ∧
      (a = base ∨ ¬ ∃ p, c.pools.get? id = some p ∧ base ∈ p.assets) := by
  unfold stale
  rw [List.mem_map]
  constructor
  · rintro ⟨⟨q, id⟩, hm, rfl⟩
    obtain ⟨hm, hs⟩ := List.mem_filter.1 hm
    refine ⟨id, Registry.mem_entries.1 hm, ?_⟩
    simpa [Option.any_eq_true] using hs
  · rintro ⟨id, hid, hs⟩
    refine ⟨(a, id), List.mem_filter.2 ⟨Registry.mem_entries.2 hid, ?_⟩, rfl⟩
    simpa [Option.any_eq_true] using hs

/-- After a change of base, what is left converts to the new one. -/
theorem linked_setBase (h : c.registry.Linked c.pools c.base) (base : Asset) :
    (c.registry.eraseAll (stale c base)).Linked c.pools base where
  base_unregistered := by
    rw [Registry.pool?_eraseAll]
    split
    · rfl
    · rename_i hn
      cases hb : c.registry.pool? base with
      | none => rfl
      | some id => exact absurd (mem_stale.2 ⟨id, hb, .inl rfl⟩) hn
  paired a id ha := by
    rw [Registry.pool?_eraseAll] at ha
    split at ha
    · cases ha
    · rename_i hn
      obtain ⟨p, hp, hm, -⟩ := h.paired a id ha
      refine ⟨p, hp, hm, Classical.byContradiction fun hb => hn (mem_stale.2 ⟨id, ha, .inr ?_⟩)⟩
      rintro ⟨q, hq, hb'⟩
      obtain rfl := Option.some.inj (hp.symm.trans hq)
      exact hb hb'

theorem sound_setBase {max : Word 32} (h : c.registry.Sound max c.pools c.base) (base : Asset) :
    (c.registry.eraseAll (stale c base)).Sound max c.pools base :=
  (linked_setBase h.linked base).sound (h.counted.eraseAll _)
    (Nat.le_trans (c.registry.size_eraseAll_le _) h.size_le)

theorem stale_self {max : Word 32} (h : c.registry.Sound max c.pools c.base) :
    stale c c.base = [] := by
  refine List.eq_nil_iff_forall_not_mem.2 fun a ha => ?_
  obtain ⟨id, hid, e | hn⟩ := mem_stale.1 ha
  · rw [e, h.base_unregistered] at hid
    cases hid
  · obtain ⟨p, hp, -, hb⟩ := h.paired a id hid
    exact hn ⟨p, hp, hb⟩

/-- A pool has two assets, so no entry converts to another base asset than the old one. -/
theorem mem_stale_of_ne {max : Word 32} (h : c.registry.Sound max c.pools c.base)
    (hne : base ≠ c.base) {a : Asset} {id : PoolId} (ha : c.registry.pool? a = some id) :
    a ∈ stale c base := by
  obtain ⟨p, hp, hm, hb⟩ := h.paired a id ha
  refine mem_stale.2 ⟨id, ha, ?_⟩
  by_cases e : a = base
  · exact .inl e
  · refine .inr ?_
    rintro ⟨q, hq, hb'⟩
    obtain rfl := Option.some.inj (hp.symm.trans hq)
    exact e (Pool.eq_of_mem_assets hm hb' hb (h.linked.ne_base ha) hne)

theorem length_stale_of_ne {max : Word 32} (h : c.registry.Sound max c.pools c.base)
    (hne : base ≠ c.base) : (stale c base).length = c.registry.entries.size := by
  unfold stale SortedMap.size
  rw [List.length_map, List.length_filter_eq_length_iff]
  rintro ⟨a, id⟩ hm
  have hs := mem_stale_of_ne h hne (Registry.mem_entries.1 hm)
  obtain ⟨id', hid', hs⟩ := mem_stale.1 hs
  obtain rfl := Option.some.inj ((Registry.mem_entries.1 hm).symm.trans hid')
  simpa [Option.any_eq_true] using hs

end Governance

end SwapFees
