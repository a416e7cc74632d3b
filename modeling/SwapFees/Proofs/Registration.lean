import SwapFees.Proofs.FeeTokens

namespace SwapFees

namespace Registry

variable {r : Registry} {t : FeeToken} {ts : List FeeToken}

theorem contains_insert (r : Registry) (t : FeeToken) (a : Asset) :
    (r.insert t).contains a = if t.asset = a then true else r.contains a := by
  show ((r.insert t).pool? a).isSome = _
  rw [pool?_insert]
  split <;> rfl

def insertAll (r : Registry) (ts : List FeeToken) : Registry := ts.foldl insert r

theorem insertAll_cons (r : Registry) (t : FeeToken) (ts : List FeeToken) :
    r.insertAll (t :: ts) = (r.insert t).insertAll ts := rfl

/-- The tokens are of different assets, none of which is registered. -/
structure Fresh (r : Registry) (ts : List FeeToken) : Prop where
  distinct : (ts.map FeeToken.asset).Nodup
  absent : ∀ t ∈ ts, r.contains t.asset = false

theorem fresh_empty (h : (ts.map FeeToken.asset).Nodup) : Registry.empty.Fresh ts where
  distinct := h
  absent _ _ := rfl

theorem Fresh.head (h : r.Fresh (t :: ts)) : r.contains t.asset = false := by
  apply h.absent
  simp

theorem Fresh.tail (h : r.Fresh (t :: ts)) : (r.insert t).Fresh ts := by
  obtain ⟨hnew, hdistinct⟩ := List.nodup_cons.1 h.distinct
  refine ⟨hdistinct, fun u hu => ?_⟩
  have hne : t.asset ≠ u.asset := fun e => hnew (e ▸ List.mem_map_of_mem hu)
  rw [contains_insert, if_neg hne]
  apply h.absent
  simp [hu]

theorem size_insert_of_fresh (h : r.Fresh (t :: ts)) :
    (r.insert t).entries.size = r.entries.size + 1 := by
  show (r.entries.insert t.asset t.pool).size = _
  rw [SortedMap.size_insert]
  exact if_neg (Bool.eq_false_iff.1 h.head)

end Registry

namespace FeeGenesis

variable {g : FeeGenesis} {s : Settings} {c c' : Chain} {ps : Pools} {base : Asset}
  {r r' : Registry} {ts : List FeeToken}

/-- Genesis registers tokens that are new exactly if each has a path to the base asset. -/
theorem register_iff (h : r.Fresh ts) :
    register ps base r ts = .ok r' ↔
      (∀ t ∈ ts, ps.checkPath t base = .ok ()) ∧ r' = r.insertAll ts := by
  induction ts generalizing r with
  | nil => simp [register, Registry.insertAll, eq_comm]
  | cons t ts ih =>
    unfold register
    simp only [h.head, Bool.false_eq_true, if_false]
    split
    · rename_i e hpath
      simp [halt, hpath]
    · rename_i hpath
      rw [ih h.tail, Registry.insertAll_cons]
      simp [hpath]

/-- Genesis never refuses a list: it accepts it or halts. -/
theorem register_error {e : Failure} (h : register ps base r ts = .error e) :
    ∃ f, e = .fault f := by
  induction ts generalizing r with
  | nil => cases h
  | cons t ts ih =>
    unfold register at h
    split at h
    · cases h
      exact ⟨_, rfl⟩
    · split at h
      · cases h
        exact ⟨_, rfl⟩
      · exact ih h

theorem build_error {e : Failure} (h : g.build s c = .error e) : ∃ f, e = .fault f := by
  unfold build at h
  dsimp only at h
  split at h
  · cases h
    exact ⟨_, rfl⟩
  · rcases hr : register c.pools (g.base.getD c.base) c.registry g.tokens with e' | r
    · rw [hr] at h
      cases h
      exact register_error hr
    · rw [hr] at h
      cases h

theorem build_iff (hfresh : c.registry.Fresh g.tokens) (hlen : g.tokens.length < 2 ^ (32 : Nat)) :
    g.build s c = .ok c' ↔
      (g.tokens.length ≤ s.maxFeeTokens.toNat ∧
        ∀ t ∈ g.tokens, c.pools.checkPath t (g.base.getD c.base) = .ok ()) ∧
      c' = { c with
        base := g.base.getD c.base
        registry := c.registry.insertAll g.tokens
        ledger := c.ledger.addProvider s.feeAccount } := by
  unfold build
  dsimp only
  rw [Nat.mod_eq_of_lt hlen]
  split
  · rename_i hmany
    simp [halt]
    omega
  · rename_i hfew
    rw [Answer.bind_ok]
    simp only [register_iff hfresh]
    constructor
    · rintro ⟨r, ⟨hpaths, rfl⟩, h⟩
      cases h
      exact ⟨⟨by omega, hpaths⟩, rfl⟩
    · rintro ⟨⟨-, hpaths⟩, rfl⟩
      exact ⟨_, ⟨hpaths, rfl⟩, rfl⟩

end FeeGenesis

open Effect

namespace Governance

variable {s : Settings} {w w' : World} {t : FeeToken} {ts : List FeeToken}

/-- The world with one more fee token. -/
def entered (w : World) (t : FeeToken) : World :=
  w.with
    { w.chain with
      registry := w.chain.registry.insert t
      events := w.chain.events ++ [.feeTokenSet t] }

theorem setFeeToken_ok :
    ((Call.fees (.setFeeToken t)).dispatch .root).run s w = (.ok (), w') ↔
      (w.chain.pools.checkPath t w.chain.base = .ok () ∧
        (w.chain.registry.contains t.asset = false → w.chain.registry.count < s.maxFeeTokens)) ∧
      w' = entered w t := by
  rw [Call.dispatch, atomically_ok]
  show (setFeeToken t).run s w = _ ↔ _
  unfold setFeeToken
  rw [run_bind_chain]
  split
  · rename_i e hpath
    simp [hpath]
  · rename_i hpath
    rw [run_bind_read]
    split
    · rename_i hfull
      constructor
      · intro h
        cases h
      · rintro ⟨⟨-, hroom⟩, -⟩
        exact absurd hfull.2 (Nat.not_le.2 (hroom (Bool.eq_false_iff.2 hfull.1)))
    · rename_i hroom
      constructor
      · intro h
        cases h
        refine ⟨⟨hpath, fun hnew => Nat.lt_of_not_le fun hfull => ?_⟩, rfl⟩
        exact hroom ⟨Bool.eq_false_iff.1 hnew, hfull⟩
      · rintro ⟨-, rfl⟩
        rfl

/-- One call for each of the tokens. -/
def registerAll : List FeeToken → Effect Unit
  | [] => pure ()
  | t :: ts => do
    (Call.fees (.setFeeToken t)).dispatch .root
    registerAll ts

/-- The calls for tokens that are new all go through exactly if each token has a path to the base
asset and there is room for all of them. -/
theorem registerAll_ok (hfresh : w.chain.registry.Fresh ts) (hcounted : w.chain.registry.Counted)
    (hsize : w.chain.registry.entries.size ≤ s.maxFeeTokens.toNat) :
    (registerAll ts).run s w = (.ok (), w') ↔
      (w.chain.registry.entries.size + ts.length ≤ s.maxFeeTokens.toNat ∧
        ∀ t ∈ ts, w.chain.pools.checkPath t w.chain.base = .ok ()) ∧
      w' = ts.foldl entered w := by
  induction ts generalizing w with
  | nil => simp [registerAll, hsize, eq_comm (a := w')]
  | cons t ts ih =>
    have hnext : (entered w t).chain.registry.entries.size = w.chain.registry.entries.size + 1 :=
      Registry.size_insert_of_fresh hfresh
    have hroom : w.chain.registry.count < s.maxFeeTokens ↔
        (entered w t).chain.registry.entries.size ≤ s.maxFeeTokens.toNat := by
      rw [Word.lt_def, hcounted, hnext]
      omega
    -- After the first call one more is registered, and the others are still new.
    have hrest (hfits : (entered w t).chain.registry.entries.size ≤ s.maxFeeTokens.toNat) :=
      ih (w := entered w t) hfresh.tail
        (hcounted.insert t fun _ => by have := s.maxFeeTokens.isLt; omega) hfits
    rw [registerAll, bind_ok, List.foldl_cons, List.length_cons, List.forall_mem_cons]
    constructor
    · rintro ⟨⟨⟩, v, hset, h⟩
      obtain ⟨⟨hpath, hfree⟩, rfl⟩ := setFeeToken_ok.1 hset
      obtain ⟨⟨hfits, hpaths⟩, hw⟩ := (hrest (hroom.1 (hfree hfresh.head))).1 h
      exact ⟨⟨by omega, hpath, hpaths⟩, hw⟩
    · rintro ⟨⟨hfits, hpath, hpaths⟩, hw⟩
      have hfirst : (entered w t).chain.registry.entries.size ≤ s.maxFeeTokens.toNat := by omega
      refine ⟨(), entered w t, setFeeToken_ok.2 ⟨⟨hpath, fun _ => hroom.2 hfirst⟩, rfl⟩, ?_⟩
      exact (hrest hfirst).2 ⟨⟨by omega, hpaths⟩, hw⟩

theorem foldl_entered (w : World) (ts : List FeeToken) :
    ts.foldl entered w = w.with
      { w.chain with
        registry := w.chain.registry.insertAll ts
        events := w.chain.events ++ ts.map .feeTokenSet } := by
  induction ts generalizing w with
  | nil => simp [Registry.insertAll]
  | cons t ts ih =>
    rw [List.foldl_cons, ih]
    simp [entered, Registry.insertAll_cons]

end Governance

/-- Genesis accepts a list of different fee tokens, whose length fits its count, exactly if
governance could set them one after the other under the same base asset. Then both leave the same
base asset and the same registry, its count included. -/
theorem FeeGenesis.build_iff_registerAll {g : FeeGenesis} {s : Settings} {w : World}
    (hempty : w.chain.registry = .empty) (hdistinct : (g.tokens.map FeeToken.asset).Nodup)
    (hlen : g.tokens.length < 2 ^ (32 : Nat)) :
    ((∀ f, g.build s w.chain ≠ .error (.fault f)) ↔
        ∃ w', (Governance.registerAll g.tokens).run s
          (w.with { w.chain with base := g.base.getD w.chain.base }) = (.ok (), w')) ∧
      ∀ w', (Governance.registerAll g.tokens).run s
          (w.with { w.chain with base := g.base.getD w.chain.base }) = (.ok (), w') →
        ∃ c, g.build s w.chain = .ok c ∧ c.base = w'.chain.base ∧
          c.registry = w'.chain.registry := by
  have hfresh : w.chain.registry.Fresh g.tokens := hempty ▸ Registry.fresh_empty hdistinct
  have hsize : w.chain.registry.entries.size = 0 := by
    rw [hempty]
    rfl
  have hcounted : w.chain.registry.Counted := by
    rw [hempty]
    rfl
  have hbuild (c : Chain) := @build_iff g s w.chain c hfresh hlen
  let w₀ := w.with { w.chain with base := g.base.getD w.chain.base }
  have hcalls (w' : World) :=
    @Governance.registerAll_ok s w₀ w' g.tokens hfresh hcounted (by simp [w₀, hsize])
  simp only [w₀, hsize, Nat.zero_add] at hcalls
  constructor
  · constructor
    · intro hruns
      rcases hr : g.build s w.chain with e | c
      · obtain ⟨f, rfl⟩ := build_error hr
        exact absurd hr (hruns f)
      · exact ⟨_, (hcalls _).2 ⟨((hbuild c).1 hr).1, rfl⟩⟩
    · rintro ⟨w', h⟩ f hhalts
      have hr := (hbuild _).2 ⟨((hcalls w').1 h).1, rfl⟩
      rw [hhalts] at hr
      cases hr
  · intro w' h
    obtain ⟨haccepted, rfl⟩ := (hcalls w').1 h
    refine ⟨_, (hbuild _).2 ⟨haccepted, rfl⟩, ?_⟩
    rw [Governance.foldl_entered]
    exact ⟨rfl, rfl⟩

/-- Two tokens with a pool of native currency each, which becomes the base asset. -/
def FeeGenesis.twoTokens : FeeGenesis := ⟨some .native, [⟨.issued 1, 1⟩, ⟨.issued 2, 2⟩]⟩

def Governance.twoPools : World where
  chain :=
    { ledger := ⟨1, 0, ∅, ∅⟩
      pools := .ofList
        [(1, ⟨⟨.native, 1000⟩, ⟨.issued 1, 1000⟩, .sum, .zero⟩),
          (2, ⟨⟨.issued 2, 500⟩, ⟨.native, 1000⟩, .product, .percent 1⟩)]
      base := .issued 1, registry := .empty, burned := ∅, cursor := none, takerFee := .zero
      events := [] }
  log := []

/-- Governance sets both tokens, so genesis accepts them. -/
theorem FeeGenesis.build_twoTokens :
    ∃ c, twoTokens.build .standard Governance.twoPools.chain = .ok c ∧ c.base = .native ∧
      c.registry = (Registry.empty.insert ⟨.issued 1, 1⟩).insert ⟨.issued 2, 2⟩ := by
  let w := Governance.twoPools.with { Governance.twoPools.chain with base := .native }
  have hset : ((Governance.registerAll twoTokens.tokens).run .standard w).1 = .ok () := by
    decide +kernel
  have hleft : ((Governance.registerAll twoTokens.tokens).run .standard w).2.chain.registry =
      (Registry.empty.insert ⟨.issued 1, 1⟩).insert ⟨.issued 2, 2⟩ := by decide +kernel
  have hbase : ((Governance.registerAll twoTokens.tokens).run .standard w).2.chain.base =
      .native := by decide +kernel
  obtain ⟨-, hagree⟩ :=
    @build_iff_registerAll twoTokens .standard Governance.twoPools rfl (by decide) (by decide)
  obtain ⟨c, hbuild, hc, hr⟩ := hagree _ (Prod.ext hset rfl)
  exact ⟨c, hbuild, hc.trans hbase, hr.trans hleft⟩

end SwapFees
