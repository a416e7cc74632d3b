import SwapFees.Proofs.Budget
import SwapFees.Proofs.Reachable
import SwapFees.Proofs.Settlement

namespace SwapFees

theorem SortedMap.get?_ofList_of_mem {κ υ : Type} [Ranked κ] {es : List (κ × υ)} {k : κ} {v : υ}
    (hm : (k, v) ∈ es) (h : ∀ u, (k, u) ∈ es → u = v) : (SortedMap.ofList es).get? k = some v := by
  suffices hall : ∀ m : SortedMap κ υ, m.get? k = some v ∨ (k, v) ∈ es →
      (es.foldl (fun m e => m.insert e.1 e.2) m).get? k = some v from hall ∅ (.inr hm)
  clear hm
  induction es with
  | nil => exact fun m hm => hm.resolve_right List.not_mem_nil
  | cons e es ih =>
    intro m hm
    refine ih (fun u hu => h u (List.mem_cons_of_mem _ hu)) _ ?_
    by_cases he : e.1 = k
    · -- The entry is written here, over whatever was.
      obtain rfl := he
      rw [get?_insert_self, h e.2 List.mem_cons_self]
      exact .inl rfl
    · rw [get?_insert_of_ne _ _ he]
      refine hm.imp_right fun hm => (List.mem_cons.1 hm).resolve_left fun e' => he ?_
      rw [← e']

namespace Registry

variable {r : Registry} {t : FeeToken}

theorem mem_slots {n : Nat} :
    (n, t) ∈ r.slots.toList ↔ n = t.asset.position ∧ r.token? t.asset = some t := by
  have entry {a : Asset} {id : PoolId} : (a, id) ∈ r.entries.toList ↔ r.token? a = some ⟨a, id⟩ := by
    rw [mem_entries, token?]
    cases r.pool? a <;> simp
  rw [SortedMap.mem_toList, slots]
  constructor
  · intro h
    obtain ⟨⟨a, id⟩, he, e⟩ := List.mem_map.1 (SortedMap.mem_of_get?_ofList h)
    obtain ⟨rfl, rfl⟩ := Prod.mk.inj e
    exact ⟨rfl, entry.1 he⟩
  · rintro ⟨rfl, h⟩
    refine SortedMap.get?_ofList_of_mem (List.mem_map.2 ⟨(t.asset, t.pool), entry.2 h, rfl⟩) ?_
    -- Another token in this place would be registered for the same asset.
    intro u hu
    obtain ⟨⟨a, id⟩, he, e⟩ := List.mem_map.1 hu
    obtain ⟨hp, rfl⟩ := Prod.mk.inj e
    obtain rfl := Asset.position_inj hp
    exact Option.some.inj ((entry.1 he).symm.trans h)

theorem after_some (r : Registry) (last : Asset) :
    r.after (some last) = r.inOrder.filter fun t => last.position < t.asset.position := by
  simp only [after, inOrder]
  rw [List.filter_map]
  congr 1
  refine List.filter_congr ?_
  rintro ⟨n, t⟩ he
  rw [(mem_slots.1 he).1, Function.comp_apply]

theorem increasing_inOrder (r : Registry) :
    r.inOrder.Pairwise fun t u => t.asset.position < u.asset.position := by
  rw [inOrder, List.pairwise_map]
  refine r.slots.increasing.imp_of_mem fun {e e'} he he' h => ?_
  rw [← (mem_slots.1 he).1, ← (mem_slots.1 he').1]
  exact h

theorem mem_inOrder : t ∈ r.inOrder ↔ r.token? t.asset = some t := by
  rw [inOrder, List.mem_map]
  constructor
  · rintro ⟨⟨n, u⟩, he, rfl⟩
    exact (mem_slots.1 he).2
  · exact fun h => ⟨(t.asset.position, t), mem_slots.2 ⟨rfl, h⟩, rfl⟩

theorem increasing_after (r : Registry) (cur : Option Asset) :
    (r.after cur).Pairwise fun t u => t.asset.position < u.asset.position := by
  cases cur with
  | none => exact r.increasing_inOrder
  | some last =>
    rw [after_some]
    exact r.increasing_inOrder.filter _

theorem mem_after {cur : Option Asset} :
    t ∈ r.after cur ↔
      r.token? t.asset = some t ∧ ∀ last ∈ cur, last.position < t.asset.position := by
  cases cur with
  | none => simp [after, mem_inOrder]
  | some last => simp [after_some, mem_inOrder]

theorem nodup_assets (r : Registry) (cur : Option Asset) :
    ((r.after cur).map FeeToken.asset).Nodup := by
  rw [List.Nodup, List.pairwise_map]
  exact (r.increasing_after cur).imp fun h e => Nat.ne_of_lt h (congrArg Asset.position e)

theorem after_last {cur : Option Asset} {k : Nat} {last : FeeToken}
    (hlast : ((r.after cur).take k).getLast? = some last) :
    r.after (some last.asset) = (r.after cur).drop k := by
  have hsub : r.after (some last.asset) =
      (r.after cur).filter fun t => last.asset.position < t.asset.position := by
    rw [after_some]
    cases cur with
    | none => rfl
    | some a =>
      -- What comes behind the last token comes behind the cursor, where that token is.
      have hmem := List.mem_of_mem_take (List.mem_of_getLast? hlast)
      have hlt : a.position < last.asset.position := (mem_after.1 hmem).2 a rfl
      rw [after_some, List.filter_filter]
      refine List.filter_congr fun t _ => ?_
      rw [← Bool.decide_and]
      exact decide_eq_decide.2 ⟨fun h => ⟨h, Nat.lt_trans hlt h⟩, And.left⟩
  obtain ⟨front, hfront⟩ := List.getLast?_eq_some_iff.1 hlast
  have hinc := r.increasing_after cur
  rw [← List.take_append_drop k (r.after cur), List.pairwise_append, hfront] at hinc
  obtain ⟨hfirst, -, hcross⟩ := hinc
  have hnone : ((r.after cur).take k).filter
      (fun t => last.asset.position < t.asset.position) = [] := by
    refine List.filter_eq_nil_iff.2 fun t ht => ?_
    rw [hfront] at ht
    rw [decide_eq_true_eq, Nat.not_lt]
    rcases List.mem_append.1 ht with ht | ht
    · exact Nat.le_of_lt ((List.pairwise_append.1 hfirst).2.2 t ht last (List.mem_singleton_self _))
    · exact Nat.le_of_eq (congrArg (Asset.position ∘ FeeToken.asset) (List.mem_singleton.1 ht))
  have hall : ((r.after cur).drop k).filter
      (fun t => last.asset.position < t.asset.position) = (r.after cur).drop k :=
    List.filter_eq_self.2 fun t ht => decide_eq_true <|
      hcross last (List.mem_append_right _ (List.mem_singleton_self _)) t ht
  rw [hsub, ← List.take_append_drop k (r.after cur), List.filter_append, hnone, hall,
    List.take_append_drop, List.nil_append]

end Registry

open Effect

namespace Sweep

variable {s : Settings} {w w' : World} {budget used : Weight}

/-- Whether a budget is enough for all the visits that a sweep may make. -/
def ample (s : Settings) (budget : Weight) : Bool :=
  (Schedule.flat.visit.times s.maxVisits).fits budget

theorem visits_of_ample (h : ample s budget = true) (c : Chain) :
    (visits s c budget).visited =
        ((c.registry.after c.cursor).take s.maxVisits.toNat).map FeeToken.asset ∧
      (visits s c budget).exhausted =
        decide ((c.registry.after c.cursor).length < s.maxVisits.toNat) := by
  obtain ⟨most, n, hmost, rfl, hv, -, he⟩ := visits_eq s c budget
  -- No multiple of a visit's weight saturates.
  have htimes : (Schedule.flat.visit.times s.maxVisits).parts = cost s.maxVisits.toNat false := by
    obtain ⟨ht, hs⟩ := cost_lt s.maxVisits.isLt false
    simp only [cost_visits, Nat.mul_comm s.maxVisits.toNat] at ht hs ⊢
    exact Prod.ext (Word.toNat_saturate_of_lt ht) (Word.toNat_saturate_of_lt hs)
  have hle : s.maxVisits.toNat ≤ most := by
    rw [hmost, ← htimes]
    exact Weight.fits_iff.1 h
  rw [hv, he, Nat.min_eq_left hle, Nat.min_eq_left (by omega), List.take_eq_take_min, Nat.min_assoc,
    Nat.min_self, ← List.take_eq_take_min]
  exact ⟨rfl, rfl⟩

theorem idle_frame (h : (idle budget).run s w = (.ok used, w')) :
    w'.chain.registry = w.chain.registry ∧
      w'.chain.cursor = (visits s w.chain budget).cursor w.chain.cursor := by
  obtain ⟨v, moved, burns, hv, rfl, -, -, h⟩ := idle_ok h
  obtain ⟨hr, hc⟩ := (tour_of_visitAll hv).frame
  rw [← hc]
  cases burns with
  | true =>
    obtain ⟨hr', hc'⟩ := (burnResidue_ok h).frame
    exact ⟨hr'.trans hr, hc'⟩
  | false =>
    obtain rfl : w' = _ := h
    exact ⟨hr, rfl⟩

/-- What a sweep with enough weight leaves to be visited: of fewer tokens than it may visit, nothing,
and the cursor goes back; else what comes behind those it visits. -/
theorem idle_advances (hk : 0 < s.maxVisits.toNat) (hb : ample s budget = true)
    (h : (idle budget).run s w = (.ok used, w')) :
    if (w.chain.registry.after w.chain.cursor).length < s.maxVisits.toNat then w'.chain.cursor = none
    else w.chain.registry.after w'.chain.cursor =
      (w.chain.registry.after w.chain.cursor).drop s.maxVisits.toNat := by
  obtain ⟨hv, he⟩ := visits_of_ample hb w.chain
  rw [(idle_frame h).2, Visits.cursor, he, hv]
  split
  · rename_i hfew
    rw [if_pos (decide_eq_true hfew)]
  · rename_i hmany
    rw [if_neg (by rwa [decide_eq_true_eq]), List.getLast?_map]
    obtain ⟨last, hlast⟩ : ∃ last,
        ((w.chain.registry.after w.chain.cursor).take s.maxVisits.toNat).getLast? = some last := by
      refine Option.ne_none_iff_exists'.1 fun e => ?_
      have := congrArg List.length (List.getLast?_eq_none_iff.1 e)
      rw [List.length_take, List.length_nil] at this
      omega
    rw [hlast]
    exact Registry.after_last hlast

/-- Sweeps over the registry `r`, each with enough weight and from where the one before left off, from
one cursor to another, with what each visits and does. Whatever else happens between them leaves the
registry and the cursor. -/
inductive Rounds (s : Settings) (r : Registry) :
    Option Asset → List (List Asset) → Option Asset → Prop
  | done (cur : Option Asset) : Rounds s r cur [] cur
  | sweep {w w' : World} {budget used : Weight} {burns : Bool} {rounds : List (List Asset)}
    {last : Option Asset} (hr : w.chain.registry = r) (hb : ample s budget = true)
    (hrun : (idle budget).run s w = (.ok used, w'))
    (hperforms : Performs s (visits s w.chain budget).visited burns w w')
    (hrest : Rounds s r w'.chain.cursor rounds last) :
    Rounds s r w.chain.cursor ((visits s w.chain budget).visited :: rounds) last

variable {r : Registry} {cur last : Option Asset} {rounds : List (List Asset)}

/-- Enough sweeps first visit all that comes behind the cursor, and put it back. -/
theorem Rounds.split (hk : 0 < s.maxVisits.toNat) (h : Rounds s r cur rounds last)
    (hmany : (r.after cur).length / s.maxVisits.toNat < rounds.length) :
    ∃ front back, rounds = front ++ back ∧
      front.length = (r.after cur).length / s.maxVisits.toNat + 1 ∧
      front.flatten = (r.after cur).map FeeToken.asset ∧
      Rounds s r cur front none ∧ Rounds s r none back last := by
  induction h with
  | done cur => exact absurd hmany (Nat.not_lt_zero _)
  | @sweep w w' budget used burns rounds last hr hb hrun hperforms hrest ih =>
    subst hr
    have hnext := idle_advances hk hb hrun
    obtain ⟨hv, -⟩ := visits_of_ample hb w.chain
    split at hnext
    · rename_i hfew
      rw [hnext] at hrest
      refine ⟨[_], rounds, rfl, ?_, ?_, .sweep rfl hb hrun hperforms (hnext ▸ .done _), hrest⟩
      · rw [Nat.div_eq_of_lt hfew]
        rfl
      · rw [List.flatten_singleton, hv, List.take_of_length_le (Nat.le_of_lt hfew)]
    · rename_i hle
      -- The tokens behind the new cursor need one sweep less.
      have hdiv := Nat.div_eq_sub_div hk (Nat.le_of_not_lt hle)
      have hlen : (w.chain.registry.after w'.chain.cursor).length =
          (w.chain.registry.after w.chain.cursor).length - s.maxVisits.toNat := by
        rw [hnext, List.length_drop]
      rw [hdiv, List.length_cons] at hmany
      obtain ⟨front, back, rfl, hfront, hflat, hthere, hback⟩ := ih (by rw [hlen]; omega)
      refine ⟨_ :: front, back, rfl, ?_, ?_, .sweep rfl hb hrun hperforms hthere, hback⟩
      · rw [List.length_cons, hfront, hlen, hdiv]
      · rw [List.flatten_cons, hflat, hnext, hv, ← List.map_append, List.take_append_drop]

end Sweep

end SwapFees
