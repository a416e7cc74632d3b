import SwapFees.Proofs.Fallback

namespace SwapFees.Sweep

open Effect

variable {s : Settings} {base a : Asset} {c c' : Chain} {w w' : World} {as : List Asset}

/-- What a visit makes of a chain. All that the fee account holds of `a` is exchanged for what the pool
registered for it gives; it stays where none is registered or the swap is refused, and only there. -/
inductive Visited (s : Settings) (base a : Asset) (c : Chain) : Chain → Prop
  | empty (hzero : c.balance s.feeAccount a = 0) : Visited s base a c c
  | sold {fee out : Coin} {t : FeeToken} {ps : Pools} {l : Ledger} {es : List Event}
    (hfee : fee = ⟨a, c.balance s.feeAccount a⟩) (hsome : fee.amount ≠ 0)
    (ht : c.lookup? base a = some t) (hcarry : c.pools.carry fee [⟨t.pool, base⟩] = .ok (out, ps))
    (hout : out.amount ≠ 0) (hx : c.ledger.Exchanges s.feeAccount fee out l)
    (hes : ∀ e ∈ es, e = .feeTokenSwapped t.pool fee out) :
    Visited s base a c { c with ledger := l, pools := ps, events := c.events ++ es }
  | stays {fee : Coin} (hfee : fee = ⟨a, c.balance s.feeAccount a⟩) (hsome : fee.amount ≠ 0)
    (hrefused : ∀ t ∈ c.lookup? base a, Conversion.Refused s base t fee c) : Visited s base a c c

theorem Visited.frame (h : Visited s base a c c') :
    c'.registry = c.registry ∧ c'.cursor = c.cursor := by
  cases h <;> exact ⟨rfl, rfl⟩

theorem visit_ok (h : (visit base a).run s w = (.ok (), w')) :
    Visited s base a w.chain w'.chain := by
  unfold visit at h
  rw [run_bind_chain, run_bind_read] at h
  dsimp only at h
  split at h
  · rename_i hzero
    obtain ⟨-, rfl⟩ := Prod.mk.inj h
    exact .empty hzero
  · rename_i hsome
    obtain ⟨r, v, hr, h⟩ := bind_ok.1 h
    obtain ⟨-, rfl⟩ := Prod.mk.inj h
    have hrefused (hunswappable : r = .unswappable) (hbase : a ≠ base) :
        ∀ t ∈ w.chain.lookup? base a, Conversion.Refused s base t _ w.chain := fun t ht =>
      Conversion.fails_iff.1 ((Conversion.unswappable_iff_fails hbase ht hr).1 hunswappable)
    have ho := Conversion.convert_outcome hr
    generalize w.chain = c, v.chain = c' at hsome hrefused ho ⊢
    cases ho with
    | kept hbase =>
      refine .stays rfl hsome fun t ht => ?_
      rw [Chain.lookup?, if_pos hbase] at ht
      cases ht
    | exchanged _ _ ht _ hout hcarry hx hes => exact .sold rfl hsome ht hcarry hout hx hes
    | refused hbase => exact .stays rfl hsome (hrefused rfl hbase)

theorem ResidueBurned.frame (h : ResidueBurned s base c c') :
    c'.registry = c.registry ∧ c'.cursor = c.cursor := by
  obtain ⟨residue, -, ⟨rfl, -⟩ | ⟨-, n, l, -, rfl⟩⟩ := h <;> exact ⟨rfl, rfl⟩

/-- Visits are made one after the other, each in what the ones before it leave. -/
inductive Tour (s : Settings) (base : Asset) : List Asset → World → World → Prop
  | done (w : World) : Tour s base [] w w
  | visit {a : Asset} {as : List Asset} {w v w' : World} (hrun : (visit base a).run s w = (.ok (), v))
    (hvisited : Visited s base a w.chain v.chain) (hrest : Tour s base as v w') :
    Tour s base (a :: as) w w'

theorem Tour.frame (h : Tour s base as w w') :
    w'.chain.registry = w.chain.registry ∧ w'.chain.cursor = w.chain.cursor := by
  induction h with
  | done => exact ⟨rfl, rfl⟩
  | visit _ hvisited _ ih =>
    obtain ⟨hr, hc⟩ := hvisited.frame
    exact ⟨ih.1.trans hr, ih.2.trans hc⟩

theorem tour_of_visitAll (h : (visitAll base as).run s w = (.ok (), w')) : Tour s base as w w' := by
  induction as generalizing w with
  | nil =>
    obtain ⟨-, rfl⟩ := Prod.mk.inj h
    exact .done _
  | cons a as ih =>
    obtain ⟨⟨⟩, v, ha, h⟩ := bind_ok.1 h
    exact .visit ha (visit_ok ha) (ih h)

/-- What a sweep does to a world: it visits these assets, moves the cursor and, where it burns, burns
what is then found of the base asset. -/
def Performs (s : Settings) (visited : List Asset) (burns : Bool) (w w' : World) : Prop :=
  ∃ v moved, Tour s w.chain.base visited w v ∧
    moved = v.with { v.chain with cursor := w'.chain.cursor } ∧
    if burns then (burnResidue w.chain.base).run s moved = (.ok (), w') ∧
      ResidueBurned s w.chain.base moved.chain w'.chain
    else w' = moved

/-- What a sweep performs, and the weight that it takes. -/
theorem performs_of_idle {budget used : Weight} (h : (idle budget).run s w = (.ok used, w')) :
    ∃ burns, Performs s (visits s w.chain budget).visited burns w w' ∧
      ((visits s w.chain budget).used + Schedule.flat.burnResidue).fits budget = burns ∧
      used = if burns then (visits s w.chain budget).used + Schedule.flat.burnResidue
        else (visits s w.chain budget).used := by
  obtain ⟨v, moved, burns, hv, hmoved, hburns, hused, h⟩ := idle_ok h
  refine ⟨burns, ⟨v, moved, tour_of_visitAll hv, ?_, ?_⟩, hburns, hused⟩
  · have hcursor : w'.chain.cursor = moved.chain.cursor := by
      cases burns with
      | true => exact (burnResidue_ok h).frame.2
      | false => exact congrArg (fun u => u.chain.cursor) h
    rw [hcursor, hmoved]
  · cases burns with
    | true => exact ⟨h, burnResidue_ok h⟩
    | false => exact h

end SwapFees.Sweep
