import SwapFees.Proofs.Coverage
import SwapFees.Proofs.Fallback
import SwapFees.Proofs.Locality

namespace SwapFees

/-- What a conversion brings in. -/
def Conversion.gain : Conversion → Nat
  | converted c => c.amount.toNat
  | unswappable => 0

/-- What becomes of a fee from one chain to another: all of it is gone, for what its pool gives as it
is at first, or it and its pool stay as they are. -/
def Conversion.Disposes (s : Settings) (base : Asset) (fee : Coin) (c c' : Chain) : Conversion → Prop
  | converted out => out.asset = base ∧ c'.balance s.feeAccount fee.asset = 0 ∧
    ∃ t p p', c.lookup? base fee.asset = some t ∧ c.pools.get? t.pool = some p ∧
      p.swapIn fee.asset base fee.amount = .ok (out.amount, p') ∧ c'.pools.get? t.pool = some p'
  | unswappable => c'.balance s.feeAccount fee.asset = c.balance s.feeAccount fee.asset ∧
    ∀ t ∈ c.lookup? base fee.asset, c'.pools.get? t.pool = c.pools.get? t.pool

theorem Visits.sublist_plan (unit budget used : Weight) (max : Nat) (as : List Asset) :
    (plan unit budget max used as).visited.Sublist as := by
  induction as generalizing used max with
  | nil => exact .refl _
  | cons a as ih =>
    unfold plan
    split
    · exact (ih _ _).cons_cons a
    · exact List.nil_sublist _

namespace Chain

/-- The coins that an account holds of these assets. -/
def found (c : Chain) (who : AccountId) (as : List Asset) : List Coin :=
  (as.map fun a => ⟨a, c.balance who a⟩).filter fun fee => !fee.isZero

/-- The assets have neither a ledger entry nor a pool in common. -/
def Separate (c : Chain) (base a b : Asset) : Prop :=
  a.id? ≠ b.id? ∧ ∀ t ∈ c.lookup? base a, ∀ u ∈ c.lookup? base b, t.pool ≠ u.pool

/-- The base asset and the fee tokens have a ledger entry each. -/
def KeptApart (c : Chain) : Prop :=
  ∀ a ∈ c.base :: c.registry.entries.keys, ∀ b ∈ c.base :: c.registry.entries.keys,
    a.id? = b.id? → a = b

instance (c : Chain) : Decidable c.KeptApart :=
  inferInstanceAs (Decidable (∀ a ∈ _, ∀ b ∈ _, _))

variable {c c' : Chain} {base a b : Asset} {who : AccountId} {as : List Asset}

theorem balance_eq_iff :
    c'.balance who a = c.balance who a ↔ c'.ledger.holds who a.id? = c.ledger.holds who a.id? := by
  rw [← Ledger.toNat_balance, ← Ledger.toNat_balance]
  exact ⟨congrArg Word.toNat, Word.ext⟩

theorem lookup?_congr (h : c'.registry = c.registry) (base a : Asset) :
    c'.lookup? base a = c.lookup? base a := by
  unfold lookup?
  rw [h]

theorem Separate.congr (h : c.Separate base a b) (hr : c'.registry = c.registry) :
    c'.Separate base a b := by
  unfold Separate
  rw [lookup?_congr hr, lookup?_congr hr]
  exact h

theorem found_congr (h : ∀ a ∈ as, c'.balance who a = c.balance who a) :
    c'.found who as = c.found who as := by
  unfold found
  rw [List.map_congr_left fun a ha => by rw [h a ha]]

theorem found_cons_of_zero (h : (Coin.mk a (c.balance who a)).isZero = true) :
    c.found who (a :: as) = c.found who as := by
  simp [found, h]

theorem found_cons_of_ne (h : ¬ (Coin.mk a (c.balance who a)).isZero = true) :
    c.found who (a :: as) = ⟨a, c.balance who a⟩ :: c.found who as := by
  simp [found, h]

theorem asset_of_mem_found {fee : Coin} (h : fee ∈ c.found who as) : fee.asset ∈ as := by
  obtain ⟨a, ha, rfl⟩ := List.mem_map.1 (List.mem_filter.1 h).1
  exact ha

theorem mem_keys {id : PoolId} (h : c.registry.pool? a = some id) :
    a ∈ c.base :: c.registry.entries.keys :=
  List.mem_cons_of_mem _ (List.mem_map.2 ⟨(a, id), Registry.mem_entries.2 h, rfl⟩)

/-- Fee tokens that have a ledger entry each also have a pool each. -/
theorem KeptApart.separate {i j : PoolId} (hids : c.KeptApart) (hlinked : c.RegistryLinked)
    (ha : c.registry.pool? a = some i) (hb : c.registry.pool? b = some j) (hne : a ≠ b) :
    c.Separate c.base a b := by
  refine ⟨fun e => hne (hids a (mem_keys ha) b (mem_keys hb) e), fun t ht u hu e => ?_⟩
  have ht := pool?_of_lookup? ht
  have hu := pool?_of_lookup? hu
  rw [← e] at hu
  exact hne (hlinked.pool?_inj ht hu)

theorem KeptApart.ne_base {i : PoolId} (hids : c.KeptApart) (hlinked : c.RegistryLinked)
    (ha : c.registry.pool? a = some i) : a.id? ≠ c.base.id? :=
  fun e => hlinked.ne_base ha (hids a (mem_keys ha) c.base List.mem_cons_self e)

end Chain

namespace Conversion.Disposes

variable {s : Settings} {base : Asset} {fee : Coin} {r : Conversion} {c c₁ c' : Chain}

/-- What happens before or after to other balances and pools is no matter. -/
theorem after (h : r.Disposes s base fee c c₁)
    (hb : c'.balance s.feeAccount fee.asset = c₁.balance s.feeAccount fee.asset)
    (hp : ∀ t ∈ c.lookup? base fee.asset, c'.pools.get? t.pool = c₁.pools.get? t.pool) :
    r.Disposes s base fee c c' := by
  cases r with
  | converted out =>
    obtain ⟨hasset, hgone, t, p, p', ht, hget, hswap, hget'⟩ := h
    exact ⟨hasset, hb.trans hgone, t, p, p', ht, hget, hswap, (hp t ht).trans hget'⟩
  | unswappable => exact ⟨hb.trans h.1, fun t ht => (hp t ht).trans (h.2 t ht)⟩

theorem before (h : r.Disposes s base fee c₁ c') (hr : c₁.registry = c.registry)
    (hb : c₁.balance s.feeAccount fee.asset = c.balance s.feeAccount fee.asset)
    (hp : ∀ t ∈ c.lookup? base fee.asset, c₁.pools.get? t.pool = c.pools.get? t.pool) :
    r.Disposes s base fee c c' := by
  have hlookup := Chain.lookup?_congr hr base fee.asset
  cases r with
  | converted out =>
    obtain ⟨hasset, hgone, t, p, p', ht, hget, hswap, hget'⟩ := h
    rw [hlookup] at ht
    exact ⟨hasset, hgone, t, p, p', ht, (hp t ht).symm.trans hget, hswap, hget'⟩
  | unswappable =>
    refine ⟨h.1.trans hb, fun t ht => ?_⟩
    exact (h.2 t (hlookup ▸ ht)).trans (hp t ht)

end Conversion.Disposes

namespace Sweep

open Effect

variable {s : Settings} {w w' : World} {base : Asset}

/-- The visits with what they find and what becomes of it. -/
def conversions (base : Asset) : List Asset → Effect (List (Coin × Conversion))
  | [] => pure []
  | a :: as => do
    let fee : Coin := ⟨a, (← chain).balance (← read).feeAccount a⟩
    if fee.isZero then conversions base as
    else
      let r ← Conversion.convert base fee
      return (fee, r) :: (← conversions base as)

/-- What conversions one after the other make of a chain, `sales` being the coins converted and what
became of each. -/
structure Sells (s : Settings) (base : Asset) (sales : List (Coin × Conversion)) (c c' : Chain) :
    Prop where
  frame : ∃ ledger pools es, c' = { c with ledger, pools, events := c.events ++ es } ∧
    ∀ e ∈ es, e.isConversion = true
  others : ∀ q, q ≠ s.feeAccount → Ledger.SameFor q c.ledger c'.ledger
  anchored : c'.ledger.Anchored s.feeAccount
  gained : c'.ledger.holds s.feeAccount base.id? =
    c.ledger.holds s.feeAccount base.id? + (sales.map fun x => x.2.gain).sum
  rest : ∀ a : Asset, a.id? ≠ base.id? →
    (∀ fee out, (fee, .converted out) ∈ sales → fee.asset.id? ≠ a.id?) →
    c'.balance s.feeAccount a = c.balance s.feeAccount a
  pools : ∀ id, (∀ fee out, (fee, .converted out) ∈ sales →
    ∀ t ∈ c.lookup? base fee.asset, t.pool ≠ id) → c'.pools.get? id = c.pools.get? id
  disposed : ∀ fee r, (fee, r) ∈ sales → r.Disposes s base fee c c'

namespace Sells

variable {c c₁ c' : Chain} {sales sales' : List (Coin × Conversion)}

theorem registry (h : Sells s base sales c c') : c'.registry = c.registry := by
  obtain ⟨ledger, pools, es, rfl, -⟩ := h.frame
  rfl

theorem refl (ha : c.ledger.Anchored s.feeAccount)
    (h : ∀ fee r, (fee, r) ∈ sales → r = .unswappable) : Sells s base sales c c where
  frame := ⟨c.ledger, c.pools, [], by rw [List.append_nil], nofun⟩
  others q _ := .refl q _
  anchored := ha
  gained := by
    have hzero : ∀ x ∈ sales, x.2.gain = 0 := fun (fee, r) hx => by
      rw [h fee r hx]
      rfl
    rw [List.map_congr_left hzero, List.map_const', List.sum_replicate_nat, Nat.mul_zero,
      Nat.add_zero]
  rest _ _ _ := rfl
  pools _ _ := rfl
  disposed fee r hx := by
    rw [h fee r hx]
    exact ⟨rfl, fun _ _ => rfl⟩

theorem append (h : Sells s base sales c c₁) (h' : Sells s base sales' c₁ c')
    (hbase : ∀ x ∈ sales ++ sales', x.1.asset.id? ≠ base.id?)
    (hd : ∀ x ∈ sales, ∀ y ∈ sales', c.Separate base x.1.asset y.1.asset) :
    Sells s base (sales ++ sales') c c' where
  frame := by
    obtain ⟨l, ps, es, rfl, hes⟩ := h.frame
    obtain ⟨l', ps', es', rfl, hes'⟩ := h'.frame
    refine ⟨l', ps', es ++ es', by rw [List.append_assoc], fun e he => ?_⟩
    exact (List.mem_append.1 he).elim (hes e) (hes' e)
  others q hq := (h.others q hq).trans (h'.others q hq)
  anchored := h'.anchored
  gained := by
    rw [h'.gained, h.gained, List.map_append, List.sum_append, Nat.add_assoc]
  rest a ha hx := by
    refine (h'.rest a ha fun fee out hm => ?_).trans (h.rest a ha fun fee out hm => ?_)
    · exact hx fee out (List.mem_append_right _ hm)
    · exact hx fee out (List.mem_append_left _ hm)
  pools id hx := by
    refine (h'.pools id fun fee out hm t ht => ?_).trans (h.pools id fun fee out hm => ?_)
    · rw [Chain.lookup?_congr h.registry] at ht
      exact hx fee out (List.mem_append_right _ hm) t ht
    · exact hx fee out (List.mem_append_left _ hm)
  disposed fee r hm := by
    have hne := hbase (fee, r) hm
    rcases List.mem_append.1 hm with hm | hm
    · refine (h.disposed fee r hm).after ?_ fun t ht => ?_
      · exact h'.rest fee.asset hne fun fee' out hm' => ((hd _ hm _ hm').1).symm
      · refine h'.pools t.pool fun fee' out hm' u hu => ?_
        rw [Chain.lookup?_congr h.registry] at hu
        exact ((hd _ hm _ hm').2 t ht u hu).symm
    · refine (h'.disposed fee r hm).before h.registry ?_ fun t ht => ?_
      · exact h.rest fee.asset hne fun fee' out hm' => (hd _ hm' _ hm).1
      · exact h.pools t.pool fun fee' out hm' u hu => (hd _ hm' _ hm).2 u hu t ht

end Sells

theorem sells_of_outcome {fee : Coin} {r : Conversion} {c c' : Chain}
    (h : Conversion.Outcome s base fee c r c') (ha : c.ledger.Anchored s.feeAccount)
    (hheld : fee.amount = c.balance s.feeAccount fee.asset) (hbase : fee.asset.id? ≠ base.id?) :
    Sells s base [(fee, r)] c c' := by
  have hpools (id : PoolId) (hid : ∀ t ∈ c.lookup? base fee.asset, t.pool ≠ id) := h.pools hid
  cases h with
  | kept e => exact absurd (congrArg Asset.id? e) hbase
  | refused => exact .refl ha fun fee' r' hx => (Prod.mk.inj (List.mem_singleton.1 hx)).2
  | @exchanged t out ps l es _ hs ht hasset hout hcarry hx hes =>
    obtain ⟨l₁, hpaid, hgot⟩ := Ledger.exchanges_effect hx ha
    rw [hasset] at hgot
    have hgone : l.holds s.feeAccount fee.asset.id? = 0 := by
      have hall : fee.amount.toNat = c.ledger.holds s.feeAccount fee.asset.id? :=
        (congrArg Word.toNat hheld).trans (Ledger.toNat_balance ..)
      obtain ⟨-, hpays⟩ := hpaid.pays
      rw [hgot.rest _ hbase]
      omega
    refine
      { frame := ⟨l, ps, es, rfl, fun e he => hes e he ▸ rfl⟩
        others := fun q hq => Ledger.exchanges_others hx hq
        anchored := hgot.anchored
        gained := ?_, rest := fun a ha hsold => ?_, pools := fun id hid => ?_
        disposed := fun fee' r' hx => ?_ }
    · exact hgot.holds.trans (congrArg (· + _) (hpaid.rest _ hbase.symm))
    · have hne := hsold fee out (List.mem_singleton_self _)
      exact Chain.balance_eq_iff.2 ((hgot.rest _ ha).trans (hpaid.rest _ hne.symm))
    · exact hpools id fun u hu => hid fee out (List.mem_singleton_self _) u hu
    · obtain ⟨rfl, rfl⟩ := Prod.mk.inj (List.mem_singleton.1 hx)
      obtain ⟨p, n, p', hp, hn, hrest⟩ := Pools.carry_cons_ok hcarry
      obtain ⟨rfl, rfl⟩ := Prod.mk.inj (Except.ok.inj hrest)
      refine ⟨rfl, Word.toNat_eq_zero.1 ?_, t, p, p', ht, hp, hn, SortedMap.get?_insert_self ..⟩
      exact (Ledger.toNat_balance ..).trans hgone

theorem succeeds_conversions (base : Asset) (as : List Asset) (w : World) :
    (conversions base as).Succeeds s w := by
  induction as generalizing w with
  | nil => exact succeeds_pure _
  | cons a as ih =>
    refine succeeds_bind ⟨_, _, rfl⟩ fun c v _ => succeeds_bind ⟨_, _, rfl⟩ fun t u _ => ?_
    dsimp only
    split
    · exact ih u
    · refine succeeds_bind (Conversion.succeeds_convert _ _ u) fun r x _ => ?_
      exact succeeds_bind (ih x) fun _ _ _ => succeeds_pure _

theorem run_visit_of_zero {a : Asset} (h : w.chain.balance s.feeAccount a = 0) :
    (visit base a).run s w = (.ok (), w) := by
  unfold visit
  rw [run_bind_chain, run_bind_read]
  dsimp only
  rw [if_pos h]
  rfl

theorem run_visit_of_convert {a : Asset} {r : Conversion} {v : World}
    (hn : w.chain.balance s.feeAccount a ≠ 0)
    (h : (Conversion.convert base ⟨a, w.chain.balance s.feeAccount a⟩).run s w = (.ok r, v)) :
    (visit base a).run s w = (.ok (), v) := by
  unfold visit
  rw [run_bind_chain, run_bind_read]
  dsimp only
  rw [if_neg hn]
  exact bind_ok.2 ⟨r, v, h, rfl⟩

theorem conversions_cons {a : Asset} {as : List Asset} {sales : List (Coin × Conversion)}
    (h : (conversions base (a :: as)).run s w = (.ok sales, w')) :
    ∃ fee v rest, fee = ⟨a, w.chain.balance s.feeAccount a⟩ ∧
      (visit base a).run s w = (.ok (), v) ∧ (conversions base as).run s v = (.ok rest, w') ∧
      (fee.isZero = true ∧ v = w ∧ sales = rest ∨
        ¬ fee.isZero = true ∧ ∃ r, (Conversion.convert base fee).run s w = (.ok r, v) ∧
          sales = (fee, r) :: rest) := by
  unfold conversions at h
  rw [run_bind_chain, run_bind_read] at h
  dsimp only at h
  split at h
  · rename_i hzero
    exact ⟨_, w, sales, rfl, run_visit_of_zero (of_decide_eq_true hzero), h, .inl ⟨hzero, rfl, rfl⟩⟩
  · rename_i hne
    obtain ⟨r, v, hr, h⟩ := bind_ok.1 h
    obtain ⟨rest, u, hrest, h⟩ := bind_ok.1 h
    obtain ⟨e, rfl⟩ := Prod.mk.inj h
    exact ⟨_, v, rest, rfl, run_visit_of_convert (Coin.amount_ne_zero hne) hr, hrest,
      .inr ⟨hne, r, hr, (Except.ok.inj e).symm⟩⟩

theorem visitAll_of_conversions {as : List Asset} {sales : List (Coin × Conversion)}
    (h : (conversions base as).run s w = (.ok sales, w')) :
    (visitAll base as).run s w = (.ok (), w') := by
  induction as generalizing w sales with
  | nil =>
    obtain ⟨-, rfl⟩ := Prod.mk.inj h
    rfl
  | cons a as ih =>
    obtain ⟨fee, v, rest, -, hvisit, hrest, -⟩ := conversions_cons h
    exact bind_ok.2 ⟨(), v, hvisit, ih hrest⟩

theorem convert_of_mem {as : List Asset} {sales : List (Coin × Conversion)} {fee : Coin}
    {r : Conversion} (h : (conversions base as).run s w = (.ok sales, w'))
    (hmem : (fee, r) ∈ sales) :
    ∃ front back u v, as = front ++ fee.asset :: back ∧
      (visitAll base front).run s w = (.ok (), u) ∧
      (Conversion.convert base fee).run s u = (.ok r, v) := by
  induction as generalizing w sales with
  | nil =>
    obtain rfl := Except.ok.inj (Prod.mk.inj h).1
    cases hmem
  | cons a as ih =>
    obtain ⟨first, v, rest, rfl, hvisit, hrest, hcases⟩ := conversions_cons h
    have later (hmem : (fee, r) ∈ rest) : ∃ front back u v, a :: as = front ++ fee.asset :: back ∧
        (visitAll base front).run s w = (.ok (), u) ∧
        (Conversion.convert base fee).run s u = (.ok r, v) := by
      obtain ⟨front, back, u, v', rfl, hfront, hr⟩ := ih hrest hmem
      exact ⟨a :: front, back, u, v', rfl, bind_ok.2 ⟨(), v, hvisit, hfront⟩, hr⟩
    rcases hcases with ⟨-, -, rfl⟩ | ⟨-, r', hr, rfl⟩
    · exact later hmem
    · rcases List.mem_cons.1 hmem with e | hmem
      · obtain ⟨rfl, rfl⟩ := Prod.mk.inj e
        exact ⟨[], as, w, v, rfl, rfl, hr⟩
      · exact later hmem

/-- Conversions of separate assets sell what is found of them at first. -/
theorem conversions_sell {as : List Asset} {sales : List (Coin × Conversion)}
    (h : (conversions base as).run s w = (.ok sales, w'))
    (ha : w.chain.ledger.Anchored s.feeAccount) (hbase : ∀ a ∈ as, a.id? ≠ base.id?)
    (hd : as.Pairwise (w.chain.Separate base)) :
    sales.map Prod.fst = w.chain.found s.feeAccount as ∧ Sells s base sales w.chain w'.chain := by
  induction as generalizing w sales with
  | nil =>
    obtain ⟨e, rfl⟩ := Prod.mk.inj h
    obtain rfl := Except.ok.inj e
    exact ⟨rfl, .refl ha nofun⟩
  | cons a as ih =>
    obtain ⟨hd, hrest⟩ := List.pairwise_cons.1 hd
    have hbase' : ∀ b ∈ as, b.id? ≠ base.id? := fun b hb => hbase b (List.mem_cons_of_mem _ hb)
    obtain ⟨fee, v, sales', rfl, -, htail, ⟨hzero, rfl, rfl⟩ | ⟨hne, r, hr, rfl⟩⟩ :=
      conversions_cons h
    · rw [Chain.found_cons_of_zero hzero]
      exact ih htail ha hbase' hrest
    · have hfirst := sells_of_outcome (Conversion.convert_outcome hr) ha rfl
        (hbase a List.mem_cons_self)
      have hsame : ∀ b ∈ as, v.chain.balance s.feeAccount b = w.chain.balance s.feeAccount b := by
        refine fun b hb => hfirst.rest b (hbase' b hb) fun fee out hm => ?_
        obtain ⟨rfl, -⟩ := Prod.mk.inj (List.mem_singleton.1 hm)
        exact (hd b hb).1
      obtain ⟨hfound, hsells⟩ := ih htail hfirst.anchored hbase' <|
        hrest.imp fun hsep => hsep.congr hfirst.registry
      rw [Chain.found_congr hsame] at hfound
      have hmem : ∀ y ∈ sales', y.1.asset ∈ as := fun y hy =>
        Chain.asset_of_mem_found (hfound ▸ List.mem_map_of_mem hy)
      refine ⟨?_, hfirst.append hsells (fun x hx => ?_) fun x hx y hy => ?_⟩
      · rw [Chain.found_cons_of_ne hne, List.map_cons, hfound]
      · rcases List.mem_cons.1 hx with rfl | hx
        · exact hbase a List.mem_cons_self
        · exact hbase' _ (hmem x hx)
      · obtain rfl := List.mem_singleton.1 hx
        exact hd _ (hmem y hy)

/-- What is found of the base asset and what the sales bring are left where they are, or burned
together, told of and counted. -/
def Settles (s : Settings) (sales : List (Coin × Conversion)) (c c' : Chain) : Prop :=
  ∃ es told, c'.events = c.events ++ es ++ told ∧ (∀ e ∈ es, e.isConversion = true) ∧
    ∃ residue : Coin, residue.asset = c.base ∧
      residue.amount.toNat =
        (c.balance s.feeAccount c.base).toNat + (sales.map fun x => x.2.gain).sum ∧
      (told = [] ∧ c'.balance s.feeAccount c.base = residue.amount ∧ c'.burned = c.burned ∨
        told = [.residueBurned residue] ∧ c'.balance s.feeAccount c.base = 0 ∧
          (c'.totalBurned c.base).toNat =
            min ((c.totalBurned c.base).toNat + residue.amount.toNat) (2 ^ (128 : Nat) - 1))

/-- What a sweep makes of a chain. -/
structure Swept (s : Settings) (sales : List (Coin × Conversion)) (c c' : Chain) : Prop where
  registry : c'.registry = c.registry
  base : c'.base = c.base
  others : ∀ q, q ≠ s.feeAccount → ∀ a, c'.balance q a = c.balance q a
  disposed : ∀ fee r, (fee, r) ∈ sales → r.Disposes s c.base fee c c'
  pools : ∀ id, (∀ fee out, (fee, .converted out) ∈ sales →
    ∀ t ∈ c.lookup? c.base fee.asset, t.pool ≠ id) → c'.pools.get? id = c.pools.get? id
  rest : ∀ a : Asset, a.id? ≠ c.base.id? →
    (∀ fee out, (fee, .converted out) ∈ sales → fee.asset.id? ≠ a.id?) →
    c'.balance s.feeAccount a = c.balance s.feeAccount a
  settles : Settles s sales c c'

namespace Sells

variable {c c₁ c' : Chain} {sales : List (Coin × Conversion)}

theorem swept (h : Sells s c.base sales c c₁) (hbase : ∀ x ∈ sales, x.1.asset.id? ≠ c.base.id?)
    (hr : c'.registry = c₁.registry) (hb : c'.base = c₁.base) (hps : c'.pools = c₁.pools)
    (ho : c₁.ledger.Only c.base.id? s.feeAccount c'.ledger) (hsettles : Settles s sales c c') :
    Swept s sales c c' where
  registry := hr.trans h.registry
  base := by
    obtain ⟨l, ps, es, rfl, -⟩ := h.frame
    exact hb
  others q hq a := Chain.balance_eq_iff.2
    (((ho.others q hq).holds _).trans ((h.others q hq).holds _))
  disposed fee r hm := (h.disposed fee r hm).after
    (Chain.balance_eq_iff.2 (ho.rest h.anchored _ (hbase _ hm))) fun t _ => by rw [hps]
  pools id hx := by rw [hps, h.pools id hx]
  rest a ha hx := (Chain.balance_eq_iff.2 (ho.rest h.anchored _ ha)).trans (h.rest a ha hx)
  settles := hsettles

theorem residue (h : Sells s c.base sales c c₁) :
    (c₁.balance s.feeAccount c.base).toNat =
      (c.balance s.feeAccount c.base).toNat + (sales.map fun x => x.2.gain).sum := by
  rw [Chain.balance, Ledger.toNat_balance, h.gained, Chain.balance, Ledger.toNat_balance]

theorem settles_of_kept (h : Sells s c.base sales c c₁) (hl : c'.ledger = c₁.ledger)
    (hb : c'.burned = c₁.burned) (he : c'.events = c₁.events) : Settles s sales c c' := by
  have hresidue := h.residue
  obtain ⟨l, ps, es, rfl, hes⟩ := h.frame
  refine ⟨es, [], by rw [he, List.append_nil], hes, ⟨c.base, _⟩, rfl, hresidue, .inl ⟨rfl, ?_, hb⟩⟩
  exact congrArg (fun l : Ledger => l.balance s.feeAccount c.base) hl

/-- All of the residue is burned, as nothing of it is left that might be too small. -/
theorem settles_of_burned (h : Sells s c.base sales c c₁) {residue : Coin} {n : Amount}
    (hres : residue = ⟨c.base, c₁.balance s.feeAccount c.base⟩)
    (hburn : c₁.ledger.burn s.feeAccount residue = .ok (n, c'.ledger))
    (hcount : c'.burned = c₁.burned.insert c.base ((c₁.totalBurned c.base).addSat n))
    (he : c'.events = c₁.events ++ [.residueBurned residue]) : Settles s sales c c' := by
  have hresidue := h.residue
  have hall : c₁.ledger.holds s.feeAccount c.base.id? =
      (c₁.balance s.feeAccount c.base).toNat := (Ledger.toNat_balance ..).symm
  subst hres
  obtain ⟨⟨-, hrest⟩, hexact⟩ := (Ledger.burn_effect hburn).2 h.anchored
  obtain rfl := hexact (.inl hall)
  have hgone : c'.balance s.feeAccount c.base = 0 := by
    refine Word.toNat_eq_zero.1 ?_
    rw [Chain.balance, Ledger.toNat_balance]
    dsimp only at hrest
    omega
  obtain ⟨l, ps, es, rfl, hes⟩ := h.frame
  refine ⟨es, _, he, hes, _, rfl, hresidue, .inr ⟨rfl, hgone, ?_⟩⟩
  rw [Chain.totalBurned, hcount, SortedMap.get?_insert_self]
  exact Word.toNat_addSat ..

end Sells

theorem sublist_visited (s : Settings) (c : Chain) (budget : Weight) :
    (visits s c budget).visited.Sublist ((c.registry.after c.cursor).map FeeToken.asset) :=
  Visits.sublist_plan ..

theorem nodup_visited (s : Settings) (c : Chain) (budget : Weight) :
    (visits s c budget).visited.Nodup :=
  (c.registry.nodup_assets c.cursor).sublist (sublist_visited s c budget)

theorem registered_of_visited {c : Chain} {budget : Weight} {a : Asset}
    (h : a ∈ (visits s c budget).visited) : ∃ id, c.registry.pool? a = some id := by
  obtain ⟨t, ht, rfl⟩ := List.mem_map.1 ((sublist_visited s c budget).subset h)
  obtain ⟨id, hid, -⟩ := Option.map_eq_some_iff.1 (Registry.mem_after.1 ht).1
  exact ⟨id, hid⟩

theorem separate_visited (hids : w.chain.KeptApart) (hlinked : w.chain.RegistryLinked)
    (budget : Weight) :
    (∀ a ∈ (visits s w.chain budget).visited, a.id? ≠ w.chain.base.id?) ∧
      (visits s w.chain budget).visited.Pairwise (w.chain.Separate w.chain.base) := by
  refine ⟨fun a ha => ?_, (nodup_visited s w.chain budget).imp_of_mem fun {a b} ha hb hne => ?_⟩
  · obtain ⟨id, hid⟩ := registered_of_visited ha
    exact hids.ne_base hlinked hid
  · obtain ⟨i, hi⟩ := registered_of_visited ha
    obtain ⟨j, hj⟩ := registered_of_visited hb
    exact hids.separate hlinked hi hj hne

/-- A fee found on a visit is swapped after the visits before it, and unswappable only if this swap
fails. -/
def Tried (s : Settings) (w : World) (visited : List Asset) (fee : Coin) (r : Conversion) : Prop :=
  ∃ front back u t, visited = front ++ fee.asset :: back ∧
    (visitAll w.chain.base front).run s w = (.ok (), u) ∧
    w.chain.lookup? w.chain.base fee.asset = some t ∧
    (r = .unswappable ↔ Conversion.Fails s w.chain.base t fee u)

theorem tried_of_mem {budget : Weight} {sales : List (Coin × Conversion)} {fee : Coin}
    {r : Conversion} {v : World} (hlinked : w.chain.RegistryLinked)
    (h : (conversions w.chain.base (visits s w.chain budget).visited).run s w = (.ok sales, v))
    (hmem : (fee, r) ∈ sales) : Tried s w (visits s w.chain budget).visited fee r := by
  obtain ⟨front, back, u, u', hvisited, hfront, hr⟩ := convert_of_mem h hmem
  have hasset : fee.asset ∈ (visits s w.chain budget).visited := by
    rw [hvisited]
    exact List.mem_append_right _ List.mem_cons_self
  obtain ⟨id, hid⟩ := registered_of_visited hasset
  have hbase := hlinked.ne_base hid
  have ht : w.chain.lookup? w.chain.base fee.asset = some ⟨fee.asset, id⟩ := by
    rw [Chain.lookup?, if_neg hbase, Registry.token?, hid]
    rfl
  have hu : u.chain.lookup? w.chain.base fee.asset = some ⟨fee.asset, id⟩ := by
    rw [Chain.lookup?_congr (tour_of_visitAll hfront).frame.1, ht]
  exact ⟨front, back, u, _, hvisited, hfront, ht, Conversion.unswappable_iff_fails hbase hu hr⟩

/-- What one idle sweep does, from any world that genesis leads to and with any weight, as long as the
base asset and the fee tokens have a ledger entry each. -/
theorem idle_swept {g : Genesis} (h : g.Reaches s w) (hids : w.chain.KeptApart) (budget : Weight) :
    ∃ used w' sales v, (idle budget).run s w = (.ok used, w') ∧
      (visitAll w.chain.base (visits s w.chain budget).visited).run s w = (.ok (), v) ∧
      (conversions w.chain.base (visits s w.chain budget).visited).run s w = (.ok sales, v) ∧
      sales.map Prod.fst = w.chain.found s.feeAccount (visits s w.chain budget).visited ∧
      (∀ fee r, (fee, r) ∈ sales → Tried s w (visits s w.chain budget).visited fee r) ∧
      Swept s sales w.chain w'.chain := by
  obtain ⟨used, w', hidle⟩ := succeeds_idle (s := s) budget w
  obtain ⟨sales, v, hsales⟩ :=
    succeeds_conversions (s := s) w.chain.base (visits s w.chain budget).visited w
  have hvisits := visitAll_of_conversions hsales
  refine ⟨used, w', sales, v, hidle, hvisits, hsales, ?_⟩
  obtain ⟨hbase, hd⟩ := separate_visited hids h.registryLinked budget
  obtain ⟨hfound, hsells⟩ := conversions_sell hsales h.feeAccount_anchored hbase hd
  refine ⟨hfound, fun _ _ hmem => tried_of_mem h.registryLinked hsales hmem, ?_⟩
  have hsold : ∀ x ∈ sales, x.1.asset.id? ≠ w.chain.base.id? := fun x hx =>
    hbase _ (Chain.asset_of_mem_found (hfound ▸ List.mem_map_of_mem hx))
  obtain ⟨v', moved, burns, hv', rfl, -, -, hidle⟩ := idle_ok hidle
  obtain ⟨-, rfl⟩ := Prod.mk.inj (hvisits.symm.trans hv')
  have hkept (cursor : Option Asset) : Swept s sales w.chain { v.chain with cursor } :=
    hsells.swept hsold rfl rfl rfl (.refl _ _ _) (hsells.settles_of_kept rfl rfl rfl)
  cases burns with
  | false =>
    obtain rfl : w' = _ := hidle
    exact hkept _
  | true =>
    obtain ⟨residue, hres, ⟨hw, -⟩ | ⟨-, n, l, hburn, hw⟩⟩ := burnResidue_ok hidle
    · rw [hw]
      exact hkept _
    · rw [hw]
      refine hsells.swept hsold rfl rfl rfl ?_ (hsells.settles_of_burned hres hburn rfl rfl)
      have ho := (Ledger.burn_effect hburn).1
      rwa [hres] at ho

end Sweep

/-- Three tokens are left on the fee account and two of them pay fees, of which the pool of token 2
is too small for what is left. -/
def Genesis.leftovers : Genesis :=
  { Genesis.standard with
    balances := [(5, 30)]
    tokens := [(1, { sufficient := true, minBalance := 1 }),
      (2, { sufficient := true, minBalance := 1 }), (3, { sufficient := true, minBalance := 1 })]
    holdings := [(1, 5, 100), (2, 5, 40), (3, 5, 7)]
    pools := [⟨⟨.issued 1, 1000⟩, ⟨.native, 1000⟩, .sum, .zero⟩,
      ⟨⟨.issued 2, 1000⟩, ⟨.native, 10⟩, .sum, .zero⟩]
    fees := ⟨none, [⟨.issued 1, 1⟩, ⟨.issued 2, 2⟩]⟩ }

namespace Sweep

theorem idle_swept_of_leftovers :
    ∃ w used w', Genesis.leftovers.Reaches Swap.plainSettings w ∧ w.chain.KeptApart ∧
      (idle Weight.top).run Swap.plainSettings w = (.ok used, w') ∧
      Swept Swap.plainSettings
        [(⟨.issued 2, 40⟩, .unswappable), (⟨.issued 1, 100⟩, .converted ⟨.native, 100⟩)] w.chain
        w'.chain := by
  let s := Swap.plainSettings
  obtain ⟨w, ⟨c, hc, rfl⟩, hids, hsales⟩ :
      ∃ w : World, (∃ c, Genesis.leftovers.build s = .ok c ∧ w = ⟨c, []⟩) ∧ w.chain.KeptApart ∧
        ((conversions w.chain.base (visits s w.chain Weight.top).visited).run s w).1 =
          .ok [(⟨.issued 2, 40⟩, .unswappable), (⟨.issued 1, 100⟩, .converted ⟨.native, 100⟩)] :=
    ⟨_, ⟨_, rfl, rfl⟩, by decide +kernel, by decide +kernel⟩
  have hreach : Genesis.leftovers.Reaches s ⟨c, []⟩ := ⟨c, [], hc, rfl⟩
  obtain ⟨used, w', sales, v, hidle, -, hrun, -, -, hswept⟩ := idle_swept hreach hids Weight.top
  rw [hrun] at hsales
  obtain rfl := Except.ok.inj hsales
  exact ⟨_, used, w', hreach, hids, hidle, hswept⟩

/-- A bridged token is kept in the ledger entry of the token issued under its number, and goes with
that when it is sold. -/
theorem idle_sells_bridged :
    let g := { Genesis.oneFeeToken with
      tokens := [(1, { sufficient := true, minBalance := 1 })], holdings := [(1, 5, 100)] }
    ∃ w, g.Reaches Swap.plainSettings w ∧ Swap.plainSettings.routerFailure = none ∧
      w.chain.KeptApart ∧ Asset.bridged 1 ≠ w.chain.base ∧
      w.chain.registry.contains (.bridged 1) = false ∧ w.chain.balance 5 (.bridged 1) = 100 ∧
      ((idle Weight.top).run Swap.plainSettings w).2.chain.balance 5 (.bridged 1) = 0 := by
  intro g
  obtain ⟨w, ⟨c, hc, rfl⟩, hids, hbase, hnone, hbefore, hafter⟩ :
      ∃ w : World, (∃ c, g.build Swap.plainSettings = .ok c ∧ w = ⟨c, []⟩) ∧ w.chain.KeptApart ∧
        Asset.bridged 1 ≠ w.chain.base ∧ w.chain.registry.contains (.bridged 1) = false ∧
        w.chain.balance 5 (.bridged 1) = 100 ∧
        ((idle Weight.top).run Swap.plainSettings w).2.chain.balance 5 (.bridged 1) = 0 :=
    ⟨_, ⟨_, rfl, rfl⟩, by decide +kernel, by decide, by decide, by decide, by decide +kernel⟩
  exact ⟨_, ⟨c, [], hc, rfl⟩, rfl, hids, hbase, hnone, hbefore, hafter⟩

end Sweep

end SwapFees
