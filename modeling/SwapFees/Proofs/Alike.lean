import SwapFees.Proofs.Handover
import SwapFees.Proofs.Ledger.Plain
import SwapFees.Proofs.Locality

namespace SwapFees

open Effect

namespace Ledger

/-- From `k` to `k'` accounts and books change as they do from `l` to `l'`. -/
structure Repeats (l l' k k' : Ledger) : Prop where
  held : ∀ q j, l'.holds q j + k.holds q j = l.holds q j + k'.holds q j
  issued : ∀ j, l'.issued j + k.issued j = l.issued j + k'.issued j

variable {l l' l'' k k' k'' : Ledger}

theorem Shifts.repeats {taken given : AccountId → Option AssetId → Nat}
    {burned minted : Option AssetId → Nat} (hl : l.Shifts taken given burned minted l')
    (hk : k.Shifts taken given burned minted k') : Repeats l l' k k' where
  held q j := by
    have := hl.held q j
    have := hk.held q j
    omega
  issued j := by
    have := hl.issued j
    have := hk.issued j
    omega

theorem Repeats.refl (l k : Ledger) : Repeats l l k k := ⟨fun _ _ => rfl, fun _ => rfl⟩

theorem Repeats.trans (h : Repeats l l' k k') (h' : Repeats l' l'' k' k'') :
    Repeats l l'' k k'' where
  held q j := by
    have := h.held q j
    have := h'.held q j
    omega
  issued j := by
    have := h.issued j
    have := h'.issued j
    omega

end Ledger

namespace Chain

/-- What trading on some pools and settling a fee leave as it is. -/
structure Confined (ids : List PoolId) (c c' : Chain) : Prop where
  pools : ∀ id, id ∉ ids → c'.pools.get? id = c.pools.get? id
  base : c'.base = c.base
  registry : c'.registry = c.registry
  takerFee : c'.takerFee = c.takerFee
  cursor : c'.cursor = c.cursor
  terms : ∀ id, c'.ledger.terms? id = c.ledger.terms? id
  plain : c.ledger.Plain → c'.ledger.Plain

/-- Two chains with plain ledgers agree about these pools and about everything else that a swap over
them looks at, but for balances. -/
structure Alike (ids : List PoolId) (c d : Chain) : Prop where
  pools : Pools.SameOn ids c.pools d.pools
  base : d.base = c.base
  registry : d.registry = c.registry
  takerFee : d.takerFee = c.takerFee
  terms : ∀ id, d.ledger.terms? id = c.ledger.terms? id
  plain : c.ledger.Plain ∧ d.ledger.Plain

/-- From `d` to `d'` everything changes as it does from `c` to `c'`, within these pools. -/
structure Repeats (ids : List PoolId) (c c' d d' : Chain) : Prop where
  left : c.Confined ids c'
  right : d.Confined ids d'
  pools : Pools.SameOn ids c'.pools d'.pools
  ledger : c.ledger.Repeats c'.ledger d.ledger d'.ledger
  counted : ∀ a, ∃ n,
    (c'.totalBurned a).toNat = min ((c.totalBurned a).toNat + n) (2 ^ (128 : Nat) - 1) ∧
      (d'.totalBurned a).toNat = min ((d.totalBurned a).toNat + n) (2 ^ (128 : Nat) - 1)

variable {ids : List PoolId} {c c' c'' d d' d'' : Chain}

theorem Confined.refl (ids : List PoolId) (c : Chain) : c.Confined ids c :=
  ⟨fun _ _ => rfl, rfl, rfl, rfl, rfl, fun _ => rfl, id⟩

theorem Confined.trans (h : c.Confined ids c') (h' : c'.Confined ids c'') : c.Confined ids c'' where
  pools id hid := (h'.pools id hid).trans (h.pools id hid)
  base := h'.base.trans h.base
  registry := h'.registry.trans h.registry
  takerFee := h'.takerFee.trans h.takerFee
  cursor := h'.cursor.trans h.cursor
  terms id := (h'.terms id).trans (h.terms id)
  plain hc := h'.plain (h.plain hc)

theorem confined_with {l : Ledger} {ps : Pools} {burned : SortedMap Asset Amount}
    {events : List Event} (hps : ∀ id, id ∉ ids → ps.get? id = c.pools.get? id)
    (hterms : ∀ id, l.terms? id = c.ledger.terms? id) (hl : l.Plain) :
    c.Confined ids { c with ledger := l, pools := ps, burned, events } :=
  ⟨hps, rfl, rfl, rfl, rfl, hterms, fun _ => hl⟩

namespace Alike

theorem refl (hc : c.ledger.Plain) (ids : List PoolId) : c.Alike ids c :=
  ⟨fun _ _ => rfl, rfl, rfl, rfl, fun _ => rfl, hc, hc⟩

theorem symm (h : c.Alike ids d) : d.Alike ids c where
  pools id hid := (h.pools id hid).symm
  base := h.base.symm
  registry := h.registry.symm
  takerFee := h.takerFee.symm
  terms id := (h.terms id).symm
  plain := h.plain.symm

theorem of_confined {others : List PoolId} (h : c.Confined others d) (hc : c.ledger.Plain)
    (hids : ∀ id ∈ ids, id ∉ others) : c.Alike ids d where
  pools id hid := (h.pools id (hids id hid)).symm
  base := h.base
  registry := h.registry
  takerFee := h.takerFee
  terms := h.terms
  plain := ⟨hc, h.plain hc⟩

theorem next (h : c.Alike ids d) (hr : Repeats ids c c' d d') : c'.Alike ids d' where
  pools := hr.pools
  base := by rw [hr.right.base, h.base, hr.left.base]
  registry := by rw [hr.right.registry, h.registry, hr.left.registry]
  takerFee := by rw [hr.right.takerFee, h.takerFee, hr.left.takerFee]
  terms id := by rw [hr.right.terms, h.terms, hr.left.terms]
  plain := ⟨hr.left.plain h.plain.1, hr.right.plain h.plain.2⟩

theorem lookup? (h : c.Alike ids d) (base a : Asset) : d.lookup? base a = c.lookup? base a := by
  unfold Chain.lookup?
  rw [h.registry]

theorem isFeeAsset (h : c.Alike ids d) (a : Asset) : d.isFeeAsset a = c.isFeeAsset a := by
  unfold Chain.isFeeAsset
  rw [h.base, h.lookup?]

end Alike

theorem uncounted (c : Chain) (a : Asset) :
    (c.totalBurned a).toNat = min ((c.totalBurned a).toNat + 0) (2 ^ (128 : Nat) - 1) := by
  have := (c.totalBurned a).isLt
  omega

/-- Trades on these pools that shift both ledgers by the same. -/
theorem repeats_of_trades {l k : Ledger} {ps qs : Pools}
    {taken given : AccountId → Option AssetId → Nat} {burned minted : Option AssetId → Nat}
    (hl : c.ledger.Shifts taken given burned minted l)
    (hk : d.ledger.Shifts taken given burned minted k)
    (hps : ∀ id, id ∉ ids → ps.get? id = c.pools.get? id)
    (hqs : ∀ id, id ∉ ids → qs.get? id = d.pools.get? id) (hsame : Pools.SameOn ids ps qs)
    (es es' : List Event) :
    Repeats ids c { c with ledger := l, pools := ps, events := es }
      d { d with ledger := k, pools := qs, events := es' } where
  left := confined_with hps hl.terms hl.plain
  right := confined_with hqs hk.terms hk.plain
  pools := hsame
  ledger := hl.repeats hk
  counted a := ⟨0, c.uncounted a, d.uncounted a⟩

theorem repeats_of_ledger (h : c.Alike ids d) {l k : Ledger}
    {taken given : AccountId → Option AssetId → Nat} {burned minted : Option AssetId → Nat}
    (hl : c.ledger.Shifts taken given burned minted l)
    (hk : d.ledger.Shifts taken given burned minted k) :
    Repeats ids c { c with ledger := l } d { d with ledger := k } :=
  repeats_of_trades hl hk (fun _ _ => rfl) (fun _ _ => rfl) h.pools c.events d.events

theorem repeats_of_burn (h : c.Alike ids d) {who : AccountId} {coin : Coin} {n m : Amount}
    {l k : Ledger} (hc : c.ledger.burn who coin = .ok (n, l))
    (hd : d.ledger.burn who coin = .ok (m, k)) :
    Repeats ids c (c.countBurned l coin.asset n) d (d.countBurned k coin.asset m) := by
  obtain ⟨rfl, hl⟩ := h.plain.1.burn_shifts hc
  obtain ⟨rfl, hk⟩ := h.plain.2.burn_shifts hd
  exact
    { left := confined_with (fun _ _ => rfl) hl.terms hl.plain
      right := confined_with (fun _ _ => rfl) hk.terms hk.plain
      pools := h.pools
      ledger := hl.repeats hk
      counted a := ⟨_, toNat_totalBurned_countBurned a, toNat_totalBurned_countBurned a⟩ }

namespace Repeats

theorem refl (h : c.Alike ids d) : Repeats ids c c d d where
  left := .refl ids c
  right := .refl ids d
  pools := h.pools
  ledger := .refl _ _
  counted a := ⟨0, c.uncounted a, d.uncounted a⟩

theorem trans (h : Repeats ids c c' d d') (h' : Repeats ids c' c'' d' d'') :
    Repeats ids c c'' d d'' where
  left := h.left.trans h'.left
  right := h.right.trans h'.right
  pools := h'.pools
  ledger := h.ledger.trans h'.ledger
  counted a := by
    obtain ⟨n, hc, hd⟩ := h.counted a
    obtain ⟨m, hc', hd'⟩ := h'.counted a
    exact ⟨n + m, by omega, by omega⟩

theorem withEvents (h : Repeats ids c c' d d') (es es' : List Event) :
    Repeats ids c { c' with events := es } d { d' with events := es' } where
  left := h.left.trans ⟨fun _ _ => rfl, rfl, rfl, rfl, rfl, fun _ => rfl, id⟩
  right := h.right.trans ⟨fun _ _ => rfl, rfl, rfl, rfl, rfl, fun _ => rfl, id⟩
  pools := h.pools
  ledger := h.ledger
  counted := h.counted

end Repeats

end Chain

variable {s : Settings} {w w' v v' : World} {ids : List PoolId}

theorem HopIn.mem_of_single {hop : HopIn} (h : hop.pool ∈ ids) :
    ∀ id ∈ [hop].map HopIn.pool, id ∈ ids := fun id hid => by
  rwa [List.mem_singleton.1 hid]

namespace Router

variable {sender : AccountId}

/-- Without injected failures a swap over these pools answers the same and repeats its changes. -/
theorem swapIn_repeats (hs : s.routerFailure = none) (h : w.chain.Alike ids v.chain)
    {route : List HopIn} {tokenIn : Coin} {minOut n m : Amount}
    (hids : ∀ id ∈ route.map HopIn.pool, id ∈ ids)
    (hw : (swapIn sender route tokenIn minOut).run s w = (.ok n, w'))
    (hv : (swapIn sender route tokenIn minOut).run s v = (.ok m, v')) :
    m = n ∧ w.chain.Repeats ids w'.chain v.chain v'.chain := by
  obtain ⟨out, ps, l, hcarry, -, hx, rfl, rfl⟩ := swapIn_ok hs hw
  obtain ⟨out', qs, k, hcarry', -, hx', rfl, rfl⟩ := swapIn_ok hs hv
  obtain ⟨qs', hlocal, hsame⟩ := Pools.carry_local hcarry h.pools hids
  obtain ⟨rfl, rfl⟩ := Prod.mk.inj (Except.ok.inj (hlocal.symm.trans hcarry'))
  exact ⟨rfl, Chain.repeats_of_trades (h.plain.1.exchange_shifts hx)
    (h.plain.2.exchange_shifts hx')
    (fun id hid => Pools.carry_frame hcarry fun hmem => hid (hids id hmem))
    (fun id hid => Pools.carry_frame hcarry' fun hmem => hid (hids id hmem)) hsame _ _⟩

theorem swapOut_repeats (hs : s.routerFailure = none) (h : w.chain.Alike ids v.chain)
    {route : List HopOut} {maxIn n m : Amount} {tokenOut : Coin}
    (hids : ∀ id ∈ route.map HopOut.pool, id ∈ ids)
    (hw : (swapOut sender route maxIn tokenOut).run s w = (.ok n, w'))
    (hv : (swapOut sender route maxIn tokenOut).run s v = (.ok m, v')) :
    m = n ∧ w.chain.Repeats ids w'.chain v.chain v'.chain := by
  obtain ⟨ps, l, hrequire, -, hx, rfl⟩ := swapOut_ok hs hw
  obtain ⟨qs, k, hrequire', -, hx', rfl⟩ := swapOut_ok hs hv
  obtain ⟨qs', hlocal, hsame⟩ := Pools.require_local hrequire h.pools hids
  obtain ⟨rfl, rfl⟩ := Prod.mk.inj (Except.ok.inj (hlocal.symm.trans hrequire'))
  exact ⟨rfl, Chain.repeats_of_trades (h.plain.1.exchange_shifts hx)
    (h.plain.2.exchange_shifts hx')
    (fun id hid => Pools.require_frame hrequire fun hmem => hid (hids id hmem))
    (fun id hid => Pools.require_frame hrequire' fun hmem => hid (hids id hmem)) hsame _ _⟩

end Router

theorem Bank.burn_repeats (h : w.chain.Alike ids v.chain) {who : AccountId} {c : Coin}
    (hw : (burn who c).run s w = (.ok (), w')) (hv : (burn who c).run s v = (.ok (), v')) :
    w.chain.Repeats ids w'.chain v.chain v'.chain := by
  by_cases hc : c.amount = 0
  · simp only [burn, Coin.isZero, hc, decide_true, if_true] at hw hv
    obtain ⟨-, rfl⟩ := Prod.mk.inj hw
    obtain ⟨-, rfl⟩ := Prod.mk.inj hv
    exact .refl h
  · obtain ⟨n, l, hl, rfl⟩ := (burn_ok hc).1 hw
    obtain ⟨m, k, hk, rfl⟩ := (burn_ok hc).1 hv
    exact Chain.repeats_of_burn h hl hk

namespace Conversion

variable {base : Asset} {fee x y : Coin}

/-- What the conversion of a fee is paid with does not overflow. -/
abbrev Room (base : Asset) (fee : Coin) (s : Settings) (w : World) : Prop :=
  fee.asset ≠ base → ∀ t ∈ w.chain.lookup? base fee.asset,
    (w.chain.pools.carry fee [⟨t.pool, base⟩]).All fun sold =>
      (w.chain.ledger.burn s.feeAccount fee).All fun burned =>
        burned.2.issued base.id? + sold.1.amount.toNat < 2 ^ (128 : Nat)

def Collected (s : Settings) (fee : Coin) (c : Chain) : Prop :=
  c.ledger.Live fee.asset.id? ∧ fee.amount.toNat ≤ c.ledger.holds s.feeAccount fee.asset.id?

theorem Outcome.repeats {c c' d d' : Chain} (h : c.Alike ids d)
    (hids : ∀ t ∈ c.lookup? base fee.asset, t.pool ∈ ids)
    (hc : Outcome s base fee c (.converted x) c') (hd : Outcome s base fee d (.converted y) d') :
    y = x ∧ c.Repeats ids c' d d' := by
  cases hc with
  | kept hbase =>
    cases hd with
    | kept => exact ⟨rfl, .refl h⟩
    | exchanged hne => exact absurd hbase hne
  | exchanged hbase hs ht hasset hout hcarry hx hes =>
    cases hd with
    | kept hbase' => exact absurd hbase' hbase
    | exchanged hbase' hs' ht' hasset' hout' hcarry' hx' hes' =>
      have ht' := (h.lookup? base fee.asset).symm.trans ht'
      obtain rfl := Option.some.inj (ht.symm.trans ht')
      obtain ⟨qs, hlocal, hsame⟩ := Pools.carry_local hcarry h.pools (HopIn.mem_of_single (hids _ ht))
      obtain ⟨rfl, rfl⟩ := Prod.mk.inj (Except.ok.inj (hlocal.symm.trans hcarry'))
      refine ⟨rfl, Chain.repeats_of_trades (h.plain.1.exchange_shifts hx)
        (h.plain.2.exchange_shifts hx') (fun id hid => ?_) (fun id hid => ?_) hsame _ _⟩
      · exact Pools.carry_frame hcarry fun hmem => hid (HopIn.mem_of_single (hids _ ht) id hmem)
      · exact Pools.carry_frame hcarry' fun hmem => hid (HopIn.mem_of_single (hids _ ht) id hmem)

theorem Outcome.converts {c c' : Chain} {r : Conversion}
    (h : c.Alike ids v.chain) (hids : ∀ t ∈ c.lookup? base fee.asset, t.pool ∈ ids)
    (hcollected : Collected s fee v.chain) (hroom : Room base fee s v)
    (hc : Outcome s base fee c (.converted x) c')
    (hv : (convert base fee).run s v = (.ok r, v')) : r ≠ .unswappable := by
  cases hc with
  | kept hbase =>
    rintro rfl
    exact (convert_outcome hv).unswappable.1 hbase
  | exchanged hbase hs ht hasset hout hcarry hx hes =>
    have ht' := (h.lookup? base fee.asset).trans ht
    obtain ⟨qs, hcarry', -⟩ := Pools.carry_local hcarry h.pools (HopIn.mem_of_single (hids _ ht))
    obtain ⟨n, k₁, hdebit⟩ := h.plain.2.burns hcollected.1 hcollected.2
    obtain ⟨m, l₁, hdebit', hcredit⟩ := hx
    rw [if_neg hout] at hcredit
    have hterms := (h.plain.1.burn hdebit').mint_terms hout hcredit
    have hfits := hroom hbase _ ht' _ hcarry' _ hdebit
    rw [← hasset] at hfits
    -- The base asset can be credited to the one account as to the other.
    obtain ⟨k, hk⟩ : ∃ k, k₁.mint s.feeAccount x = .ok k := by
      refine (h.plain.2.burn hdebit).mints hout (fun id hid => ?_) hfits
      rw [Ledger.terms?_burn hdebit, h.terms, ← Ledger.terms?_burn hdebit']
      exact hterms id hid
    have hx' : v.chain.ledger.Exchanges s.feeAccount fee x k :=
      ⟨n, k₁, hdebit, by rw [if_neg hout]; exact hk⟩
    rw [convert_of_swapThrough hbase ht' (swapThrough_run hs hcarry' hout hx') hv]
    exact nofun

theorem convert_repeats {r r' : Conversion}
    (h : w.chain.Alike ids v.chain) (hids : ∀ t ∈ w.chain.lookup? base fee.asset, t.pool ∈ ids)
    (hcollected : Collected s fee w.chain ∧ Collected s fee v.chain)
    (hroom : Room base fee s w ∧ Room base fee s v)
    (hw : (convert base fee).run s w = (.ok r, w'))
    (hv : (convert base fee).run s v = (.ok r', v')) :
    r' = r ∧ w.chain.Repeats ids w'.chain v.chain v'.chain := by
  have how := convert_outcome hw
  have hov := convert_outcome hv
  have hids' : ∀ t ∈ v.chain.lookup? base fee.asset, t.pool ∈ ids := by rwa [h.lookup?]
  cases r with
  | converted x =>
    cases r' with
    | converted y =>
      obtain ⟨rfl, hr⟩ := how.repeats h hids hov
      exact ⟨rfl, hr⟩
    | unswappable => exact absurd rfl (how.converts h hids hcollected.2 hroom.2 hv)
  | unswappable =>
    cases r' with
    | converted y => exact absurd rfl (hov.converts h.symm hids' hcollected.1 hroom.1 hw)
    | unswappable =>
      rw [how.unswappable.2, hov.unswappable.2]
      exact ⟨rfl, .refl h⟩

end Conversion

namespace Settlement

variable {fee coin : Coin} {beneficiary source : Option AccountId}

/-- A share that is paid does not overflow what its receiver holds, nor the supply on its way. -/
abbrev ShareRoom (beneficiary : Option AccountId) (share : Coin) (s : Settings) (w : World) : Prop :=
  ∀ who ∈ beneficiary,
    w.chain.ledger.holds who share.asset.id? + share.amount.toNat < 2 ^ (128 : Nat) ∧
      (who ≠ s.feeAccount → w.chain.ledger.Bears share)

/-- No addition of a settlement overflows. -/
abbrev SettleRoom (fee : Coin) (beneficiary : Option AccountId) (s : Settings) (w : World) : Prop :=
  Conversion.Room w.chain.base fee s w ∧
    (Conversion.convert w.chain.base fee).All s w fun r v =>
      (r.coin? = none → s.policy = .communityPool → s.communityPool ≠ s.feeAccount →
        v.chain.ledger.Bears fee) ∧
        ∀ c ∈ r.coin?, ShareRoom beneficiary (c.withAmount c.amount.half) s v

instance (fee : Coin) (beneficiary : Option AccountId) (s : Settings) (w : World) :
    Decidable (SettleRoom fee beneficiary s w) := inferInstance

/-- Nor does the collection that comes before. -/
abbrev Room (s : Settings) : Handover := fun payer fee beneficiary w =>
  (payer ≠ s.feeAccount → w.chain.ledger.Bears fee) ∧
    (Bank.transfer payer s.feeAccount fee .preserve).All s w fun _ v =>
      SettleRoom fee beneficiary s v

theorem share_alike {c d : Chain} (h : c.Alike ids d)
    (hroom : ∀ who ∈ beneficiary,
      c.ledger.holds who coin.asset.id? + coin.amount.half.toNat < 2 ^ (128 : Nat) ∧
        d.ledger.holds who coin.asset.id? + coin.amount.half.toNat < 2 ^ (128 : Nat)) :
    share d.ledger beneficiary coin = share c.ledger beneficiary coin := by
  cases beneficiary with
  | none => rfl
  | some who =>
    obtain ⟨hc, hd⟩ := hroom who rfl
    unfold share
    dsimp only
    by_cases hz : coin.amount.half = 0
    · rw [hz, ite_self, ite_self]
    · have hcan : d.ledger.canReceive who (coin.withAmount coin.amount.half) =
          c.ledger.canReceive who (coin.withAmount coin.amount.half) := by
        rw [Bool.eq_iff_iff, h.plain.2.canReceive_iff hz hd, h.plain.1.canReceive_iff hz hc]
        simp only [h.terms]
      rw [hcan]

theorem payShare_repeats (h : w.chain.Alike ids v.chain) {revenue revenue' : Option Coin}
    (hroom : ShareRoom beneficiary (coin.withAmount coin.amount.half) s w ∧
      ShareRoom beneficiary (coin.withAmount coin.amount.half) s v)
    (hw : (payShare beneficiary coin).run s w = (.ok revenue, w'))
    (hv : (payShare beneficiary coin).run s v = (.ok revenue', v')) :
    revenue' = revenue ∧ w.chain.Repeats ids w'.chain v.chain v'.chain := by
  have hshare : share v.chain.ledger beneficiary coin = share w.chain.ledger beneficiary coin :=
    share_alike h fun who hwho => ⟨(hroom.1 who hwho).1, (hroom.2 who hwho).1⟩
  obtain ⟨hrevenue, l, hw', hpay⟩ := payShare_ok hw
  obtain ⟨hrevenue', k, hv', hpay'⟩ := payShare_ok hv
  rw [hshare] at hrevenue' hpay'
  refine ⟨hrevenue'.trans hrevenue.symm, ?_⟩
  rw [hw', hv']
  by_cases hz : share w.chain.ledger beneficiary coin = 0
  · rw [if_pos hz] at hpay hpay'
    rw [hpay, hpay']
    exact .refl h
  · rw [if_neg hz] at hpay hpay'
    obtain ⟨who, hwho, htransfer⟩ := hpay
    obtain ⟨who', hwho', htransfer'⟩ := hpay'
    obtain rfl := Option.some.inj (hwho.symm.trans hwho')
    obtain rfl := hwho
    have hhalf := (share_ne_zero hz).1
    have hbears := (hroom.1 who rfl).2
    have hbears' := (hroom.2 who rfl).2
    rw [hhalf] at hz htransfer htransfer'
    exact Chain.repeats_of_ledger h
      (h.plain.1.transfer_shifts hz (fun hne => hbears (Ne.symm hne)) htransfer)
      (h.plain.2.transfer_shifts hz (fun hne => hbears' (Ne.symm hne)) htransfer')

theorem dispose_repeats (h : w.chain.Alike ids v.chain) {how r r' : Disposition}
    (hfee : fee.amount ≠ 0)
    (hroom : how = .communityPool → s.communityPool ≠ s.feeAccount →
      w.chain.ledger.Bears fee ∧ v.chain.ledger.Bears fee)
    (hw : (dispose how s.feeAccount fee).run s w = (.ok r, w'))
    (hv : (dispose how s.feeAccount fee).run s v = (.ok r', v')) :
    w.chain.Repeats ids w'.chain v.chain v'.chain := by
  obtain ⟨-, hdone⟩ := dispose_ok hfee hw
  obtain ⟨-, hdone'⟩ := dispose_ok hfee hv
  cases how with
  | burned => exact Bank.burn_repeats h hdone hdone'
  | communityPool =>
    obtain ⟨l, hl, rfl⟩ := hdone
    obtain ⟨k, hk, rfl⟩ := hdone'
    exact Chain.repeats_of_ledger h
      (h.plain.1.transfer_shifts hfee (fun hne => (hroom rfl (Ne.symm hne)).1) hl)
      (h.plain.2.transfer_shifts hfee (fun hne => (hroom rfl (Ne.symm hne)).2) hk)

theorem settle_repeats (h : w.chain.Alike ids v.chain) (hfee : fee.amount ≠ 0)
    (hids : ∀ t ∈ w.chain.lookup? w.chain.base fee.asset, t.pool ∈ ids)
    (hcollected : Conversion.Collected s fee w.chain ∧ Conversion.Collected s fee v.chain)
    (hroom : SettleRoom fee beneficiary s w ∧ SettleRoom fee beneficiary s v)
    (hw : (settle fee beneficiary source).run s w = (.ok (), w'))
    (hv : (settle fee beneficiary source).run s v = (.ok (), v')) :
    w.chain.Repeats ids w'.chain v.chain v'.chain := by
  obtain ⟨⟨hconvert, hrest⟩, hconvert', hrest'⟩ := hroom
  obtain ⟨r, w₂, hr, hwr⟩ := settle_ok hw
  obtain ⟨r', v₂, hr', hvr⟩ := settle_ok hv
  obtain ⟨hdispose, hshare⟩ := hrest r w₂ hr
  obtain ⟨hdispose', hshare'⟩ := hrest' r' v₂ hr'
  rw [h.base] at hconvert' hr'
  obtain ⟨rfl, hconverted⟩ :=
    Conversion.convert_repeats h hids hcollected ⟨hconvert, hconvert'⟩ hr hr'
  have h₂ := h.next hconverted
  refine hconverted.trans ?_
  cases r' with
  | converted c =>
    obtain ⟨revenue, w₃, w₄, hpay, hburn, hw'⟩ := hwr
    obtain ⟨revenue', v₃, v₄, hpay', hburn', hv'⟩ := hvr
    obtain ⟨rfl, hpaid⟩ := payShare_repeats h₂ ⟨hshare c rfl, hshare' c rfl⟩ hpay hpay'
    rw [hw', hv']
    exact (hpaid.trans (Bank.burn_repeats (h₂.next hpaid) hburn hburn')).withEvents _ _
  | unswappable =>
    obtain ⟨how, w₃, hgone, hw'⟩ := hwr
    obtain ⟨how', v₃, hgone', hv'⟩ := hvr
    rw [hw', hv']
    exact (dispose_repeats h₂ hfee (fun hpolicy hne =>
      ⟨hdispose rfl hpolicy hne, hdispose' rfl hpolicy hne⟩) hgone hgone').withEvents _ _

theorem collected_of_transfer {c : Chain} {l : Ledger} {payer : AccountId} (hc : c.ledger.Plain)
    (hfee : fee.amount ≠ 0) (hbears : payer ≠ s.feeAccount → c.ledger.Bears fee)
    (ht : c.ledger.transfer payer s.feeAccount fee .preserve = .ok l) :
    Conversion.Collected s fee { c with ledger := l } := by
  refine ⟨(Ledger.transfer_live ht).congr (Ledger.terms?_transfer ht), ?_⟩
  change fee.amount.toNat ≤ l.holds s.feeAccount fee.asset.id?
  by_cases hself : payer = s.feeAccount
  · subst hself
    rw [Ledger.transfer_self ht]
    exact Nat.le_of_add_right_le (Ledger.transfer_keeps ht (by decide))
  · have hgot := Ledger.transfer_dest hself ht (hc.anchored s.feeAccount) hfee (hbears hself)
    rw [hgot.holds]
    exact Nat.le_add_left _ _

theorem chargeFrom_repeats {payer : AccountId} (h : w.chain.Alike ids v.chain)
    (hids : fee.amount ≠ 0 → ∀ t ∈ w.chain.lookup? w.chain.base fee.asset, t.pool ∈ ids)
    (hroom : fee.amount ≠ 0 → Room s payer fee beneficiary w ∧ Room s payer fee beneficiary v)
    (hw : (chargeFrom payer fee beneficiary).run s w = (.ok (), w'))
    (hv : (chargeFrom payer fee beneficiary).run s v = (.ok (), v')) :
    w.chain.Repeats ids w'.chain v.chain v'.chain := by
  by_cases hfee : fee.amount = 0
  · rw [chargeFrom_zero hfee] at hw hv
    obtain ⟨-, rfl⟩ := Prod.mk.inj hw
    obtain ⟨-, rfl⟩ := Prod.mk.inj hv
    exact .refl h
  · obtain ⟨⟨hbears, hsettles⟩, hbears', hsettles'⟩ := hroom hfee
    obtain ⟨l, hl, hsettle⟩ := chargeFrom_ok hfee hw
    obtain ⟨k, hk, hsettle'⟩ := chargeFrom_ok hfee hv
    let w₁ : World := w.with { w.chain with ledger := l }
    let v₁ : World := v.with { v.chain with ledger := k }
    have hcollect := (Bank.transfer_ok (s := s) hfee).2 ⟨l, hl, rfl⟩
    have hcollect' := (Bank.transfer_ok (s := s) hfee).2 ⟨k, hk, rfl⟩
    have hcollected : Conversion.Collected s fee w₁.chain ∧ Conversion.Collected s fee v₁.chain :=
      ⟨collected_of_transfer h.plain.1 hfee hbears hl,
        collected_of_transfer h.plain.2 hfee hbears' hk⟩
    have hmoved : w.chain.Repeats ids w₁.chain v.chain v₁.chain :=
      Chain.repeats_of_ledger h (h.plain.1.transfer_shifts hfee hbears hl)
        (h.plain.2.transfer_shifts hfee hbears' hk)
    exact hmoved.trans (settle_repeats (h.next hmoved) hfee (hids hfee) hcollected
      ⟨hsettles () w₁ hcollect, hsettles' () v₁ hcollect'⟩ hsettle hsettle')

end Settlement

end SwapFees
