import SwapFees.Proofs.Pool
import SwapFees.Swap
import SwapFees.Sweep

namespace SwapFees

theorem Coin.amount_ne_zero {c : Coin} (h : ¬ c.isZero = true) : c.amount ≠ 0 :=
  fun e => h (decide_eq_true e)

theorem Coin.not_isZero {c : Coin} (h : c.amount ≠ 0) : ¬ c.isZero = true :=
  fun e => h (of_decide_eq_true e)

/-- `tokenIn` is burned from `who`, and `tokenOut`, unless it is nothing, minted to it. -/
def Ledger.Exchanges (l : Ledger) (who : AccountId) (tokenIn tokenOut : Coin) (l' : Ledger) : Prop :=
  ∃ n l₁, l.burn who tokenIn = .ok (n, l₁) ∧
    if tokenOut.amount = 0 then l' = l₁ else l₁.mint who tokenOut = .ok l'

open Effect

namespace Bank

variable {s : Settings} {w w' : World}

theorem transfer_ok {source dest : AccountId} {c : Coin} {p : Preservation} (hc : c.amount ≠ 0) :
    (transfer source dest c p).run s w = (.ok (), w') ↔
      ∃ l, w.chain.ledger.transfer source dest c p = .ok l ∧
        w' = w.with { w.chain with ledger := l } := by
  simp [transfer, Coin.isZero, hc, onLedger_ok]

theorem burn_ok {who : AccountId} {c : Coin} (hc : c.amount ≠ 0) :
    (burn who c).run s w = (.ok (), w') ↔
      ∃ n l, w.chain.ledger.burn who c = .ok (n, l) ∧
        w' = w.with
          { w.chain with
            ledger := l
            burned := w.chain.burned.insert c.asset ((w.chain.totalBurned c.asset).addSat n) } := by
  simp only [burn, Coin.isZero, hc, decide_false, Bool.false_eq_true, if_false, run_bind_chain]
  rcases w.chain.ledger.burn who c with _ | ⟨n, l⟩
  · simp
  · simp [eq_comm (b := w'), and_assoc]

theorem burn_frame {who : AccountId} {c : Coin} (h : (burn who c).run s w = (.ok (), w')) :
    ∃ l burned, w'.chain = { w.chain with ledger := l, burned } := by
  by_cases hc : c.amount = 0
  · simp only [burn, Coin.isZero, hc, decide_true, if_true] at h
    obtain ⟨-, rfl⟩ := Prod.mk.inj h
    exact ⟨_, _, rfl⟩
  · obtain ⟨n, l, -, rfl⟩ := (burn_ok hc).1 h
    exact ⟨l, _, rfl⟩

theorem burn_error {who : AccountId} {c : Coin} {e : Failure}
    (h : (burn who c).run s w = (.error e, w')) :
    w' = w ∧ ∃ e, w.chain.ledger.burn who c = .error e := by
  unfold burn at h
  split at h
  · cases h
  · rw [run_bind_chain] at h
    split at h
    · rename_i hrefused
      exact ⟨(Prod.mk.inj h).2.symm, _, hrefused⟩
    · cases h

end Bank

namespace Router

variable {s : Settings}

theorem debit_ok {who : AccountId} {c : Coin} {w w' : World} :
    (debit who c).run s w = (.ok (), w') ↔
      ∃ n l, w.chain.ledger.burn who c = .ok (n, l) ∧
        w' = w.with { w.chain with ledger := l } := by
  rw [debit, onLedger_ok]
  rcases w.chain.ledger.burn who c with _ | ⟨n, l⟩ <;> simp [Except.map, and_assoc]

theorem credit_ok {who : AccountId} {c : Coin} {w w' : World} :
    (credit who c).run s w = (.ok (), w') ↔
      ∃ l, (if c.amount = 0 then l = w.chain.ledger else w.chain.ledger.mint who c = .ok l) ∧
        w' = w.with { w.chain with ledger := l } := by
  unfold credit
  by_cases hc : c.amount = 0
  · simp [Coin.isZero, hc, eq_comm (a := w)]
  · simp [Coin.isZero, hc, onLedger_ok]

theorem exchange_ok {sender : AccountId} {tokenIn tokenOut : Coin} {ps : Pools} {w w' : World} :
    (exchange sender tokenIn tokenOut ps).run s w = (.ok (), w') ↔
      ∃ l, w.chain.ledger.Exchanges sender tokenIn tokenOut l ∧
        w' = w.with { w.chain with ledger := l, pools := ps } := by
  rw [exchange, bind_ok]
  constructor
  · rintro ⟨⟨⟩, v, hd, h⟩
    obtain ⟨n, l₁, hb, rfl⟩ := debit_ok.1 hd
    obtain ⟨⟨⟩, u, hc, h⟩ := bind_ok.1 h
    obtain ⟨l, hl, rfl⟩ := credit_ok.1 hc
    obtain ⟨-, rfl⟩ := Prod.mk.inj h
    exact ⟨l, ⟨n, l₁, hb, hl⟩, rfl⟩
  · rintro ⟨l, ⟨n, l₁, hb, hl⟩, rfl⟩
    exact ⟨(), _, debit_ok.2 ⟨n, l₁, hb, rfl⟩, bind_ok.2 ⟨(), _, credit_ok.2 ⟨l, hl, rfl⟩, rfl⟩⟩

/-- A failing exchange has at most taken the input. -/
theorem exchange_error {sender : AccountId} {tokenIn tokenOut : Coin} {ps : Pools} {w w' : World}
    {e : Failure} (h : (exchange sender tokenIn tokenOut ps).run s w = (.error e, w')) :
    w'.chain = w.chain ∨
      ∃ n l, w.chain.ledger.burn sender tokenIn = .ok (n, l) ∧
        w'.chain = { w.chain with ledger := l } := by
  rw [exchange, run_bind, debit, run_onLedger] at h
  rcases hb : w.chain.ledger.burn sender tokenIn with _ | ⟨n, l⟩
  · rw [hb] at h
    obtain ⟨-, rfl⟩ := Prod.mk.inj h
    exact .inl rfl
  · rw [hb] at h
    refine .inr ⟨n, l, rfl, ?_⟩
    -- The input is taken, and only paying the output can still fail.
    simp only [Except.map, run_bind, credit] at h
    split at h
    · rename_i hc
      split at hc
      · obtain ⟨-, rfl⟩ := Prod.mk.inj hc
        cases h
      · cases h
    · rename_i hc
      split at hc
      · cases hc
      · rw [run_onLedger] at hc
        obtain ⟨-, rfl⟩ := Prod.mk.inj h
        split at hc
        · cases hc
        · obtain ⟨-, rfl⟩ := Prod.mk.inj hc
          rfl

theorem failing_ok {how : RouterFailure} {sender : AccountId} {c : Coin} {n : Amount} {w w' : World}
    (h : (failing how sender c).run s w = (.ok n, w')) : n = 0 := by
  cases how with
  | reject => cases h
  | failAfterDebit =>
    obtain ⟨⟨⟩, v, -, hfail⟩ := bind_ok.1 h
    cases hfail
  | zeroOutput =>
    obtain ⟨⟨⟩, v, -, hzero⟩ := bind_ok.1 h
    cases hzero
    rfl

theorem failing_frame {how : RouterFailure} {sender : AccountId} {c : Coin} {n : Amount}
    {w w' : World} (h : (failing how sender c).run s w = (.ok n, w')) :
    ∃ l, w'.chain = { w.chain with ledger := l } := by
  cases how with
  | reject => cases h
  | failAfterDebit =>
    obtain ⟨⟨⟩, v, -, hfail⟩ := bind_ok.1 h
    cases hfail
  | zeroOutput =>
    obtain ⟨⟨⟩, v, hdebit, hzero⟩ := bind_ok.1 h
    obtain ⟨-, rfl⟩ := Prod.mk.inj hzero
    obtain ⟨-, l, -, rfl⟩ := debit_ok.1 hdebit
    exact ⟨l, rfl⟩

theorem swapIn_unfailing {sender : AccountId} {route : List HopIn} {tokenIn : Coin}
    {minOut n : Amount} {w w' : World}
    (h : (swapIn sender route tokenIn minOut).run s w = (.ok n, w')) (hn : n ≠ 0) :
    s.routerFailure = none := by
  cases hs : s.routerFailure with
  | none => rfl
  | some how =>
    rw [swapIn, run_bind_read, hs] at h
    exact absurd (failing_ok h) hn

theorem swapIn_ok (hs : s.routerFailure = none) {sender : AccountId} {route : List HopIn}
    {tokenIn : Coin} {minOut n : Amount} {w w' : World}
    (h : (swapIn sender route tokenIn minOut).run s w = (.ok n, w')) :
    ∃ out ps l, w.chain.pools.carry tokenIn route = .ok (out, ps) ∧ minOut ≤ out.amount ∧
      w.chain.ledger.Exchanges sender tokenIn out l ∧ n = out.amount ∧
      w' = w.with { w.chain with ledger := l, pools := ps } := by
  rw [swapIn, run_bind_read, hs] at h
  dsimp only at h
  split at h
  · cases h
  · rw [run_bind_chain, run_bind_lift] at h
    rcases hc : w.chain.pools.carry tokenIn route with _ | ⟨out, ps⟩
    · rw [hc] at h
      cases h
    · rw [hc] at h
      dsimp only at h
      split at h
      · cases h
      · rename_i hm
        obtain ⟨⟨⟩, v, hx, h⟩ := bind_ok.1 h
        obtain ⟨l, hl, rfl⟩ := exchange_ok.1 hx
        obtain ⟨hn, rfl⟩ := Prod.mk.inj h
        exact ⟨out, ps, l, rfl, Nat.le_of_not_lt hm, hl, (Except.ok.inj hn).symm, rfl⟩

theorem swapIn_run (hs : s.routerFailure = none) {sender : AccountId} {route : List HopIn}
    {tokenIn out : Coin} {minOut : Amount} {ps : Pools} {l : Ledger} {w : World}
    (hroute : route ≠ []) (hcarry : w.chain.pools.carry tokenIn route = .ok (out, ps))
    (hmin : minOut ≤ out.amount) (hx : w.chain.ledger.Exchanges sender tokenIn out l) :
    (swapIn sender route tokenIn minOut).run s w =
      (.ok out.amount, w.with { w.chain with ledger := l, pools := ps }) := by
  have hmin : ¬ out.amount < minOut := Nat.not_lt.2 hmin
  have hroute : ¬ route.isEmpty = true := fun e => hroute (List.isEmpty_iff.1 e)
  rw [swapIn, run_bind_read, hs]
  dsimp only
  rw [if_neg hroute, run_bind_chain, run_bind_lift, hcarry]
  dsimp only
  rw [if_neg hmin]
  exact bind_ok.2 ⟨(), _, exchange_ok.2 ⟨l, hx, rfl⟩, rfl⟩

theorem swapOut_ok (hs : s.routerFailure = none) {sender : AccountId} {route : List HopOut}
    {maxIn n : Amount} {tokenOut : Coin} {w w' : World}
    (h : (swapOut sender route maxIn tokenOut).run s w = (.ok n, w')) :
    ∃ ps l, w.chain.pools.require tokenOut route = .ok (n, ps) ∧ n ≤ maxIn ∧
      w.chain.ledger.Exchanges sender ⟨HopOut.next tokenOut.asset route, n⟩ tokenOut l ∧
      w' = w.with { w.chain with ledger := l, pools := ps } := by
  cases route with
  | nil => cases h
  | cons first rest =>
    rw [swapOut, run_bind_read, hs] at h
    dsimp only at h
    rw [run_bind_chain, run_bind_lift] at h
    rcases hc : w.chain.pools.quote tokenOut (first :: rest) with _ | ⟨m, ps⟩
    · rw [hc] at h
      cases h
    · rw [hc] at h
      dsimp only at h
      split at h
      · cases h
      · rename_i hm
        obtain ⟨⟨⟩, v, hx, h⟩ := bind_ok.1 h
        obtain ⟨l, hl, rfl⟩ := exchange_ok.1 hx
        obtain ⟨hn, rfl⟩ := Prod.mk.inj h
        obtain rfl := Except.ok.inj hn
        exact ⟨ps, l, hc, Nat.le_of_not_lt hm, hl, rfl⟩

theorem swapOut_run (hs : s.routerFailure = none) {sender : AccountId} {first : HopOut}
    {rest : List HopOut} {maxIn n : Amount} {tokenOut : Coin} {ps : Pools} {w : World}
    (hquote : w.chain.pools.quote tokenOut (first :: rest) = .ok (n, ps)) (hmax : n ≤ maxIn) :
    (swapOut sender (first :: rest) maxIn tokenOut).run s w =
      (exchange sender ⟨first.assetIn, n⟩ tokenOut ps >>= fun _ => pure n).run s w := by
  have hmax : ¬ maxIn < n := Nat.not_lt.2 hmax
  rw [swapOut, run_bind_read, hs]
  dsimp only
  rw [run_bind_chain, run_bind_lift, hquote]
  dsimp only
  rw [if_neg hmax]

theorem swapIn_frame {sender : AccountId} {route : List HopIn} {tokenIn : Coin} {minOut n : Amount}
    {w w' : World} (h : (swapIn sender route tokenIn minOut).run s w = (.ok n, w')) :
    ∃ l ps, w'.chain = { w.chain with ledger := l, pools := ps } := by
  cases hs : s.routerFailure with
  | some how =>
    rw [swapIn, run_bind_read, hs] at h
    obtain ⟨l, hl⟩ := failing_frame h
    exact ⟨l, _, hl⟩
  | none =>
    obtain ⟨out, ps, l, -, -, -, -, rfl⟩ := swapIn_ok hs h
    exact ⟨l, ps, rfl⟩

theorem swapOut_frame {sender : AccountId} {route : List HopOut} {maxIn n : Amount} {tokenOut : Coin}
    {w w' : World} (h : (swapOut sender route maxIn tokenOut).run s w = (.ok n, w')) :
    ∃ l ps, w'.chain = { w.chain with ledger := l, pools := ps } := by
  cases hs : s.routerFailure with
  | some how =>
    cases route with
    | nil => cases h
    | cons first rest =>
      rw [swapOut, run_bind_read, hs] at h
      obtain ⟨l, hl⟩ := failing_frame h
      exact ⟨l, _, hl⟩
  | none =>
    obtain ⟨ps, l, -, -, -, rfl⟩ := swapOut_ok hs h
    exact ⟨l, ps, rfl⟩

theorem estimate_ok {route : List HopOut} {tokenOut : Coin} {n : Amount} {w w' : World}
    (h : (estimate route tokenOut).run s w = (.ok n, w')) :
    w' = w ∧ ∃ ps, w.chain.pools.quote tokenOut route = .ok (n, ps) := by
  unfold estimate at h
  rw [run_bind_chain] at h
  obtain ⟨⟨m, ps⟩, v, hquote, hpure⟩ := bind_ok.1 h
  obtain ⟨hquote, hv⟩ := lift_ok.1 hquote
  obtain ⟨hn, hw⟩ := Prod.mk.inj hpure
  exact ⟨hw.symm.trans hv, ps, Except.ok.inj hn ▸ hquote⟩

end Router

namespace Conversion

variable {s : Settings} {w w' : World} {base : Asset} {fee : Coin}

/-- An injected failure never looks like a conversion: it fails, or gives nothing. -/
theorem swapThrough_ok {t : FeeToken} {c : Coin}
    (h : (swapThrough base t fee).run s w = (.ok c, w')) :
    s.routerFailure = none ∧ c.asset = base ∧ c.amount ≠ 0 ∧
      ∃ ps l, w.chain.pools.carry fee [⟨t.pool, base⟩] = .ok (c, ps) ∧
        w.chain.ledger.Exchanges s.feeAccount fee c l ∧
        w' = w.with { w.chain with ledger := l, pools := ps } := by
  unfold swapThrough at h
  rw [run_bind_read] at h
  obtain ⟨n, v, hswap, h⟩ := bind_ok.1 h
  split at h
  · rw [run_bind_report] at h
    cases h
  · rename_i hn
    rw [run_pure] at h
    obtain ⟨hc, hv⟩ := Prod.mk.inj h
    obtain rfl := Except.ok.inj hc
    subst hv
    have hs := Router.swapIn_unfailing hswap hn
    obtain ⟨out, ps, l, hcarry, -, hx, rfl, hw⟩ := Router.swapIn_ok hs hswap
    have hasset : out.asset = base := Pools.carry_asset rfl hcarry
    have hout : out = ⟨base, out.amount⟩ := by rw [← hasset]
    exact ⟨hs, rfl, hn, ps, l, hout ▸ hcarry, hout ▸ hx, hw⟩

theorem swapThrough_run (hs : s.routerFailure = none) {t : FeeToken} {c : Coin} {ps : Pools}
    {l : Ledger} (hcarry : w.chain.pools.carry fee [⟨t.pool, base⟩] = .ok (c, ps))
    (hc : c.amount ≠ 0) (hx : w.chain.ledger.Exchanges s.feeAccount fee c l) :
    (swapThrough base t fee).run s w =
      (.ok ⟨base, c.amount⟩, w.with { w.chain with ledger := l, pools := ps }) := by
  have hmin : (0 : Amount) ≤ c.amount := by
    rw [Word.le_def, Word.toNat_zero]
    exact Nat.zero_le _
  have hswap := Router.swapIn_run hs (List.cons_ne_nil _ _) hcarry hmin hx
  unfold swapThrough
  rw [run_bind_read]
  exact bind_ok.2 ⟨c.amount, _, hswap, by rw [if_neg hc, run_pure]⟩

theorem convert_of_swapThrough {t : FeeToken} {c : Coin} {v : World} {r : Conversion}
    (hbase : fee.asset ≠ base) (ht : w.chain.lookup? base fee.asset = some t)
    (hswap : (swapThrough base t fee).run s w = (.ok c, v))
    (h : (convert base fee).run s w = (.ok r, w')) : r = .converted c := by
  unfold convert at h
  rw [if_neg hbase, run_bind_chain, ht] at h
  dsimp only at h
  obtain ⟨x, u, hx, h⟩ := bind_ok.1 h
  rw [run_transact, run_attempt, hswap] at hx
  obtain ⟨hx, -⟩ := Prod.mk.inj hx
  obtain rfl := Except.ok.inj hx
  obtain ⟨⟨⟩, y, -, h⟩ := bind_ok.1 h
  exact (Except.ok.inj (Prod.mk.inj h).1).symm

/-- What converting `fee` answers, and what it makes of a chain. -/
inductive Outcome (s : Settings) (base : Asset) (fee : Coin) (c : Chain) : Conversion → Chain → Prop
  | kept (hbase : fee.asset = base) : Outcome s base fee c (.converted fee) c
  | exchanged {t : FeeToken} {out : Coin} {ps : Pools} {l : Ledger} {es : List Event}
    (hbase : fee.asset ≠ base) (hs : s.routerFailure = none) (ht : c.lookup? base fee.asset = some t)
    (hasset : out.asset = base) (hout : out.amount ≠ 0)
    (hcarry : c.pools.carry fee [⟨t.pool, base⟩] = .ok (out, ps))
    (hx : c.ledger.Exchanges s.feeAccount fee out l)
    (hes : ∀ e ∈ es, e = .feeTokenSwapped t.pool fee out) :
    Outcome s base fee c (.converted out)
      { c with ledger := l, pools := ps, events := c.events ++ es }
  | refused (hbase : fee.asset ≠ base) : Outcome s base fee c .unswappable c

theorem convert_outcome {r : Conversion} (h : (convert base fee).run s w = (.ok r, w')) :
    Outcome s base fee w.chain r w'.chain := by
  unfold convert at h
  split at h
  · rename_i hbase
    obtain ⟨hr, rfl⟩ := Prod.mk.inj h
    obtain rfl := Except.ok.inj hr
    exact .kept hbase
  rename_i hbase
  rw [run_bind_chain] at h
  split at h
  · obtain ⟨hr, rfl⟩ := Prod.mk.inj h
    obtain rfl := Except.ok.inj hr
    exact .refused hbase
  rename_i t ht
  obtain ⟨x, v, hx, h⟩ := bind_ok.1 h
  rw [run_transact, run_attempt] at hx
  rcases hrun : (swapThrough base t fee).run s w with ⟨(e | f) | out, u⟩
  · -- The failed swap is taken back.
    rw [hrun] at hx
    obtain ⟨hx, hv⟩ := Prod.mk.inj hx
    obtain rfl := Except.ok.inj hx
    obtain ⟨hr, hw⟩ := Prod.mk.inj h
    obtain rfl := Except.ok.inj hr
    rw [← hw, ← hv]
    exact .refused hbase
  · rw [hrun] at hx
    cases hx
  · rw [hrun] at hx
    obtain ⟨hx, hv⟩ := Prod.mk.inj hx
    obtain rfl := Except.ok.inj hx
    obtain ⟨hs, hasset, hout, ps, l, hcarry, hex, hu⟩ := swapThrough_ok hrun
    have hv : v = w.with { w.chain with ledger := l, pools := ps } := hv.symm.trans hu
    obtain ⟨⟨⟩, y, hy, h⟩ := bind_ok.1 h
    obtain ⟨hr, rfl⟩ := Prod.mk.inj h
    obtain rfl := Except.ok.inj hr
    unfold announce at hy
    rw [run_bind_read] at hy
    split at hy
    · obtain ⟨-, rfl⟩ := Prod.mk.inj hy
      rw [hv]
      exact .exchanged hbase hs ht hasset hout hcarry hex fun e he => List.mem_singleton.1 he
    · obtain ⟨-, rfl⟩ := Prod.mk.inj hy
      have hnone : w.chain.events = w.chain.events ++ [] := (List.append_nil _).symm
      rw [hv]
      dsimp only [World.with]
      rw [hnone]
      exact .exchanged hbase hs ht hasset hout hcarry hex nofun

end Conversion

namespace Settlement

variable {s : Settings} {w w' : World}

/-- What is left of a converted fee when the beneficiary is paid. -/
def rest (c : Coin) : Option Coin → Coin
  | none => c
  | some share => c.withAmount (c.amount.subSat share.amount)

theorem chargeFrom_zero {payer : AccountId} {fee : Coin} {beneficiary : Option AccountId}
    (hfee : fee.amount = 0) : (chargeFrom payer fee beneficiary).run s w = (.ok (), w) := by
  simp [chargeFrom, Coin.isZero, hfee]

theorem chargeFrom_ok {payer : AccountId} {fee : Coin} {beneficiary : Option AccountId}
    (hfee : fee.amount ≠ 0) (h : (chargeFrom payer fee beneficiary).run s w = (.ok (), w')) :
    ∃ l, w.chain.ledger.transfer payer s.feeAccount fee .preserve = .ok l ∧
      (settle fee beneficiary (some payer)).run s (w.with { w.chain with ledger := l }) =
        (.ok (), w') := by
  simp only [chargeFrom, Coin.isZero, hfee, decide_false, Bool.false_eq_true, if_false,
    run_bind_read] at h
  obtain ⟨⟨⟩, v, ht, h⟩ := bind_ok.1 h
  obtain ⟨l, hl, rfl⟩ := (Bank.transfer_ok hfee).1 ht
  exact ⟨l, hl, h⟩

end Settlement

namespace Swap

variable {s : Settings} {w w' : World} {sender : AccountId}

theorem chargeTakerFee_ok {fee : Coin} {firstHop : HopIn} {beneficiary : Option AccountId}
    (h : (chargeTakerFee sender fee firstHop beneficiary).run s w = (.ok (), w')) :
    fee.amount = 0 ∧ w' = w ∨
      fee.amount ≠ 0 ∧ ∃ got v, (acceptedFee sender fee firstHop).run s w = (.ok got, v) ∧
        (Settlement.chargeFrom sender got beneficiary).run s v = (.ok (), w') := by
  unfold chargeTakerFee at h
  split at h
  · rename_i hz
    cases h
    exact .inl ⟨of_decide_eq_true hz, rfl⟩
  · rename_i hz
    exact .inr ⟨Coin.amount_ne_zero hz, bind_ok.1 h⟩

/-- The fee is either accepted as it is, or swapped by the sender for the coin that is charged. -/
theorem acceptedFee_cases {fee fee' : Coin} {firstHop : HopIn}
    (h : (acceptedFee sender fee firstHop).run s w = (.ok fee', w')) :
    w.chain.isFeeAsset fee.asset = true ∧ fee' = fee ∧ w' = w ∨
      w.chain.isFeeAsset fee.asset = false ∧ ∃ v n, v.chain = w.chain ∧
        (Router.swapIn sender [firstHop] fee 0).run s v = (.ok n, w') ∧
        fee' = ⟨firstHop.assetOut, n⟩ := by
  unfold acceptedFee at h
  rw [run_bind_chain] at h
  split at h
  · rename_i haccepted
    obtain ⟨hfee, rfl⟩ := Prod.mk.inj h
    exact .inl ⟨haccepted, (Except.ok.inj hfee).symm, rfl⟩
  · rename_i haccepted
    rw [run_bind_report] at h
    obtain ⟨n, v, hswap, h⟩ := bind_ok.1 h
    obtain ⟨hfee, rfl⟩ := Prod.mk.inj h
    exact .inr ⟨Bool.eq_false_iff.2 haccepted, { w with log := w.log ++ [_] }, n, rfl,
      hswap, (Except.ok.inj hfee).symm⟩

theorem acceptedFee_ok (hs : s.routerFailure = none) {fee fee' : Coin} {firstHop : HopIn}
    (h : (acceptedFee sender fee firstHop).run s w = (.ok fee', w')) :
    w.chain.isFeeAsset fee.asset = true ∧ fee' = fee ∧ w' = w ∨
      w.chain.isFeeAsset fee.asset = false ∧
        ∃ ps l, w.chain.pools.carry fee [firstHop] = .ok (fee', ps) ∧
          w.chain.ledger.Exchanges sender fee fee' l ∧
          w'.chain = { w.chain with ledger := l, pools := ps } := by
  rcases acceptedFee_cases h with haccepted | ⟨haccepted, v, n, hv, hswap, rfl⟩
  · exact .inl haccepted
  · obtain ⟨out, ps, l, hc, -, hx, rfl, rfl⟩ := Router.swapIn_ok hs hswap
    have hasset : out.asset = firstHop.assetOut := Pools.carry_asset rfl hc
    rw [hv] at hc hx ⊢
    rw [← hasset]
    exact .inr ⟨haccepted, ps, l, hc, hx, rfl⟩

/-- The event of a swap, with the fee that its last pool has then. -/
def told (c : Chain) (sender : AccountId) (pool : PoolId) (tokensIn tokensOut : Coin)
    (takerFee : Rate) : Event :=
  .tokenSwapped sender pool tokensIn tokensOut
    ((Price.ofRatio? tokensIn.amount tokensOut.amount).getD 0) takerFee
    (((c.pools.get? pool).map Pool.fee).getD Rate.zero)

/-- A swap settles its taker fee and then trades the rest of its input. -/
theorem swapIn_ok {route : List HopIn} {tokenIn : Coin} {minOut n : Amount} {last : HopIn}
    (h : (swapIn sender route tokenIn minOut).run s w = (.ok n, w'))
    (hlast : route.getLast? = some last) :
    ∃ first b w₁ w₂ w₃, route.head? = some first ∧
      (beneficiary tokenIn.asset last.assetOut).run s w = (.ok b, w₁) ∧
      (chargeTakerFee sender (FeeSplit.subtract tokenIn w.chain.takerFee).fee first b).run s w₁ =
        (.ok (), w₂) ∧
      (Router.swapIn sender route (FeeSplit.subtract tokenIn w.chain.takerFee).net minOut).run s w₂ =
        (.ok n, w₃) ∧
      w' = w₃.with
        { w₃.chain with
          events := w₃.chain.events ++
            [told w₃.chain sender last.pool (FeeSplit.subtract tokenIn w.chain.takerFee).net
              ⟨last.assetOut, n⟩ w.chain.takerFee] } := by
  unfold swapIn at h
  rw [hlast] at h
  rcases hfirst : route.head? with _ | first
  · rw [hfirst] at h
    cases h
  · rw [hfirst] at h
    dsimp only at h
    rw [run_bind_chain] at h
    obtain ⟨b, w₁, hb, h⟩ := bind_ok.1 h
    obtain ⟨⟨⟩, w₂, hfee, h⟩ := bind_ok.1 h
    obtain ⟨m, w₃, hswap, h⟩ := bind_ok.1 h
    obtain ⟨hm, rfl⟩ := Prod.mk.inj h
    obtain rfl := Except.ok.inj hm
    exact ⟨first, b, w₁, w₂, w₃, rfl, hb, hfee, hswap, rfl⟩

/-- A purchase settles a taker fee on what is quoted for it, and then pays at most the rest of its
maximum. -/
theorem swapOut_ok {first : HopOut} {rest : List HopOut} {maxIn n : Amount} {tokenOut : Coin}
    (h : (swapOut sender (first :: rest) maxIn tokenOut).run s w = (.ok n, w')) :
    ∃ quoted split b w₁ w₂ m w₃,
      (∃ ps, w.chain.pools.quote tokenOut (first :: rest) = .ok (quoted, ps)) ∧
      FeeSplit.add ⟨first.assetIn, quoted⟩ w.chain.takerFee = .ok split ∧
      split.gross.amount ≤ maxIn ∧
      (beneficiary first.assetIn tokenOut.asset).run s w = (.ok b, w₁) ∧
      (chargeTakerFee sender split.fee ⟨first.pool, HopOut.next tokenOut.asset rest⟩ b).run s w₁ =
        (.ok (), w₂) ∧
      (Router.swapOut sender (first :: rest) (maxIn.subSat split.fee.amount) tokenOut).run s w₂ =
        (.ok m, w₃) ∧
      n = m.addSat split.fee.amount ∧
      ∃ last : HopOut, w' = w₃.with
        { w₃.chain with
          events := w₃.chain.events ++
            [told w₃.chain sender last.pool ⟨first.assetIn, m⟩ tokenOut w.chain.takerFee] } := by
  unfold swapOut at h
  rcases hlast : (first :: rest).getLast? with _ | last
  · rw [hlast] at h
    cases h
  · rw [hlast] at h
    dsimp only at h
    rw [run_bind_chain] at h
    obtain ⟨quoted, v, hq, h⟩ := bind_ok.1 h
    obtain ⟨hv, hquote⟩ := Router.estimate_ok hq
    rw [hv] at h
    obtain ⟨split, u, hsplit, h⟩ := bind_ok.1 h
    obtain ⟨hsplit, hu⟩ := lift_ok.1 hsplit
    rw [hu] at h
    split at h
    · cases h
    · rename_i hmax
      obtain ⟨b, w₁, hb, h⟩ := bind_ok.1 h
      obtain ⟨⟨⟩, w₂, hfee, h⟩ := bind_ok.1 h
      obtain ⟨m, w₃, hswap, h⟩ := bind_ok.1 h
      obtain ⟨hm, rfl⟩ := Prod.mk.inj h
      exact ⟨quoted, split, b, w₁, w₂, m, w₃, hquote, hsplit, Nat.le_of_not_lt hmax, hb, hfee, hswap,
        (Except.ok.inj hm).symm, last, rfl⟩

theorem swapOut_run {first last : HopOut} {rest : List HopOut} {maxIn quoted : Amount}
    {tokenOut : Coin} {split : FeeSplit} {b : Option AccountId} {v w₁ : World}
    (hlast : (first :: rest).getLast? = some last)
    (hquote : (Router.estimate (first :: rest) tokenOut).run s w = (.ok quoted, v))
    (hsplit : FeeSplit.add ⟨first.assetIn, quoted⟩ w.chain.takerFee = .ok split)
    (hmax : split.gross.amount ≤ maxIn)
    (hb : (beneficiary first.assetIn tokenOut.asset).run s w = (.ok b, w₁)) :
    (swapOut sender (first :: rest) maxIn tokenOut).run s w = (do
      chargeTakerFee sender split.fee ⟨first.pool, HopOut.next tokenOut.asset rest⟩ b
      let n ← Router.swapOut sender (first :: rest) (maxIn.subSat split.fee.amount) tokenOut
      depositSwap sender last.pool ⟨first.assetIn, n⟩ tokenOut w.chain.takerFee
      return n.addSat split.fee.amount : Effect Amount).run s w₁ := by
  have hmax : ¬ maxIn < split.gross.amount := Nat.not_lt.2 hmax
  have hv : v = w := (Router.estimate_ok hquote).1
  rw [hv] at hquote
  unfold swapOut
  rw [hlast]
  dsimp only
  rw [run_bind_chain, run_bind, hquote]
  dsimp only
  rw [run_bind_lift, hsplit]
  dsimp only
  rw [if_neg hmax, run_bind, hb]

end Swap

namespace Sweep

variable {s : Settings} {w w' : World}

/-- What is found of the base asset is burned as a whole, counted and told of. It stays only where
the ledger refuses to burn it. -/
def ResidueBurned (s : Settings) (base : Asset) (c c' : Chain) : Prop :=
  ∃ residue : Coin, residue = ⟨base, c.balance s.feeAccount base⟩ ∧
    (c' = c ∧ (residue.amount = 0 ∨ ∃ e, c.ledger.burn s.feeAccount residue = .error e) ∨
      residue.amount ≠ 0 ∧ ∃ n l, c.ledger.burn s.feeAccount residue = .ok (n, l) ∧
        c' =
          { c with
            ledger := l
            burned := c.burned.insert base ((c.totalBurned base).addSat n)
            events := c.events ++ [.residueBurned residue] })

theorem burnResidue_ok {base : Asset} (h : (burnResidue base).run s w = (.ok (), w')) :
    ResidueBurned s base w.chain w'.chain := by
  unfold burnResidue at h
  rw [run_bind_read, run_bind_chain] at h
  refine ⟨_, rfl, ?_⟩
  dsimp only at h
  split at h
  · rename_i hzero
    obtain ⟨-, rfl⟩ := Prod.mk.inj h
    exact .inl ⟨rfl, .inl (of_decide_eq_true hzero)⟩
  · rename_i hzero
    have hne := Coin.amount_ne_zero hzero
    obtain ⟨r, v, hr, h⟩ := bind_ok.1 h
    rcases attempt_ok.1 hr with ⟨⟨⟩, rfl, hburn⟩ | ⟨e, rfl, hburn⟩
    · obtain ⟨-, rfl⟩ := Prod.mk.inj h
      obtain ⟨n, l, hl, rfl⟩ := (Bank.burn_ok hne).1 hburn
      exact .inr ⟨hne, n, l, hl, rfl⟩
    · obtain ⟨-, rfl⟩ := Prod.mk.inj h
      obtain ⟨rfl, hrefused⟩ := Bank.burn_error hburn
      exact .inl ⟨rfl, .inr hrefused⟩

/-- After its visits a sweep moves the cursor, and burns the residue just if there is weight left. -/
theorem idle_ok {budget used : Weight} (h : (idle budget).run s w = (.ok used, w')) :
    ∃ v moved burns, (visitAll w.chain.base (visits s w.chain budget).visited).run s w = (.ok (), v) ∧
      moved = v.with { v.chain with cursor := (visits s w.chain budget).cursor v.chain.cursor } ∧
      ((visits s w.chain budget).used + Schedule.flat.burnResidue).fits budget = burns ∧
      used = (if burns then (visits s w.chain budget).used + Schedule.flat.burnResidue
        else (visits s w.chain budget).used) ∧
      if burns then (burnResidue w.chain.base).run s moved = (.ok (), w') else w' = moved := by
  unfold idle at h
  rw [run_bind_chain, run_bind_read] at h
  obtain ⟨⟨⟩, v, hv, h⟩ := bind_ok.1 h
  rw [run_bind_modifyChain] at h
  dsimp only at h
  generalize (visits s w.chain budget).used + Schedule.flat.burnResidue = total at h ⊢
  refine ⟨v, _, _, hv, rfl, rfl, ?_⟩
  cases hburns : total.fits budget with
  | true =>
    rw [if_pos hburns] at h
    obtain ⟨⟨⟩, u, hu, h⟩ := bind_ok.1 h
    obtain ⟨hused, rfl⟩ := Prod.mk.inj h
    exact ⟨(Except.ok.inj hused).symm, hu⟩
  | false =>
    rw [hburns, if_neg Bool.false_ne_true] at h
    obtain ⟨hused, rfl⟩ := Prod.mk.inj h
    exact ⟨(Except.ok.inj hused).symm, rfl⟩

end Sweep

end SwapFees
