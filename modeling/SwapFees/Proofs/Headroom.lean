import SwapFees.History
import SwapFees.Proofs.Outcome
import SwapFees.Proofs.Reserves

namespace SwapFees

/-- The burn counter has room for what the ledger burns. The conditions after this one follow the runs
that they are named for, and ask that every addition to a reserve or to a burn counter fits. -/
abbrev Bank.BurnFits (who : AccountId) (c : Coin) (w : World) : Prop :=
  c.amount ≠ 0 → (w.chain.ledger.burn who c).All fun r =>
    (w.chain.totalBurned c.asset).toNat + r.1.toNat < 2 ^ (128 : Nat)

namespace Conversion

abbrev ConvertFits (base : Asset) (fee : Coin) (w : World) : Prop :=
  fee.asset ≠ base → ∀ t ∈ w.chain.lookup? base fee.asset,
    w.chain.pools.CarryFits fee [⟨t.pool, base⟩]

def coin? : Conversion → Option Coin
  | converted c => some c
  | unswappable => none

end Conversion

namespace Settlement

abbrev SettleFits (fee : Coin) (beneficiary : Option AccountId) (s : Settings) (w : World) : Prop :=
  Conversion.ConvertFits w.chain.base fee w ∧
    (Conversion.convert w.chain.base fee).All s w fun r w =>
      (r.coin? = none → s.policy = .burned → Bank.BurnFits s.feeAccount fee w) ∧
        ∀ c ∈ r.coin?, (payShare beneficiary c).All s w fun revenue w =>
          Bank.BurnFits s.feeAccount (rest c revenue) w

instance (fee : Coin) (beneficiary : Option AccountId) (s : Settings) (w : World) :
    Decidable (SettleFits fee beneficiary s w) := inferInstance

abbrev ChargeFits (fee : Coin) (beneficiary : Option AccountId) (s : Settings) (w : World) : Prop :=
  fee.amount ≠ 0 → SettleFits fee beneficiary s w

abbrev ChargeFromFits (payer : AccountId) (fee : Coin) (beneficiary : Option AccountId)
    (s : Settings) (w : World) : Prop :=
  fee.amount ≠ 0 → (Bank.transfer payer s.feeAccount fee .preserve).All s w fun _ w =>
    SettleFits fee beneficiary s w

end Settlement

namespace Swap

abbrev AcceptedFeeFits (fee : Coin) (firstHop : HopIn) (w : World) : Prop :=
  w.chain.isFeeAsset fee.asset = false → w.chain.pools.CarryFits fee [firstHop]

abbrev TakerFeeFits (sender : AccountId) (fee : Coin) (firstHop : HopIn)
    (beneficiary : Option AccountId) (s : Settings) (w : World) : Prop :=
  fee.amount ≠ 0 → AcceptedFeeFits fee firstHop w ∧
    (acceptedFee sender fee firstHop).All s w fun fee w =>
      Settlement.ChargeFromFits sender fee beneficiary s w

instance (sender : AccountId) (fee : Coin) (firstHop : HopIn) (beneficiary : Option AccountId)
    (s : Settings) (w : World) : Decidable (TakerFeeFits sender fee firstHop beneficiary s w) :=
  inferInstance

abbrev SwapInFits (sender : AccountId) (route : List HopIn) (tokenIn : Coin) (s : Settings)
    (w : World) : Prop :=
  let split := FeeSplit.subtract tokenIn w.chain.takerFee
  ∀ first ∈ route.head?, ∀ last ∈ route.getLast?,
    (beneficiary tokenIn.asset last.assetOut).All s w fun b w =>
      TakerFeeFits sender split.fee first b s w ∧
        (chargeTakerFee sender split.fee first b).All s w fun _ w =>
          w.chain.pools.CarryFits split.net route

abbrev SwapOutFits (sender : AccountId) (route : List HopOut) (maxIn : Amount) (tokenOut : Coin)
    (s : Settings) (w : World) : Prop :=
  ∀ first ∈ route.head?, (w.chain.pools.quote tokenOut route).All fun quoted =>
    (FeeSplit.add ⟨first.assetIn, quoted.1⟩ w.chain.takerFee).All fun split =>
      split.gross.amount ≤ maxIn → (beneficiary first.assetIn tokenOut.asset).All s w fun b w =>
        let firstHop : HopIn := ⟨first.pool, HopOut.next tokenOut.asset route.tail⟩
        TakerFeeFits sender split.fee firstHop b s w ∧
          (chargeTakerFee sender split.fee firstHop b).All s w fun _ w =>
            w.chain.pools.RequireFits tokenOut route

end Swap

namespace Sweep

abbrev VisitFits (base a : Asset) (s : Settings) (w : World) : Prop :=
  w.chain.balance s.feeAccount a ≠ 0 →
    Conversion.ConvertFits base ⟨a, w.chain.balance s.feeAccount a⟩ w

def VisitAllFits (base : Asset) (s : Settings) : List Asset → World → Prop
  | [], _ => True
  | a :: as, w => VisitFits base a s w ∧
      (visit base a).All s w fun _ w => VisitAllFits base s as w

abbrev IdleFits (budget : Weight) (s : Settings) (w : World) : Prop :=
  let v := visits s w.chain budget
  let base := w.chain.base
  VisitAllFits base s v.visited w ∧ (visitAll base v.visited).All s w fun _ w =>
    (v.used + Schedule.flat.burnResidue).fits budget →
      Bank.BurnFits s.feeAccount ⟨base, w.chain.balance s.feeAccount base⟩ w

end Sweep

def Origin.account? : Origin → Option AccountId
  | signed who => some who
  | _ => Option.none

theorem Origin.requireAccount_ok {o : Origin} {who : AccountId} {s : Settings} {w w' : World}
    (h : o.requireAccount.run s w = (.ok who, w')) : who ∈ o.account? ∧ w' = w := by
  cases o with
  | signed q =>
    obtain ⟨hwho, rfl⟩ := Prod.mk.inj h
    exact ⟨congrArg some (Except.ok.inj hwho), rfl⟩
  | root => cases h
  | none => cases h

theorem Origin.signed_ok {o : Origin} {α : Type} {f : AccountId → Effect α} {s : Settings}
    {w w' : World}
    (h : (o.requireAccount >>= fun who => f who >>= fun _ => pure ()).run s w = (.ok (), w')) :
    ∃ who ∈ o.account?, ∃ x, (f who).run s w = (.ok x, w') := by
  obtain ⟨who, v, horigin, hrest⟩ := Effect.bind_ok.1 h
  obtain ⟨hwho, rfl⟩ := Origin.requireAccount_ok horigin
  obtain ⟨x, u, hf, hend⟩ := Effect.bind_ok.1 hrest
  obtain ⟨-, rfl⟩ := Prod.mk.inj hend
  exact ⟨who, hwho, x, hf⟩

def SwapCall.Fits (o : Origin) (s : Settings) (w : World) : SwapCall → Prop
  | swapIn route tokenIn _ => ∀ sender ∈ o.account?,
      Swap.SwapInFits sender route.val tokenIn s w
  | swapOut route maxIn tokenOut => ∀ sender ∈ o.account?,
      Swap.SwapOutFits sender route.val maxIn tokenOut s w
  | setTakerFee _ => True

def Operation.Fits (s : Settings) (w : World) : Operation → Prop
  | call o (.swaps c) => c.Fits o s w
  | idle budget => Sweep.IdleFits budget s w
  | charge fee beneficiary _ => Settlement.ChargeFits fee beneficiary s w
  | chargeFrom payer fee beneficiary => Settlement.ChargeFromFits payer fee beneficiary s w
  | whole op => op.Fits s w
  | _ => True

def faulted : Except Failure Unit → Bool
  | .error (.fault _) => true
  | _ => false

/-- No reserve and no burn counter saturates in a history. -/
def World.Fits (s : Settings) : World → List Operation → Prop
  | _, [] => True
  | w, op :: ops => op.Fits s w ∧
      (faulted (op.perform.run s w).1 = false → World.Fits s (op.perform.run s w).2 ops)

instance Sweep.decidableVisitAllFits (base : Asset) (s : Settings) :
    (as : List Asset) → (w : World) → Decidable (VisitAllFits base s as w)
  | [], _ => .isTrue trivial
  | a :: as, w =>
    have := decidableVisitAllFits base s as
    inferInstanceAs (Decidable (VisitFits base a s w ∧
      (visit base a).All s w fun _ w => VisitAllFits base s as w))

instance (o : Origin) (s : Settings) (w : World) : (c : SwapCall) → Decidable (c.Fits o s w)
  | .swapIn route tokenIn _ => inferInstanceAs
      (Decidable (∀ sender ∈ o.account?, Swap.SwapInFits sender route.val tokenIn s w))
  | .swapOut route maxIn tokenOut => inferInstanceAs
      (Decidable (∀ sender ∈ o.account?, Swap.SwapOutFits sender route.val maxIn tokenOut s w))
  | .setTakerFee _ => .isTrue trivial

instance Operation.decidableFits (s : Settings) (w : World) :
    (op : Operation) → Decidable (op.Fits s w)
  | call _ (.fees _) => .isTrue trivial
  | call o (.swaps c) => inferInstanceAs (Decidable (c.Fits o s w))
  | idle budget => inferInstanceAs (Decidable (Sweep.IdleFits budget s w))
  | charge fee beneficiary _ =>
    inferInstanceAs (Decidable (Settlement.ChargeFits fee beneficiary s w))
  | chargeFrom payer fee beneficiary =>
    inferInstanceAs (Decidable (Settlement.ChargeFromFits payer fee beneficiary s w))
  | addPool _ => .isTrue trivial
  | whole op => decidableFits s w op

instance World.decidableFits (s : Settings) :
    (w : World) → (ops : List Operation) → Decidable (World.Fits s w ops)
  | _, [] => .isTrue trivial
  | w, op :: ops =>
    have := decidableFits s (op.perform.run s w).2 ops
    inferInstanceAs (Decidable (op.Fits s w ∧
      (faulted (op.perform.run s w).1 = false → World.Fits s (op.perform.run s w).2 ops)))

end SwapFees
