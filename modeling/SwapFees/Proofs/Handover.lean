import SwapFees.Proofs.Headroom

namespace SwapFees

/-- A condition on who pays a coin, the coin, who is rewarded for it, and the world in which it is
about to be collected. -/
abbrev Handover := AccountId → Coin → Option AccountId → World → Prop

namespace Swap

variable (Q : Handover)

abbrev TakerFeeMeets (sender : AccountId) (fee : Coin) (firstHop : HopIn)
    (beneficiary : Option AccountId) (s : Settings) (w : World) : Prop :=
  fee.amount ≠ 0 → (acceptedFee sender fee firstHop).All s w fun got w =>
    Q sender got beneficiary w

abbrev SwapInMeets (sender : AccountId) (route : List HopIn) (tokenIn : Coin) (s : Settings)
    (w : World) : Prop :=
  ∀ first ∈ route.head?, ∀ last ∈ route.getLast?,
    (beneficiary tokenIn.asset last.assetOut).All s w fun b v =>
      TakerFeeMeets Q sender (FeeSplit.subtract tokenIn w.chain.takerFee).fee first b s v

abbrev SwapOutMeets (sender : AccountId) (route : List HopOut) (maxIn : Amount) (tokenOut : Coin)
    (s : Settings) (w : World) : Prop :=
  ∀ first ∈ route.head?, (w.chain.pools.quote tokenOut route).All fun quoted =>
    (FeeSplit.add ⟨first.assetIn, quoted.1⟩ w.chain.takerFee).All fun split =>
      split.gross.amount ≤ maxIn → (beneficiary first.assetIn tokenOut.asset).All s w fun b v =>
        TakerFeeMeets Q sender split.fee ⟨first.pool, HopOut.next tokenOut.asset route.tail⟩ b s v

end Swap

variable (Q : Handover)

def SwapCall.Meets (o : Origin) (s : Settings) (w : World) : SwapCall → Prop
  | swapIn route tokenIn _ => ∀ sender ∈ o.account?,
      Swap.SwapInMeets Q sender route.val tokenIn s w
  | swapOut route maxIn tokenOut => ∀ sender ∈ o.account?,
      Swap.SwapOutMeets Q sender route.val maxIn tokenOut s w
  | setTakerFee _ => True

def Operation.Meets (s : Settings) (w : World) : Operation → Prop
  | call o (.swaps c) => c.Meets Q o s w
  | chargeFrom payer fee beneficiary => fee.amount ≠ 0 → Q payer fee beneficiary w
  | whole op => op.Meets s w
  | _ => True

/-- Every coin that is handed over in a history meets the condition. -/
def World.Meets (s : Settings) : World → List Operation → Prop
  | _, [] => True
  | w, op :: ops => op.Meets Q s w ∧
      (faulted (op.perform.run s w).1 = false → World.Meets s (op.perform.run s w).2 ops)

theorem World.Meets.next {s : Settings} {w w' : World} {op : Operation} {ops : List Operation}
    (h : World.Meets Q s w (op :: ops)) (hop : op.perform.run s w = (.ok (), w')) :
    World.Meets Q s w' ops := by
  have hrest := h.2
  rw [hop] at hrest
  exact hrest rfl

instance [∀ p c b w, Decidable (Q p c b w)] (o : Origin) (s : Settings) (w : World) :
    (c : SwapCall) → Decidable (c.Meets Q o s w)
  | .swapIn route tokenIn _ => inferInstanceAs
      (Decidable (∀ sender ∈ o.account?, Swap.SwapInMeets Q sender route.val tokenIn s w))
  | .swapOut route maxIn tokenOut => inferInstanceAs
      (Decidable (∀ sender ∈ o.account?, Swap.SwapOutMeets Q sender route.val maxIn tokenOut s w))
  | .setTakerFee _ => .isTrue trivial

instance Operation.decidableMeets [∀ p c b w, Decidable (Q p c b w)] (s : Settings) (w : World) :
    (op : Operation) → Decidable (op.Meets Q s w)
  | call _ (.fees _) => .isTrue trivial
  | call o (.swaps c) => inferInstanceAs (Decidable (c.Meets Q o s w))
  | idle _ => .isTrue trivial
  | charge .. => .isTrue trivial
  | chargeFrom payer fee beneficiary =>
    inferInstanceAs (Decidable (fee.amount ≠ 0 → Q payer fee beneficiary w))
  | addPool _ => .isTrue trivial
  | whole op => decidableMeets s w op

instance World.decidableMeets [∀ p c b w, Decidable (Q p c b w)] (s : Settings) :
    (w : World) → (ops : List Operation) → Decidable (World.Meets Q s w ops)
  | _, [] => .isTrue trivial
  | w, op :: ops =>
    have := decidableMeets s (op.perform.run s w).2 ops
    inferInstanceAs (Decidable (op.Meets Q s w ∧
      (faulted (op.perform.run s w).1 = false → World.Meets Q s (op.perform.run s w).2 ops)))

end SwapFees
