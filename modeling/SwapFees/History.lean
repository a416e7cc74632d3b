import SwapFees.Dispatch
import SwapFees.Sweep

namespace SwapFees

inductive Operation
  | call (o : Origin) (c : Call)
  | idle (budget : Weight)
  | charge (fee : Coin) (beneficiary payer : Option AccountId)
  | chargeFrom (payer : AccountId) (fee : Coin) (beneficiary : Option AccountId)
  | addPool (p : Pool)
  /-- The operation, taken back if it fails. -/
  | whole (op : Operation)

namespace Operation

def perform : Operation → Effect Unit
  | call o c => c.dispatch o
  | idle budget => do
    let _ ← Sweep.idle budget
    return
  | charge fee beneficiary payer => Settlement.charge fee beneficiary payer
  | chargeFrom payer fee beneficiary => Settlement.chargeFrom payer fee beneficiary
  | addPool p => do
    let _ ← Router.addPool p
    return
  | whole op => Effect.atomically op.perform

end Operation

namespace World

/-- The world after a history. Errors are passed over; a fault ends it. -/
def replay (s : Settings) (w : World) : List Operation → World
  | [] => w
  | op :: ops =>
    match op.perform.run s w with
    | (.error (.fault _), w') => w'
    | (_, w') => replay s w' ops

end World

end SwapFees
