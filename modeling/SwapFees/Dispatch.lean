import SwapFees.Call
import SwapFees.Governance
import SwapFees.Swap

namespace SwapFees

open Effect

def Origin.requireRoot : Origin → Effect Unit
  | root => pure ()
  | _ => fail .badOrigin

def Origin.requireAccount : Origin → Effect AccountId
  | signed who => pure who
  | _ => fail .badOrigin

def FeeCall.perform (o : Origin) (c : FeeCall) : Effect Unit := do
  o.requireRoot
  match c with
  | setBase a => Governance.setBase a
  | setFeeToken t => Governance.setFeeToken t
  | removeFeeToken a => Governance.removeFeeToken a

def SwapCall.perform (o : Origin) : SwapCall → Effect Unit
  | swapIn route tokenIn minOut => do
    let sender ← o.requireAccount
    let _ ← Swap.swapIn sender route.val tokenIn minOut
    return
  | swapOut route maxIn tokenOut => do
    let sender ← o.requireAccount
    let _ ← Swap.swapOut sender route.val maxIn tokenOut
    return
  | setTakerFee rate => do
    o.requireRoot
    Governance.setTakerFee rate

def Call.dispatch (o : Origin) : Call → Effect Unit
  | fees c => atomically (c.perform o)
  | swaps c => atomically (c.perform o)

end SwapFees
