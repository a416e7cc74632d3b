import SwapFees.Effect

namespace SwapFees.Bank

open Effect

def transfer (source dest : AccountId) (c : Coin) (p : Preservation) : Effect Unit :=
  if c.isZero then pure () else onLedger fun l => l.transfer source dest c p

/-- Burns `c` and counts what the ledger burned. -/
def burn (who : AccountId) (c : Coin) : Effect Unit := do
  if c.isZero then return
  else match (← chain).ledger.burn who c with
    | .error e => fail e
    | .ok (n, l) =>
      modifyChain fun ch =>
        { ch with
          ledger := l
          burned := ch.burned.insert c.asset ((ch.totalBurned c.asset).addSat n) }

/-- Mints `c`, which must succeed. -/
def issue (who : AccountId) (c : Coin) : Effect Unit := do
  match ← attempt (onLedger fun l => l.mint who c) with
  | .ok () => return
  | .error e => Effect.fault (.mintRefused e)

end SwapFees.Bank
