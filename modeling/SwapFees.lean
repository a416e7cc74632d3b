import SwapFees.Adjustment
import SwapFees.Asset
import SwapFees.Bank
import SwapFees.Benchmark
import SwapFees.Bytes
import SwapFees.Call
import SwapFees.Chain
import SwapFees.Codec.Asset
import SwapFees.Codec.Basic
import SwapFees.Codec.Call
import SwapFees.Conversion
import SwapFees.Digest.Blake2b
import SwapFees.Dispatch
import SwapFees.Effect
import SwapFees.Event
import SwapFees.Failure
import SwapFees.FeeSplit
import SwapFees.Genesis
import SwapFees.Governance
import SwapFees.History
import SwapFees.Json.Basic
import SwapFees.Json.Number
import SwapFees.Json.Parser
import SwapFees.Json.Records
import SwapFees.Json.Text
import SwapFees.Ledger.Basic
import SwapFees.Ledger.Coins
import SwapFees.Ledger.Native
import SwapFees.Ledger.Tokens
import SwapFees.Pool
import SwapFees.Preset
import SwapFees.Proofs.Alike
import SwapFees.Proofs.Announcement
import SwapFees.Proofs.Beneficiary
import SwapFees.Proofs.Budget
import SwapFees.Proofs.BurnCount
import SwapFees.Proofs.Collection
import SwapFees.Proofs.Commutation
import SwapFees.Proofs.Concatenation
import SwapFees.Proofs.Conservation
import SwapFees.Proofs.Convertible
import SwapFees.Proofs.Coverage
import SwapFees.Proofs.Curve
import SwapFees.Proofs.Divisors
import SwapFees.Proofs.EmptyReserves
import SwapFees.Proofs.ExactBurn
import SwapFees.Proofs.Fallback
import SwapFees.Proofs.Faults
import SwapFees.Proofs.FeeSplit
import SwapFees.Proofs.FeeTokens
import SwapFees.Proofs.Formats
import SwapFees.Proofs.Handover
import SwapFees.Proofs.Headroom
import SwapFees.Proofs.Independence
import SwapFees.Proofs.Json.Acceptance
import SwapFees.Proofs.Json.Grammar
import SwapFees.Proofs.Json.Numeral
import SwapFees.Proofs.Json.Reading
import SwapFees.Proofs.Json.Records
import SwapFees.Proofs.Ledger.Alive
import SwapFees.Proofs.Ledger.Balance
import SwapFees.Proofs.Ledger.Coins
import SwapFees.Proofs.Ledger.Issued
import SwapFees.Proofs.Ledger.Kept
import SwapFees.Proofs.Ledger.Native
import SwapFees.Proofs.Ledger.Plain
import SwapFees.Proofs.Ledger.Spending
import SwapFees.Proofs.Ledger.Stable
import SwapFees.Proofs.Ledger.Terms
import SwapFees.Proofs.Ledger.Tidy
import SwapFees.Proofs.Ledger.Tokens
import SwapFees.Proofs.Locality
import SwapFees.Proofs.Moves
import SwapFees.Proofs.Outcome
import SwapFees.Proofs.Parallel
import SwapFees.Proofs.Pool
import SwapFees.Proofs.Quote
import SwapFees.Proofs.Reachable
import SwapFees.Proofs.Refusals
import SwapFees.Proofs.Registration
import SwapFees.Proofs.Registry
import SwapFees.Proofs.Reserves
import SwapFees.Proofs.RoundTrip
import SwapFees.Proofs.Run
import SwapFees.Proofs.Sender
import SwapFees.Proofs.Settlement
import SwapFees.Proofs.Splitting
import SwapFees.Proofs.Steps
import SwapFees.Proofs.Suppression
import SwapFees.Proofs.Surcharge
import SwapFees.Proofs.Sweep
import SwapFees.Proofs.Total
import SwapFees.Proofs.Valuation
import SwapFees.Proofs.Value
import SwapFees.Proofs.Visits
import SwapFees.Rate
import SwapFees.Registry
import SwapFees.Route
import SwapFees.Router
import SwapFees.Scope
import SwapFees.Settlement
import SwapFees.SortedMap
import SwapFees.Swap
import SwapFees.Sweep
import SwapFees.Weight
import SwapFees.Word
