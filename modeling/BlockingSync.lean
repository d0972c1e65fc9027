import BlockingSync.WaitList.Script
import BlockingSync.Scenario
import BlockingSync.Record.BinaryForm
import BlockingSync.Error.JsonForm
import BlockingSync.Config.Environment
import BlockingSync.Main
import BlockingSync.Proofs.Tokens
import BlockingSync.Proofs.Contention
import BlockingSync.Proofs.History
import BlockingSync.Proofs.Legality
import BlockingSync.Proofs.Supply
import BlockingSync.Proofs.Exclusion
import BlockingSync.Proofs.Presence
import BlockingSync.Proofs.Replacement
import BlockingSync.Proofs.Signals
import BlockingSync.Proofs.Tenure
import BlockingSync.Machine.Persist
import BlockingSync.Proofs.Utf8
import BlockingSync.Proofs.Wire
import BlockingSync.Proofs.Canonical
import BlockingSync.Proofs.Reading
import BlockingSync.Proofs.Storage
import BlockingSync.Proofs.HighWater
import BlockingSync.Proofs.Reconfiguration
import BlockingSync.Proofs.Ending
import BlockingSync.Proofs.Ledger
import BlockingSync.Proofs.Resumption
import BlockingSync.Proofs.Bound
import BlockingSync.Proofs.Seclusion
import BlockingSync.Proofs.Admission
import BlockingSync.Proofs.Completion
import BlockingSync.Proofs.Dispatch
import BlockingSync.Proofs.Outcome
import BlockingSync.Proofs.Holding
import BlockingSync.Proofs.Arrival
import BlockingSync.Proofs.Pipeline.Account
