import Fintech.Library.Serial
import Fintech.Library.DoubleEntry
import Fintech.Proof.Paging
import Fintech.Model.AsyncWorker
import Fintech.Model.WebhookDelivery
import Fintech.Model.Audit
import Fintech.Model.System
import Fintech.Model.Boundary
import Fintech.Proof.Outbox
import Fintech.Proof.WebhookHistory
import Fintech.Proof.Books
import Fintech.Proof.Closing
import Fintech.Proof.Accounted
import Fintech.Proof.LedgerCore
import Fintech.Proof.Locks
import Fintech.Proof.LedgerHistory
import Fintech.Proof.WriteContext
import Fintech.Proof.RecordHistory
import Fintech.Proof.CleanAudit
import Fintech.Proof.MoneyGates
import Fintech.Proof.Fingerprints
import Fintech.Proof.WebhookTransport
import Fintech.Library.TwoRuns
import Fintech.Proof.Isolation
import Fintech.Proof.Refusals
import Fintech.Proof.Consistency
import Fintech.Proof.Range
import Fintech.Proof.LedgerInput
import Fintech.Library.FixedWindow
import Fintech.Library.Queries
import Fintech.Model.AuthRate
import Fintech.Model.Beneficiaries
import Fintech.Proof.AuthRate
import Fintech.Proof.Beneficiaries
import Fintech.Library.Answers
import Fintech.Proof.Execution
import Fintech.Proof.Posted
import Fintech.Proof.Replays
import Fintech.Proof.Reversals
import Fintech.Proof.Amounts
import Fintech.Model.Migrations
import Fintech.Proof.SideRecords
import Fintech.Proof.Settlements
import Fintech.Library.Encoding
import Fintech.Library.Processes
import Fintech.Library.ProcessRuns
import Fintech.Model.Environment
import Fintech.Model.Callbacks
import Fintech.Model.Auth
import Fintech.Model.Api
import Fintech.Proof.Callbacks
import Fintech.Proof.Api
import Fintech.Proof.Authority
import Fintech.Proof.Checkouts
import Fintech.Proof.Modes
import Fintech.Proof.Users
import Fintech.Proof.Sessions
