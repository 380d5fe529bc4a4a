import Fintech.Model.Payments
import Fintech.Model.Transfers
import Fintech.Model.Wallets

/-!
# The whole system

Every operation that can change the tables of the schema, as a call on the database: the calls that
move money or open and close wallets as the services make them, and everything else as transactions
that write whatever they like to the other tables.
-/

namespace Fintech
open Relational Transactional

inductive Request
  | register (draws : Draws) (input : UsersService.CreateUserInput)
  | createWallet (draws : Draws) (userId : Uuid) (currency : Currency)
  | closeWallet (draws : Draws) (userId : Uuid) (walletId : String)
  | post (draws : Draws) (input : LedgerTransactionInput)
  | createTransfer (draws : Draws) (senderUserId : Uuid) (header : Option String)
      (input : TransfersService.CreateTransferDto)
  | createReversal (draws : Draws) (actorUserId : Uuid) (transferId : String) (header : Option String)
      (input : ReversalsService.CreateReversalDto)
  | createPayment (draws : Draws) (usePaystack : Bool) (userId : Uuid) (header : Option String)
      (input : PaymentsService.CreatePaymentDto)
  | settle (draws : Nat → Draws) (event : VerifiedPaymentEvent) (provider : PaymentProvider)
  | other (isolation : Isolation) (rows : List Row)

def LedgerService.post (draws : Draws) (input : LedgerTransactionInput) : Call :=
  let body := do
    let (t, postings) ← LedgerService.postWithinTransaction draws input
    return .ok (.posted t postings)
  .transaction .serializable (Tx.committing body) fun
    | .committed outcome => .done (unwrapOutcome outcome)
    | .thrown e => .done (failed e)
    | .aborted .uniqueViolation => .done (failed (conflict "Ledger reference already exists"))
    | .aborted d =>
        if isSerializationConflict d then
          .done (failed (conflict "Concurrent ledger update detected; retry the operation"))
        else .done (.error (.database d))

/-! ## The other operations -/

/-- What the outbox worker may change of an event. -/
def OutboxEvent.progress (e₀ e : OutboxEvent) : OutboxEvent :=
  { e₀ with
    status := e.status, attempts := e.attempts, availableAt := e.availableAt, lockedAt := e.lockedAt,
    publishedAt := e.publishedAt, lastError := e.lastError }

/-- What the webhook worker may change of a delivery. -/
def WebhookDelivery.progress (d₀ d : WebhookDelivery) : WebhookDelivery :=
  { d₀ with
    status := d.status, attemptCount := d.attemptCount, availableAt := d.availableAt, leaseUntil := d.leaseUntil,
    leaseToken := d.leaseToken }

/-- The rows that beneficiaries, webhooks, notifications, checkouts and the outbox worker write. Events
are inserted only with the records that they announce, and deliveries only with their event. -/
def isSideRow (old : Option Row) : Row → Bool
  | .beneficiary _ | .notification _ | .webhookAttempt _ | .paymentCheckout _ => true
  | .webhookSubscription s =>
      match old with
      | some (.webhookSubscription s₀) => s == { s₀ with enabled := s.enabled }
      | _ => true
  | .webhookDelivery d =>
      match old with
      | some (.webhookDelivery d₀) => d == d₀.progress d
      | _ => false
  | .outboxEvent e =>
      match old with
      | some (.outboxEvent e₀) => e == e₀.progress e
      | _ => false
  | _ => false

/-- Inserts the row, or updates the one with its primary key. -/
def writeSideRow (r : Row) : Tx Unit :=
  Prog.exec fun db s => do
    let old := db.rows.find? fun r₀ => r₀.pk = r.pk
    failIf (¬ isSideRow old r) .unavailable
    match old with
    | none => return ((), { locals := ← db.insert s r, writes := [r] })
    | some r₀ => return ((), { locals := ← db.update s r₀ r, writes := [r] })

def other (isolation : Isolation) (rows : List Row) : Call :=
  let body := do
    Prog.each writeSideRow rows
    return .ok .done
  .transaction isolation (Tx.committing body) fun
    | .committed outcome => .done (unwrapOutcome outcome)
    | .thrown e => .done (failed e)
    | .aborted d => .done (.error (.database d))

def program (sha256Hex : String → String) : Request → Call
  | .register draws input => AuthService.register draws input
  | .createWallet draws userId currency => WalletsService.create draws userId currency
  | .closeWallet draws userId walletId => WalletsService.close draws userId walletId
  | .post draws input => LedgerService.post draws input
  | .createTransfer draws senderUserId header input =>
      TransfersService.create sha256Hex draws senderUserId header input
  | .createReversal draws actorUserId transferId header input =>
      ReversalsService.create sha256Hex draws actorUserId transferId header input
  | .createPayment draws usePaystack userId header input =>
      PaymentsService.create sha256Hex draws usePaystack userId header input
  | .settle draws event provider => PaymentsService.settleVerified draws event provider 3
  | .other isolation rows => other isolation rows

/-- The calls against one database; a transaction may fail at any moment, for any reason. -/
def system (sha256Hex : String → String) (initial : Db) :
    System Db Settings Row Key DbError HttpException AttemptOutcome Result Request where
  initial := initial
  locals := {}
  program := program sha256Hex
  interrupts _ _ := True

/-! ## The migrated database -/

def clearingAccount (currency : Currency) (id : Uuid) (balanceMinor : Int) : LedgerAccount where
  id := id
  kind := .system
  currency := currency
  allowNegative := true
  balanceMinor := balanceMinor
  systemKey := some (clearingKey currency)

def usdClearing : LedgerAccount :=
  clearingAccount .usd ⟨"00000000-0000-4000-8000-000000000001", by decide +kernel⟩ 0

def ngnClearing : LedgerAccount :=
  clearingAccount .ngn ⟨"00000000-0000-4000-8000-000000000002", by decide +kernel⟩ 0

/-- The migrations leave an empty database two clearing accounts. -/
def migrated : Db := { ledgerAccounts := (Table.empty.put usdClearing).put ngnClearing }

end Fintech
