import Fintech.Model.Rows

/-!
# Constraints and triggers

What the migrations put on each table: CHECK constraints, foreign keys, the triggers before a row
is inserted or updated, and the constraint triggers deferred to commit. A condition on a null
column is neither true nor false, and raises only when true.
-/

namespace Fintech
open Relational Transactional

inductive DbError
  | uniqueViolation
  | serializationFailure
  | recordNotFound
  | foreignKeyViolation
  | checkViolation (constraint : String)
  | raised (message : String)
  | invalidUuid (text : String)
  /-- A text with U+0000. -/
  | characterNotInRepertoire
  | unavailable
  deriving DecidableEq, Repr

/-- An exception that the services throw to their caller. -/
structure HttpException where
  status : Nat
  message : String
  deriving DecidableEq, Repr

def badRequest (message : String) : HttpException := ⟨400, message⟩
def notFound (message : String) : HttpException := ⟨404, message⟩
def conflict (message : String) : HttpException := ⟨409, message⟩
def internalServerError (message : String) : HttpException := ⟨500, message⟩
def serviceUnavailable (message : String) : HttpException := ⟨503, message⟩

/-- What a call can fail with. -/
inductive Failure
  | http (e : HttpException)
  | database (e : DbError)
  deriving DecidableEq, Repr

/-- The `app.*_write` settings of a transaction, and the rows whose constraint triggers are still due. -/
structure Settings where
  ledgerWrite : Bool := false
  transferWrite : Bool := false
  reversalWrite : Bool := false
  auditWrite : Bool := false
  paymentWrite : Bool := false
  deferred : List Row := []

@[simp] theorem bind_eq_ok {ε α β : Type} {x : Except ε α} {f : α → Except ε β} {b : β} :
    (x >>= f) = .ok b ↔ ∃ a, x = .ok a ∧ f a = .ok b := by
  cases x <;> simp [bind, Except.bind]

theorem bind_unit_eq_ok {ε β : Type} {x : Except ε Unit} {f : Unit → Except ε β} {b : β} :
    (x >>= f) = .ok b ↔ x = .ok () ∧ f () = .ok b :=
  bind_eq_ok.trans ⟨fun ⟨_, h⟩ => h, fun h => ⟨(), h⟩⟩

/-- A run known to succeed, with its result. -/
theorem eq_ok_getD {ε α : Type} {x : Except ε α} (h : x.toBool = true) (d : α) :
    x = .ok (x.toOption.getD d) := by
  cases x with
  | error e => cases h
  | ok a => rfl

def failIf {ε : Type} (c : Prop) [Decidable c] (e : ε) : Except ε Unit := if c then .error e else .ok ()

@[simp] theorem failIf_eq_ok {ε : Type} {c : Prop} [Decidable c] {e : ε} {u : Unit} :
    failIf c e = .ok u ↔ ¬ c := by
  unfold failIf
  split <;> simp_all

abbrev raiseIf (c : Prop) [Decidable c] (message : String) : Except DbError Unit := failIf c (.raised message)

def isBigInt (n : Int) : Bool := -9223372036854775808 ≤ n && n ≤ 9223372036854775807

/-! ## CHECK constraints and column types -/

def varchar (n : Nat) (s : String) : String × Bool := ("character varying", s.length ≤ n)

def bigint (n : Int) : String × Bool := ("bigint", isBigInt n)

def isTrimmedText (lo hi : Nat) (s : String) : Bool :=
  lo ≤ (btrim s).length && (btrim s).length ≤ hi && s == btrim s

def IdempotencyRecord.terminalState (r : IdempotencyRecord) : Bool :=
  let within (lo hi : Nat) := r.responseStatus.any fun n => lo ≤ n && n ≤ hi
  match r.status with
  | .inProgress =>
      r.transferId.isNone && r.reversalId.isNone && r.responseStatus.isNone && r.errorMessage.isNone
  | .completed => (r.transferId.isSome != r.reversalId.isSome) && within 200 299 && r.errorMessage.isNone
  | .failed => r.transferId.isNone && r.reversalId.isNone && within 400 499 && r.errorMessage.isSome

def OutboxEvent.stateCheck (r : OutboxEvent) : Bool :=
  match r.status with
  | .pending => r.lockedAt.isNone && r.publishedAt.isNone
  | .processing => r.lockedAt.isSome && r.publishedAt.isNone
  | .published => r.lockedAt.isNone && r.publishedAt.isSome

def WebhookDelivery.leaseCheck (r : WebhookDelivery) : Bool :=
  if r.status = .processing then r.leaseToken.isSome && r.leaseUntil.isSome
  else r.leaseToken.isNone && r.leaseUntil.isNone

def Payment.stateCheck (r : Payment) : Bool :=
  match r.status with
  | .pending => r.ledgerTransactionId.isNone && r.completedAt.isNone
  | .succeeded => r.ledgerTransactionId.isSome && r.completedAt.isSome
  | .failed => r.ledgerTransactionId.isNone && r.completedAt.isSome

def isCheckoutUrl (s : String) : Bool :=
  let site := "https://checkout.paystack.com/".toList
  let slug := s.toList.drop site.length
  site.isPrefixOf s.toList && !slug.isEmpty && slug.all fun c =>
    ('A' ≤ c && c ≤ 'Z') || ('a' ≤ c && c ≤ 'z') || ('0' ≤ c && c ≤ '9') || c == '_' || c == '-'

def Row.checks : Row → List (String × Bool)
  | .user r => [varchar 320 r.email, varchar 255 r.passwordHash, varchar 80 r.firstName, varchar 80 r.lastName,
      ("User_email_canonical_check", r.email == lower (btrim r.email))]
  | .wallet r => [bigint r.currentBalanceMinor,
      ("Wallet_nonnegative_balance_check", 0 ≤ r.currentBalanceMinor)]
  | .ledgerAccount r => [bigint r.balanceMinor,
      ("LedgerAccount_balance_policy_check", r.allowNegative || 0 ≤ r.balanceMinor),
      ("LedgerAccount_kind_policy_check", (r.kind == .system && r.systemKey.isSome) ||
        (r.kind == .wallet && r.systemKey.isNone && !r.allowNegative))]
  | .ledgerTransaction r => [varchar 120 r.reference, varchar 255 (r.description.getD ""),
      ("LedgerTransaction_reference_canonical_check",
        0 < (btrim r.reference).length && r.reference == btrim r.reference),
      ("LedgerTransaction_sealed_time_check", r.sealedAt.all (r.createdAt ≤ ·))]
  | .ledgerPosting r => [bigint r.amountMinor, ("LedgerPosting_nonzero_amount_check", r.amountMinor != 0)]
  | .beneficiary r => [varchar 80 r.label, ("Beneficiary_label_check", isTrimmedText 1 80 r.label)]
  | .transfer r => [varchar 120 r.reference, bigint r.amountMinor,
      ("Transfer_positive_amount_check", 0 < r.amountMinor),
      ("Transfer_distinct_wallets_check", r.sourceWalletId != r.destinationWalletId),
      ("Transfer_completion_check", (r.status == .completed) == r.completedAt.isSome)]
  | .transferReversal r => [varchar 120 r.reference, bigint r.amountMinor, varchar 255 (r.reason.getD ""),
      ("TransferReversal_positive_amount_check", 0 < r.amountMinor),
      ("TransferReversal_reason_check", r.reason.all (isTrimmedText 1 255))]
  | .idempotencyRecord r => [varchar 64 r.scope, varchar 128 r.key, varchar 255 (r.errorMessage.getD ""),
      ("IdempotencyRecord_scope_check", isTrimmedText 1 64 r.scope),
      ("IdempotencyRecord_key_check", isTrimmedText 1 128 r.key),
      ("IdempotencyRecord_hash_check", isSha256Hex r.requestHash),
      ("IdempotencyRecord_terminal_state_check", r.terminalState)]
  | .auditLog r => [("AuditLog_action_shape_check", (r.action == .transferReversed) == r.reversalId.isSome)]
  | .outboxEvent r => [varchar 64 r.aggregateType, varchar 500 (r.lastError.getD ""),
      ("OutboxEvent_state_check", r.stateCheck)]
  | .notification r => [varchar 160 r.subject, varchar 500 r.body]
  | .webhookSubscription r => [varchar 2048 r.url]
  | .webhookDelivery r => [("WebhookDelivery_attemptCount_check", r.attemptCount ≤ 5),
      ("WebhookDelivery_lease_check", r.leaseCheck)]
  | .webhookAttempt r => [varchar 64 (r.errorCode.getD ""),
      ("WebhookAttempt_number_check", 1 ≤ r.number && r.number ≤ 5)]
  | .payment r => [varchar 120 r.reference, bigint r.amountMinor, ("Payment_amount_check", 0 < r.amountMinor),
      ("Payment_requestHash_check", isSha256Hex r.requestHash),
      ("Payment_key_check", isIdempotencyKey r.idempotencyKey), ("Payment_state_check", r.stateCheck)]
  | .providerEvent r => [varchar 128 r.eventId, ("ProviderEvent_hash_check", isSha256Hex r.payloadHash),
      ("ProviderEvent_terminal_check", r.status != .pending)]
  | .paymentCheckout r => [varchar 512 (r.checkoutUrl.getD ""),
      ("PaymentCheckout_url_check", r.checkoutUrl.all isCheckoutUrl)]

def Row.check (r : Row) : Except DbError Unit :=
  match r.checks.find? (fun c => !c.2) with
  | some c => .error (.checkViolation c.1)
  | none => .ok ()

theorem Row.check_eq_ok {r : Row} {u : Unit} : r.check = .ok u ↔ ∀ c ∈ r.checks, c.2 = true := by
  unfold check
  split
  · rename_i c h
    have := List.find?_some h
    simp only [reduceCtorEq, false_iff]
    intro all
    simp [all c (List.mem_of_find?_eq_some h)] at this
  · rename_i h
    simpa using h

/-- The texts of a row. -/
def Row.texts : Row → List String
  | .user r => [r.email, r.passwordHash, r.firstName, r.lastName]
  | .wallet _ | .ledgerPosting _ | .auditLog _ | .webhookDelivery _ => []
  | .ledgerAccount r => r.systemKey.toList
  | .ledgerTransaction r => r.reference :: r.description.toList
  | .beneficiary r => [r.label]
  | .transfer r => [r.reference]
  | .transferReversal r => r.reference :: r.reason.toList
  | .idempotencyRecord r => [r.scope, r.key, r.requestHash] ++ r.errorMessage.toList
  | .outboxEvent r => r.aggregateType :: r.lastError.toList
  | .notification r => [r.subject, r.body]
  | .webhookSubscription r => [r.url, r.encryptedSecret]
  | .webhookAttempt r => r.errorCode.toList
  | .payment r => [r.reference, r.idempotencyKey, r.requestHash]
  | .providerEvent r => [r.eventId, r.payloadHash]
  | .paymentCheckout r => r.checkoutUrl.toList

/-- What a table takes: texts that can be stored, and then what its columns and CHECKs say. -/
def Row.accept (r : Row) : Except DbError Unit := do
  failIf (¬ r.texts.all isText) .characterNotInRepertoire
  r.check

theorem Row.accept_eq_ok {r : Row} {u : Unit} :
    r.accept = .ok u ↔ (∀ s ∈ r.texts, isText s = true) ∧ ∀ c ∈ r.checks, c.2 = true := by
  simp [accept, bind_unit_eq_ok, check_eq_ok, -bind_eq_ok]

/-! ## Foreign keys -/

def Row.references : Row → List Key
  | .user _ | .ledgerAccount _ | .ledgerTransaction _ => []
  | .wallet r => [.row .user r.userId, .row .ledgerAccount r.ledgerAccountId]
  | .ledgerPosting r => [.row .ledgerTransaction r.ledgerTransactionId, .row .ledgerAccount r.accountId]
  | .beneficiary r => [.row .user r.ownerUserId, .row .wallet r.walletId]
  | .transfer r =>
      [.row .user r.senderUserId, .row .wallet r.sourceWalletId, .row .wallet r.destinationWalletId,
        .row .ledgerTransaction r.ledgerTransactionId] ++ (r.beneficiaryId.map (Key.row .beneficiary)).toList
  | .transferReversal r =>
      [.row .transfer r.transferId, .row .user r.actorUserId, .row .ledgerTransaction r.ledgerTransactionId]
  | .idempotencyRecord r =>
      .row .user r.userId :: (r.transferId.map (Key.row .transfer)).toList ++
        (r.reversalId.map (Key.row .transferReversal)).toList
  | .auditLog r =>
      [.row .user r.actorUserId, .row .transfer r.transferId] ++
        (r.reversalId.map (Key.row .transferReversal)).toList
  | .outboxEvent r => [.row .user r.actorUserId]
  | .notification r => [.row .outboxEvent r.outboxEventId, .row .user r.userId]
  | .webhookSubscription r => [.row .user r.userId]
  | .webhookDelivery r => [.row .webhookSubscription r.subscriptionId, .row .outboxEvent r.outboxEventId]
  | .webhookAttempt r => [.row .webhookDelivery r.deliveryId]
  | .payment r =>
      [.row .user r.userId, .row .wallet r.walletId] ++
        (r.ledgerTransactionId.map (Key.row .ledgerTransaction)).toList
  | .providerEvent r => [.row .payment r.paymentId]
  | .paymentCheckout r => [.row .payment r.paymentId]

/-! ## Triggers before an insert or an update -/

def clearingKey (currency : Currency) : String := "external-clearing:" ++ currency.text

/-- The trigger on `INSERT`. -/
def validateWalletLedgerAccount (db : Db) (new : Wallet) : Except DbError Unit := do
  let account := db.ledgerAccounts.find? new.ledgerAccountId
  raiseIf (¬ account.any (fun a => a.kind = .wallet ∧ a.currency = new.currency))
    "wallet ledger account must exist, be WALLET kind, and match currency"
  raiseIf (account.any fun a => new.currentBalanceMinor ≠ a.balanceMinor)
    "new wallet balance must match its ledger account balance"

def protectLedgerTransaction (s : Settings) (old : Option LedgerTransaction) (new : LedgerTransaction) :
    Except DbError Unit := do
  raiseIf (¬ s.ledgerWrite) "ledger transactions may only change through the ledger write path"
  match old with
  | none => raiseIf new.sealedAt.isSome "ledger transactions must be created unsealed"
  | some old =>
      raiseIf (¬ (old.sealedAt.isNone ∧ new.sealedAt.isSome ∧ new = { old with sealedAt := new.sealedAt }))
        "sealed ledger transactions are immutable"

def protectLedgerPosting (db : Db) (s : Settings) (new : LedgerPosting) : Except DbError Unit := do
  raiseIf (¬ s.ledgerWrite) "ledger postings may only be created through the ledger write path"
  raiseIf ((db.ledgerTransactions.find? new.ledgerTransactionId).any fun t => t.sealedAt.isSome)
    "cannot add postings to a sealed ledger transaction"

/-- The triggers `BEFORE INSERT`. -/
def beforeInsert (db : Db) (s : Settings) : Row → Except DbError Unit
  | .ledgerAccount new => raiseIf (new.balanceMinor ≠ 0) "new ledger accounts must start with a zero balance"
  | .wallet new => validateWalletLedgerAccount db new
  | .ledgerTransaction new => protectLedgerTransaction s none new
  | .ledgerPosting new => protectLedgerPosting db s new
  | .transfer _ => raiseIf (¬ s.transferWrite) "transfers may only change through the transfer write path"
  | .transferReversal _ =>
      raiseIf (¬ s.reversalWrite) "transfer reversals may only be created through the reversal write path"
  | .idempotencyRecord new =>
      raiseIf (new.status ≠ .inProgress ∨ new.responseStatus.isSome ∨ new.errorMessage.isSome ∨
        new.transferId.isSome ∨ new.reversalId.isSome) "new idempotency records must begin in progress"
  | .auditLog _ => raiseIf (¬ s.auditWrite) "audit records may only be created through the audit write path"
  | .payment new => do
      raiseIf (¬ s.paymentWrite) "payments require the payment write path"
      raiseIf (new.status ≠ .pending) "payments must begin pending"
  | .providerEvent _ =>
      raiseIf (¬ s.paymentWrite) "provider events require the verified payment write path"
  | .paymentCheckout new =>
      raiseIf (new.checkoutUrl.isSome ∨
          ¬ (db.payments.find? new.paymentId).any fun p => p.provider = .paystack)
        "Checkout must start as an empty Paystack claim"
  | _ => .ok ()

def protectLedgerAccountIdentity (s : Settings) (old new : LedgerAccount) : Except DbError Unit := do
  raiseIf (new ≠ { old with balanceMinor := new.balanceMinor }) "ledger account identity fields are immutable"
  raiseIf (new.balanceMinor ≠ old.balanceMinor ∧ ¬ s.ledgerWrite)
    "ledger account balances may only change through the ledger write path"

def protectWallet (s : Settings) (old new : Wallet) : Except DbError Unit := do
  raiseIf (new.currentBalanceMinor ≠ old.currentBalanceMinor ∧ ¬ s.ledgerWrite)
    "wallet balances may only change through the ledger write path"
  raiseIf (new.userId ≠ old.userId ∨ new.ledgerAccountId ≠ old.ledgerAccountId ∨ new.currency ≠ old.currency)
    "wallet owner, currency, and ledger account are immutable"

def protectTransfer (s : Settings) (old : Transfer) : Except DbError Unit := do
  raiseIf (¬ s.transferWrite) "transfers may only change through the transfer write path"
  raiseIf (old.status = .completed) "completed transfers are immutable"

def protectIdempotencyRecord (old new : IdempotencyRecord) : Except DbError Unit := do
  raiseIf (old.status = .completed ∨ old.status = .failed) "terminal idempotency records are immutable"
  raiseIf (new ≠ { old with
      status := new.status, responseStatus := new.responseStatus, errorMessage := new.errorMessage,
      transferId := new.transferId, reversalId := new.reversalId })
    "idempotency request identity is immutable"
  raiseIf (¬ (new.status = .completed ∨ new.status = .failed))
    "idempotency records may only transition from in progress to a terminal state"

def protectPayment (s : Settings) (old new : Payment) : Except DbError Unit := do
  raiseIf (¬ s.paymentWrite) "payments require the payment write path"
  raiseIf (old.status ≠ .pending ∨ new.status = .pending)
    "only pending payments may transition to a terminal state"
  raiseIf (new ≠ { old with
      status := new.status, ledgerTransactionId := new.ledgerTransactionId, completedAt := new.completedAt })
    "payment request identity is immutable"

/-- The triggers `BEFORE UPDATE`. -/
def beforeUpdate (s : Settings) : Row → Row → Except DbError Unit
  | .ledgerAccount old, .ledgerAccount new => protectLedgerAccountIdentity s old new
  | .wallet old, .wallet new => protectWallet s old new
  | .ledgerTransaction old, .ledgerTransaction new => protectLedgerTransaction s (some old) new
  | .ledgerPosting _, _ => .error (.raised "ledger postings are immutable")
  | .transfer old, .transfer _ => protectTransfer s old
  | .transferReversal _, _ => .error (.raised "transfer reversals are immutable")
  | .idempotencyRecord old, .idempotencyRecord new => protectIdempotencyRecord old new
  | .auditLog _, _ => .error (.raised "audit records are immutable")
  | .payment old, .payment new => protectPayment s old new
  | .providerEvent _, _ => .error (.raised "provider event history is immutable")
  | .paymentCheckout old, .paymentCheckout new =>
      raiseIf (new ≠ { old with checkoutUrl := new.checkoutUrl } ∨ old.checkoutUrl.isSome ∨ new.checkoutUrl.isNone)
        "Checkout claims may only acquire their URL once"
  | _, _ => .ok ()

/-! ## Constraint triggers deferred to commit -/

def Db.postingsOf (db : Db) (ledgerTransactionId : Uuid) : List LedgerPosting :=
  db.ledgerPostings.rows.filter fun p => p.ledgerTransactionId = ledgerTransactionId

/-- How many postings of the transaction move `amountMinor` on the account, if there is one. -/
def Db.postingCount (db : Db) (ledgerTransactionId : Uuid) (accountId : Option Uuid) (amountMinor : Int) : Nat :=
  (db.postingsOf ledgerTransactionId).countP fun p => some p.accountId = accountId ∧ p.amountMinor = amountMinor

def Db.accountOf (db : Db) (walletId : Uuid) : Option Uuid :=
  (db.wallets.find? walletId).map Wallet.ledgerAccountId

def validateLedgerAccountPairAtCommit (db : Db) (new : LedgerAccount) : Except DbError Unit := do
  let linked := db.wallets.rows.countP fun w => w.ledgerAccountId = new.id
  raiseIf (new.kind = .wallet ∧ linked ≠ 1)
    "wallet ledger account must be linked to exactly one product wallet"
  raiseIf (new.kind = .system ∧ linked ≠ 0) "system ledger accounts cannot be linked to product wallets"

def validateLedgerTransactionAtCommit (db : Db) (new : LedgerTransaction) : Except DbError Unit := do
  let current := db.ledgerTransactions.find? new.id
  let postings := (db.postingsOf new.id).filter fun p => (db.ledgerAccounts.find? p.accountId).isSome
  let mismatches := postings.countP fun p =>
    (db.ledgerAccounts.find? p.accountId).any fun a => current.any fun t => a.currency ≠ t.currency
  raiseIf (current.bind LedgerTransaction.sealedAt).isNone "ledger transaction must be sealed before commit"
  raiseIf (postings.length < 2) "ledger transaction requires at least two postings"
  raiseIf ((postings.map LedgerPosting.amountMinor).sum ≠ 0) "ledger transaction postings must sum to zero"
  raiseIf (mismatches ≠ 0) "ledger transaction and posting accounts must share one currency"

/-- The ledger transaction is sealed and carries this currency and reference. -/
def Db.hasSealed (db : Db) (id : Uuid) (currency : Currency) (reference : String) : Bool :=
  (db.ledgerTransactions.find? id).any fun t =>
    t.sealedAt.isSome && t.currency == currency && t.reference == reference

def validateTransferIntegrity (db : Db) (new : Transfer) : Except DbError Unit := do
  if new.status ≠ .completed then return
  let source := db.wallets.find? new.sourceWalletId
  let destination := db.wallets.find? new.destinationWalletId
  raiseIf (¬ source.any fun w => w.userId = new.senderUserId) "transfer source wallet must belong to the sender"
  raiseIf (source.any (fun w => w.currency ≠ new.currency) ∨ destination.any (fun w => w.currency ≠ new.currency))
    "transfer wallets must match the transfer currency"
  raiseIf (new.beneficiaryId.any fun id => ¬ (db.beneficiaries.find? id).any fun b =>
      b.ownerUserId = new.senderUserId ∧ b.walletId = new.destinationWalletId)
    "transfer beneficiary must belong to the sender and target the destination wallet"
  raiseIf (¬ db.hasSealed new.ledgerTransactionId new.currency new.reference)
    "transfer must reference a matching sealed ledger transaction"
  raiseIf ((db.postingsOf new.ledgerTransactionId).length ≠ 2 ∨
      db.postingCount new.ledgerTransactionId (db.accountOf new.sourceWalletId) (-new.amountMinor) ≠ 1 ∨
      db.postingCount new.ledgerTransactionId (db.accountOf new.destinationWalletId) new.amountMinor ≠ 1)
    "transfer ledger transaction must contain exactly the matching debit and credit"

/-- The transfer joined with the ledger accounts of its two wallets. -/
def Db.transferAccounts (db : Db) (transferId : Uuid) : Option (Transfer × Uuid × Uuid) := do
  let transfer ← db.transfers.find? transferId
  let source ← db.accountOf transfer.sourceWalletId
  let destination ← db.accountOf transfer.destinationWalletId
  return (transfer, source, destination)

def validateTransferReversalIntegrity (db : Db) (new : TransferReversal) : Except DbError Unit := do
  let joined := db.transferAccounts new.transferId
  let audits := db.auditLogs.rows.countP fun a => a.reversalId = some new.id ∧
    a.transferId = new.transferId ∧ a.actorUserId = new.actorUserId ∧ a.action = .transferReversed
  raiseIf (¬ joined.any fun j => j.1.senderUserId = new.actorUserId)
    "only the original transfer sender may own a reversal"
  raiseIf (joined.any fun j => j.1.status ≠ .completed ∨ j.1.currency ≠ new.currency ∨
      j.1.amountMinor ≠ new.amountMinor) "reversal must exactly match a completed original transfer"
  raiseIf (¬ db.hasSealed new.ledgerTransactionId new.currency new.reference)
    "reversal must reference a matching sealed ledger transaction"
  raiseIf ((db.postingsOf new.ledgerTransactionId).length ≠ 2 ∨
      db.postingCount new.ledgerTransactionId (joined.map (·.2.1)) new.amountMinor ≠ 1 ∨
      db.postingCount new.ledgerTransactionId (joined.map (·.2.2)) (-new.amountMinor) ≠ 1)
    "reversal ledger transaction must exactly compensate the original transfer"
  raiseIf (audits ≠ 1) "reversal must create exactly one matching audit event"

def validateIdempotencyIntegrity (db : Db) (new : IdempotencyRecord) : Except DbError Unit := do
  if new.status ≠ .completed then return
  match new.transferId with
  | some id =>
      raiseIf (new.scope ≠ "internal-transfer") "transfer idempotency record has the wrong scope"
      raiseIf (¬ (db.transfers.find? id).any fun t => t.senderUserId = new.userId)
        "completed idempotency record must reference a resource owned by the same user"
  | none =>
      raiseIf (new.scope ≠ "transfer-reversal") "reversal idempotency record has the wrong scope"
      raiseIf (¬ (new.reversalId.bind db.transferReversals.find?).any fun r => r.actorUserId = new.userId)
        "completed idempotency record must reference a resource owned by the same user"

def validateAuditLogIntegrity (db : Db) (new : AuditLog) : Except DbError Unit := do
  raiseIf (¬ (db.transfers.find? new.transferId).any fun t => t.senderUserId = new.actorUserId)
    "audit actor must own the transfer event"
  raiseIf (new.action = .transferReversed ∧ ¬ (new.reversalId.bind db.transferReversals.find?).any fun r =>
      r.transferId = new.transferId ∧ r.actorUserId = new.actorUserId)
    "reversal audit event must reference the matching reversal"

def validatePaymentIntegrity (db : Db) (new : Payment) : Except DbError Unit := do
  let some payment := db.payments.find? new.id
    | .error (.raised "payment must target an owned wallet with matching currency")
  let wallet := db.wallets.find? payment.walletId
  let clearing := db.ledgerAccounts.rows.find? fun a => a.systemKey = some (clearingKey payment.currency)
  raiseIf (¬ wallet.any fun w => w.userId = payment.userId ∧ w.currency = payment.currency)
    "payment must target an owned wallet with matching currency"
  if payment.status = .pending then return
  raiseIf (¬ db.providerEvents.rows.any fun e => e.paymentId = payment.id ∧ e.provider = payment.provider ∧
      e.status = payment.status) "settled payment requires matching provider evidence"
  raiseIf (¬ db.outboxEvents.rows.any fun e => e.aggregateId = payment.id ∧ e.aggregateType = "Payment" ∧
      e.actorUserId = payment.userId ∧
      e.type = if payment.status = .succeeded then .paymentSucceeded else .paymentFailed)
    "settled payment requires its matching outbox event"
  if payment.status = .failed then return
  raiseIf (¬ payment.ledgerTransactionId.any fun id => db.hasSealed id payment.currency payment.reference)
    "successful payment requires a matching sealed ledger transaction"
  raiseIf (payment.ledgerTransactionId.any fun id => (db.postingsOf id).length ≠ 2 ∨
      db.postingCount id (wallet.map Wallet.ledgerAccountId) payment.amountMinor ≠ 1 ∨
      db.postingCount id (clearing.map LedgerAccount.id) (-payment.amountMinor) ≠ 1)
    "payment requires exactly matching clearing debit and wallet credit"

def validateProviderEventIntegrity (db : Db) (new : ProviderEvent) : Except DbError Unit :=
  raiseIf (¬ (db.payments.find? new.paymentId).any fun p => p.provider = new.provider ∧ p.status = new.status)
    "provider evidence must match its settled payment"

/-- The constraint trigger due for a row that was inserted or updated. -/
def atCommit (db : Db) : Row → Except DbError Unit
  | .ledgerAccount new => validateLedgerAccountPairAtCommit db new
  | .ledgerTransaction new => validateLedgerTransactionAtCommit db new
  | .transfer new => validateTransferIntegrity db new
  | .transferReversal new => validateTransferReversalIntegrity db new
  | .idempotencyRecord new => validateIdempotencyIntegrity db new
  | .auditLog new => validateAuditLogIntegrity db new
  | .payment new => validatePaymentIntegrity db new
  | .providerEvent new => validateProviderEventIntegrity db new
  | _ => .ok ()

/-- The ledger account pair is only validated for inserts. -/
def deferredOnUpdate : Row → List Row
  | .ledgerAccount _ => []
  | new => [new]

end Fintech
