import Fintech.Model.Idempotency
import Fintech.Model.Ledger

/-!
# Payments

`PaymentsService`: the transaction of `create` that persists the intent, and the settlement of a
verified provider event.
-/

namespace Fintech
open Relational Transactional

/-- `VerifiedPaymentEvent` -/
structure VerifiedPaymentEvent where
  eventId : String
  reference : String
  amountMinor : String
  currency : Currency
  status : PaymentStatus
  terminal : status ≠ .pending
  payloadHash : String

namespace PaymentsService

structure CreatePaymentDto where
  walletId : String
  amountMinor : String
  deriving DecidableEq

/-- The numerals `[1-9][0-9]*` of at most `digits` digits. -/
def isNumeral (digits : Nat) (s : String) : Bool :=
  let isDigit (c : Char) := '0' ≤ c && c ≤ '9'
  match s.toList with
  | [] => false
  | c :: cs => isDigit c && c != '0' && cs.all isDigit && cs.length < digits

def maxSafeInteger : Int := 9007199254740991

/-- `PaystackProvider.validateIntent` -/
def validateIntent (amountMinor : String) (currency : Currency) : Except HttpException Unit :=
  failIf (currency ≠ .ngn ∨ ¬ isNumeral 16 amountMinor ∨ ¬ (bigInt? amountMinor).any (· ≤ maxSafeInteger))
    (badRequest "Paystack requires NGN and a positive safely representable minor-unit amount")

def replay (payment : Payment) (hash : String) : Except HttpException Payment := do
  failIf (payment.requestHash ≠ hash) (conflict "Idempotency-Key was used with a different payment request")
  return payment

def findByKey (userId : Uuid) (key : String) (db : Db) : Option Payment :=
  db.payments.rows.find? fun p => p.userId = userId ∧ p.idempotencyKey = key

def findWallet (walletId : String) (userId : Uuid) (db : Db) : Except DbError (Option Wallet) := do
  return (db.wallets.find? (← castUuid walletId)).filter fun w => w.userId = userId

/-- The pending payment that `create` inserts. -/
def intent (draws : Draws) (usePaystack : Bool) (wallet : Wallet) (userId : Uuid) (key hash : String)
    (amountMinor : Int) : Payment where
  id := draws.id .payment
  userId := userId
  walletId := wallet.id
  provider := if usePaystack then .paystack else .mock
  reference := "payment" ++ (if usePaystack then "-" else ":") ++ draws.reference.text
  idempotencyKey := key
  requestHash := hash
  amountMinor := amountMinor
  currency := wallet.currency
  createdAt := draws.createdAt .payment

def createIntent (draws : Draws) (usePaystack : Bool) (userId : Uuid) (key hash walletId amountMinor : String) :
    Tx Payment := do
  match ← Prog.read (findByKey userId key) with
  | some existing => Prog.lift (replay existing hash)
  | none =>
      let found ← Tx.query (findWallet walletId userId)
      let wallet ← Prog.orThrow (notFound "Wallet not found") found
      Prog.throwIf (wallet.status ≠ .active) (conflict "Wallet must be active")
      Prog.lift (if usePaystack then validateIntent amountMinor wallet.currency else .ok ())
      Tx.setConfig fun s => { s with paymentWrite := true }
      let payment := intent draws usePaystack wallet userId key hash ((bigInt? amountMinor).getD 0)
      Tx.create (.payment payment)
      return payment

/-- What `create` checks before its transaction: the key and the fingerprint. -/
def normalize (sha256Hex : String → String) (header : Option String) (input : CreatePaymentDto) :
    Except HttpException (String × String) := do
  let some key := (header.map jsTrim).filter fun key => isIdempotencyKey key
    | .error (badRequest "A valid Idempotency-Key is required")
  failIf (¬ isNumeral 19 input.amountMinor ∨ ¬ (bigInt? input.amountMinor).any (· ≤ 9223372036854775807))
    (badRequest "amountMinor exceeds the positive BIGINT range")
  return (key, sha256Hex (jsonObject
    [("walletId", some (toLowerCase input.walletId)), ("amountMinor", some input.amountMinor)]))

/-- `create`, up to the payment that is handed to the provider. -/
def create (sha256Hex : String → String) (draws : Draws) (usePaystack : Bool) (userId : Uuid)
    (header : Option String) (input : CreatePaymentDto) : Call :=
  match normalize sha256Hex header input with
  | .error e => .done (failed e)
  | .ok (key, hash) =>
      let body := do
        let payment ← createIntent draws usePaystack userId key hash (toLowerCase input.walletId) input.amountMinor
        return .ok (.payment payment)
      .transaction .readCommitted (Tx.committing body) fun
        | .committed outcome => .done (unwrapOutcome outcome)
        | .thrown e => .done (failed e)
        | .aborted .uniqueViolation => .query fun db =>
            match findByKey userId key db with
            | none => .done (failed (conflict "Concurrent initialization; retry with the same key"))
            | some existing =>
                match replay existing hash with
                | .ok payment => .done (.ok (.payment payment))
                | .error e => .done (failed e)
        | .aborted d => .done (.error (.database d))

/-! ## Settlement -/

def lockPayment (provider : PaymentProvider) (reference : String) : Tx (Option Payment) :=
  Tx.lock (fun db => return db.payments.rows.find? fun p => p.provider = provider ∧ p.reference = reference)
    fun p => (p.map Row.payment).toList

def ledgerInput (payment : Payment) (clearing : LedgerAccount) (wallet : Wallet) : LedgerTransactionInput where
  reference := payment.reference
  currency := payment.currency
  description := some "Verified provider funding"
  postings := [⟨clearing.id.text, -payment.amountMinor⟩, ⟨wallet.ledgerAccountId.text, payment.amountMinor⟩]

/-- The ledger transaction of a credit. -/
def credit (draws : Draws) (payment : Payment) : Tx Uuid := do
  let wallet ← Tx.query fun db => findOrThrow (db.wallets.find? payment.walletId)
  let clearing ← Tx.query fun db =>
    findOrThrow (db.ledgerAccounts.rows.find? fun a => a.systemKey = some (clearingKey payment.currency))
  let (ledger, _) ← LedgerService.postWithinTransaction draws (ledgerInput payment clearing wallet)
  return ledger.id

def settledEvent (draws : Draws) (payment : Payment) (status : PaymentStatus) : OutboxEvent where
  id := draws.id .outboxEvent
  type := if status = .succeeded then .paymentSucceeded else .paymentFailed
  aggregateType := "Payment"
  aggregateId := payment.id
  actorUserId := payment.userId
  payload := [("paymentId", payment.id.text), ("reference", payment.reference), ("provider", payment.provider.text),
    ("walletId", payment.walletId.text), ("amountMinor", toString payment.amountMinor),
    ("currency", payment.currency.text)]
  availableAt := draws.createdAt .outboxEvent
  createdAt := draws.createdAt .outboxEvent

def evidence (draws : Draws) (payment : Payment) (event : VerifiedPaymentEvent) (provider : PaymentProvider) :
    ProviderEvent where
  id := draws.id .providerEvent
  paymentId := payment.id
  provider := provider
  eventId := event.eventId
  payloadHash := event.payloadHash
  status := event.status
  createdAt := draws.createdAt .providerEvent

def settle (draws : Draws) (event : VerifiedPaymentEvent) (provider : PaymentProvider) : Tx AttemptOutcome := do
  let found ← lockPayment provider event.reference
  let payment ← Prog.orThrow (notFound "Unknown provider reference") found
  Prog.throwIf (toString payment.amountMinor ≠ event.amountMinor ∨ payment.currency ≠ event.currency)
    (conflict "Provider amount or currency does not match payment intent")
  match ← Prog.read fun db =>
      db.providerEvents.rows.find? fun e => e.provider = provider ∧ e.eventId = event.eventId with
  | some existing =>
      Prog.throwIf (existing.payloadHash ≠ event.payloadHash ∨ existing.paymentId ≠ payment.id)
        (conflict "Provider event identity was reused")
      return .ok (.received payment.id payment.status)
  | none =>
      Prog.throwIf (payment.status ≠ .pending ∧ payment.status ≠ event.status)
        (conflict "Conflicting terminal provider outcome")
      Tx.setConfig fun s => { s with paymentWrite := true }
      Tx.create (.providerEvent (evidence draws payment event provider))
      if payment.status ≠ .pending then return .ok (.received payment.id payment.status)
      else do
        let ledgerTransactionId ←
          if event.status = .succeeded then some <$> credit draws payment else pure none
        let _ ← Tx.update (·.payments.find? payment.id) .payment fun p =>
          { p with status := event.status, completedAt := some (draws.date .payment), ledgerTransactionId }
        Tx.createMany fun db =>
          .ok (db.eventRows (settledEvent draws payment event.status) draws.delivery (draws.createdAt .webhookDelivery))
        return .ok (.received payment.id event.status)

/-- The loop of `settleVerified`, with the attempts that are left. -/
def settleVerified (draws : Nat → Draws) (event : VerifiedPaymentEvent) (provider : PaymentProvider) : Nat → Call
  | 0 => .done (failed (serviceUnavailable "Concurrent payment settlement; retry callback"))
  | attempts + 1 =>
      .transaction .serializable (Tx.committing (settle (draws attempts) event provider)) fun
        | .committed outcome => .done (unwrapOutcome outcome)
        | .thrown e => .done (failed e)
        | .aborted d =>
            if d = .uniqueViolation ∨ isSerializationConflict d then settleVerified draws event provider attempts
            else .done (.error (.database d))

end PaymentsService

end Fintech
