import Fintech.Library.Table
import Fintech.Model.Text

/-!
# Tables

The row types of the schema with the columns that the modelled code reads or returns, and the
database as one keyed table for each. Enumerations, defaults and nullability follow
`prisma/schema.prisma`.
-/

namespace Fintech
open Relational

/-- Milliseconds since the epoch (`TIMESTAMPTZ(3)`). -/
abbrev Time := Int

inductive Currency | usd | ngn
  deriving DecidableEq, Repr

inductive WalletStatus | active | frozen | closed
  deriving DecidableEq, Repr

inductive LedgerAccountKind | wallet | system
  deriving DecidableEq, Repr

inductive TransferStatus | pending | completed
  deriving DecidableEq, Repr

inductive IdempotencyStatus | inProgress | completed | failed
  deriving DecidableEq, Repr

inductive AuditAction | transferCreated | transferReversed
  deriving DecidableEq, Repr

inductive OutboxEventType | paymentSucceeded | paymentFailed | transferCompleted | transferReversed
  deriving DecidableEq, Repr

inductive OutboxStatus | pending | processing | published
  deriving DecidableEq, Repr

inductive NotificationType | paymentSucceeded | paymentFailed | transferCompleted | transferReversed
  deriving DecidableEq, Repr

inductive WebhookDeliveryStatus | pending | processing | delivered | failed | cancelled
  deriving DecidableEq, Repr

inductive WebhookAttemptStatus | queued | sending | succeeded | failed | abandoned | cancelled
  deriving DecidableEq, Repr

inductive PaymentProvider | paystack | mock
  deriving DecidableEq, Repr

inductive PaymentStatus | pending | succeeded | failed
  deriving DecidableEq, Repr

def Currency.text : Currency → String
  | .usd => "USD"
  | .ngn => "NGN"

def PaymentProvider.text : PaymentProvider → String
  | .paystack => "PAYSTACK"
  | .mock => "MOCK"

structure User where
  id : Uuid
  email : String
  passwordHash : String
  firstName : String
  lastName : String
  createdAt : Time
  updatedAt : Time
  deriving DecidableEq

structure Wallet where
  id : Uuid
  userId : Uuid
  ledgerAccountId : Uuid
  currency : Currency
  status : WalletStatus := .active
  currentBalanceMinor : Int := 0
  createdAt : Time
  updatedAt : Time
  deriving DecidableEq

structure LedgerAccount where
  id : Uuid
  kind : LedgerAccountKind
  currency : Currency
  allowNegative : Bool := false
  balanceMinor : Int := 0
  systemKey : Option String := none
  deriving DecidableEq

structure LedgerTransaction where
  id : Uuid
  reference : String
  currency : Currency
  description : Option String := none
  createdAt : Time
  sealedAt : Option Time := none
  deriving DecidableEq

structure LedgerPosting where
  id : Uuid
  ledgerTransactionId : Uuid
  accountId : Uuid
  amountMinor : Int
  deriving DecidableEq

structure Beneficiary where
  id : Uuid
  ownerUserId : Uuid
  walletId : Uuid
  label : String
  createdAt : Time
  deletedAt : Option Time := none
  deriving DecidableEq

structure Transfer where
  id : Uuid
  reference : String
  senderUserId : Uuid
  sourceWalletId : Uuid
  destinationWalletId : Uuid
  beneficiaryId : Option Uuid := none
  ledgerTransactionId : Uuid
  currency : Currency
  amountMinor : Int
  status : TransferStatus := .pending
  createdAt : Time
  completedAt : Option Time := none
  deriving DecidableEq

structure TransferReversal where
  id : Uuid
  reference : String
  transferId : Uuid
  actorUserId : Uuid
  ledgerTransactionId : Uuid
  currency : Currency
  amountMinor : Int
  reason : Option String := none
  createdAt : Time
  deriving DecidableEq

structure IdempotencyRecord where
  id : Uuid
  userId : Uuid
  scope : String
  key : String
  requestHash : String
  status : IdempotencyStatus := .inProgress
  responseStatus : Option Nat := none
  errorMessage : Option String := none
  transferId : Option Uuid := none
  reversalId : Option Uuid := none
  createdAt : Time
  deriving DecidableEq

structure AuditLog where
  id : Uuid
  actorUserId : Uuid
  action : AuditAction
  transferId : Uuid
  reversalId : Option Uuid := none
  createdAt : Time
  deriving DecidableEq

/-- A JSON object whose values are strings. -/
abbrev Payload := List (String × String)

structure OutboxEvent where
  id : Uuid
  type : OutboxEventType
  aggregateType : String
  aggregateId : Uuid
  actorUserId : Uuid
  payload : Payload
  status : OutboxStatus := .pending
  attempts : Nat := 0
  availableAt : Time
  lockedAt : Option Time := none
  publishedAt : Option Time := none
  lastError : Option String := none
  createdAt : Time
  deriving DecidableEq

structure Notification where
  id : Uuid
  outboxEventId : Uuid
  userId : Uuid
  type : NotificationType
  subject : String
  body : String
  deriving DecidableEq

structure WebhookSubscription where
  id : Uuid
  userId : Uuid
  url : String
  encryptedSecret : String
  enabled : Bool := true
  createdAt : Time
  deriving DecidableEq

structure WebhookDelivery where
  id : Uuid
  subscriptionId : Uuid
  outboxEventId : Uuid
  status : WebhookDeliveryStatus := .pending
  attemptCount : Nat := 0
  availableAt : Time
  leaseUntil : Option Time := none
  leaseToken : Option Uuid := none
  createdAt : Time
  deriving DecidableEq

structure WebhookAttempt where
  id : Uuid
  deliveryId : Uuid
  number : Nat
  status : WebhookAttemptStatus := .queued
  httpStatus : Option Nat := none
  errorCode : Option String := none
  createdAt : Time
  completedAt : Option Time := none
  deriving DecidableEq

structure Payment where
  id : Uuid
  userId : Uuid
  walletId : Uuid
  provider : PaymentProvider
  reference : String
  idempotencyKey : String
  requestHash : String
  amountMinor : Int
  currency : Currency
  status : PaymentStatus := .pending
  ledgerTransactionId : Option Uuid := none
  createdAt : Time
  completedAt : Option Time := none
  deriving DecidableEq

structure ProviderEvent where
  id : Uuid
  paymentId : Uuid
  provider : PaymentProvider
  eventId : String
  payloadHash : String
  status : PaymentStatus
  createdAt : Time
  deriving DecidableEq

structure PaymentCheckout where
  paymentId : Uuid
  checkoutUrl : Option String := none
  createdAt : Time
  deriving DecidableEq

instance : Keyed User Uuid := ⟨User.id⟩
instance : Keyed Wallet Uuid := ⟨Wallet.id⟩
instance : Keyed LedgerAccount Uuid := ⟨LedgerAccount.id⟩
instance : Keyed LedgerTransaction Uuid := ⟨LedgerTransaction.id⟩
instance : Keyed LedgerPosting Uuid := ⟨LedgerPosting.id⟩
instance : Keyed Beneficiary Uuid := ⟨Beneficiary.id⟩
instance : Keyed Transfer Uuid := ⟨Transfer.id⟩
instance : Keyed TransferReversal Uuid := ⟨TransferReversal.id⟩
instance : Keyed IdempotencyRecord Uuid := ⟨IdempotencyRecord.id⟩
instance : Keyed AuditLog Uuid := ⟨AuditLog.id⟩
instance : Keyed OutboxEvent Uuid := ⟨OutboxEvent.id⟩
instance : Keyed Notification Uuid := ⟨Notification.id⟩
instance : Keyed WebhookSubscription Uuid := ⟨WebhookSubscription.id⟩
instance : Keyed WebhookDelivery Uuid := ⟨WebhookDelivery.id⟩
instance : Keyed WebhookAttempt Uuid := ⟨WebhookAttempt.id⟩
instance : Keyed Payment Uuid := ⟨Payment.id⟩
instance : Keyed ProviderEvent Uuid := ⟨ProviderEvent.id⟩
instance : Keyed PaymentCheckout Uuid := ⟨PaymentCheckout.paymentId⟩

structure Db where
  users : Table User := .empty
  wallets : Table Wallet := .empty
  ledgerAccounts : Table LedgerAccount := .empty
  ledgerTransactions : Table LedgerTransaction := .empty
  ledgerPostings : Table LedgerPosting := .empty
  beneficiaries : Table Beneficiary := .empty
  transfers : Table Transfer := .empty
  transferReversals : Table TransferReversal := .empty
  idempotencyRecords : Table IdempotencyRecord := .empty
  auditLogs : Table AuditLog := .empty
  outboxEvents : Table OutboxEvent := .empty
  notifications : Table Notification := .empty
  webhookSubscriptions : Table WebhookSubscription := .empty
  webhookDeliveries : Table WebhookDelivery := .empty
  webhookAttempts : Table WebhookAttempt := .empty
  payments : Table Payment := .empty
  providerEvents : Table ProviderEvent := .empty
  paymentCheckouts : Table PaymentCheckout := .empty

end Fintech
