import Mathlib.Data.Prod.Lex
import Mathlib.Data.String.Basic
import Fintech.Library.Paging
import Fintech.Model.Payments
import Fintech.Model.Transfers
import Fintech.Model.Wallets

/-!
# Reads

The queries that list or find the rows of one user. `orderBy` is a sort of the rows that the `where`
selects; `cursor` and `skip: 1` start behind the cursor row.
-/

namespace Fintech
open Relational Paging

/-- `ListAuditDto`, `ListPaymentsDto` and `ListDeliveriesDto`, once validated. -/
structure ListQuery where
  limit : Nat := 50
  cursor : Option Uuid := none
  inRange : 1 ≤ limit ∧ limit ≤ 100 := by decide

section
variable {ρ : Type} [Keyed ρ Uuid]

/-- The sort key of `orderBy: [{ createdAt: 'desc' }, { id: 'desc' }]`. -/
def stamp (createdAt : ρ → Time) (r : ρ) : Time ×ₗ String := toLex (createdAt r, (key r).text)

/-- The rows that `findMany` selects, latest first. -/
def findMany (createdAt : ρ → Time) (owned : ρ → Bool) (t : Table ρ) : List ρ :=
  latestFirst (stamp createdAt) (t.rows.filter owned)

/-- `findFirst` by primary key and owner. -/
def findFirst (owned : ρ → Bool) (t : Table ρ) (id : Uuid) : Option ρ := (t.find? id).filter owned

/-- The page that the lists share: the cursor is one of the owner's rows, and `take` is one more than the limit. -/
def listPage (invalidCursor : String) (createdAt : ρ → Time) (owned : ρ → Bool) (t : Table ρ) (query : ListQuery) :
    Except HttpException (Page ρ Uuid) := do
  failIf (∃ c ∈ query.cursor, findFirst owned t c = none) (badRequest invalidCursor)
  return page key (findMany createdAt owned t) query.limit query.cursor

end

namespace WalletsService

def findAllForUser (db : Db) (userId : Uuid) : List WalletResponse :=
  let currencyRank : Currency → Nat
    | .usd => 0
    | .ngn => 1
  let stamp (w : Wallet) : Time ×ₗ Nat := toLex (w.createdAt, currencyRank w.currency)
  (earliestFirst stamp (db.wallets.rows.filter fun w => w.userId = userId)).map toWalletResponse

def findOneForUser (db : Db) (userId walletId : Uuid) : Except HttpException WalletResponse :=
  match findFirst (fun w => w.userId = userId) db.wallets walletId with
  | none => .error (notFound "Wallet not found")
  | some wallet => .ok (toWalletResponse wallet)

end WalletsService

namespace BeneficiariesService

def toBeneficiaryResponse (b : Beneficiary) (wallet : Wallet) : BeneficiaryResponse :=
  ⟨b.id, b.walletId, b.label, wallet.currency, b.createdAt⟩

def findAll (db : Db) (ownerUserId : Uuid) : Except DbError (List BeneficiaryResponse) :=
  let beneficiaries := findMany Beneficiary.createdAt (fun b => b.ownerUserId = ownerUserId ∧ b.deletedAt = none)
    db.beneficiaries
  beneficiaries.mapM fun b => return toBeneficiaryResponse b (← findOrThrow (db.wallets.find? b.walletId))

end BeneficiariesService

namespace TransfersService

def findAllForUser (db : Db) (senderUserId : Uuid) : List TransferResponse :=
  ((findMany Transfer.createdAt (fun t => t.senderUserId = senderUserId) db.transfers).take 100).map toTransferResponse

def findOneForUser (db : Db) (senderUserId transferId : Uuid) : Except HttpException TransferResponse :=
  match findFirst (fun t => t.senderUserId = senderUserId) db.transfers transferId with
  | none => .error (notFound "Transfer not found")
  | some transfer => .ok (toTransferResponse transfer)

end TransfersService

namespace ReversalsService

/-- `transferId` is unique, so `findFirst` finds the only row. -/
def findOneForUser (db : Db) (actorUserId transferId : Uuid) : Except HttpException ReversalResponse :=
  match db.transferReversals.rows.find? fun r => r.transferId = transferId ∧ r.actorUserId = actorUserId with
  | none => .error (notFound "Reversal not found")
  | some reversal => .ok (toReversalResponse reversal)

end ReversalsService

namespace AuditService

structure AuditLogResponse where
  id : Uuid
  action : AuditAction
  transferId : Uuid
  reversalId : Option Uuid
  createdAt : Time
  deriving DecidableEq

def toAuditLogResponse (entry : AuditLog) : AuditLogResponse :=
  ⟨entry.id, entry.action, entry.transferId, entry.reversalId, entry.createdAt⟩

def findAllForUser (db : Db) (actorUserId : Uuid) (query : ListQuery) :
    Except HttpException (Page AuditLogResponse Uuid) := do
  let owned (entry : AuditLog) : Bool := entry.actorUserId = actorUserId
  failIf (∃ c ∈ query.cursor, findFirst owned db.auditLogs c = none)
    (badRequest "Audit cursor is invalid for the authenticated user")
  let entries := (behind key (findMany AuditLog.createdAt owned db.auditLogs) query.cursor).take (query.limit + 1)
  let hasMore : Bool := query.limit < entries.length
  let page := if hasMore then entries.take query.limit else entries
  return { items := page.map toAuditLogResponse, nextCursor := if hasMore then page.getLast?.map AuditLog.id else none }

end AuditService

namespace PaymentsService

structure PaymentResponse where
  id : Uuid
  walletId : Uuid
  provider : PaymentProvider
  reference : String
  amountMinor : String
  currency : Currency
  status : PaymentStatus
  createdAt : Time
  completedAt : Option Time
  deriving DecidableEq

def toPaymentResponse (p : Payment) : PaymentResponse where
  id := p.id
  walletId := p.walletId
  provider := p.provider
  reference := p.reference
  amountMinor := toString p.amountMinor
  currency := p.currency
  status := p.status
  createdAt := p.createdAt
  completedAt := p.completedAt

structure EventResponse where
  id : Uuid
  eventId : String
  provider : PaymentProvider
  status : PaymentStatus
  createdAt : Time
  deriving DecidableEq

def toEventResponse (e : ProviderEvent) : EventResponse := ⟨e.id, e.eventId, e.provider, e.status, e.createdAt⟩

def list (db : Db) (userId : Uuid) (query : ListQuery) : Except HttpException (Page PaymentResponse Uuid) := do
  let page ← listPage "Invalid payment cursor" Payment.createdAt (fun p => p.userId = userId) db.payments query
  return page.map toPaymentResponse

def findOne (db : Db) (userId id : Uuid) : Except HttpException PaymentResponse :=
  match findFirst (fun p => p.userId = userId) db.payments id with
  | none => .error (notFound "Payment not found")
  | some payment => .ok (toPaymentResponse payment)

def events (db : Db) (userId id : Uuid) (query : ListQuery) : Except HttpException (Page EventResponse Uuid) := do
  let _ ← findOne db userId id
  let page ← listPage "Invalid event cursor" ProviderEvent.createdAt (fun e => e.paymentId = id) db.providerEvents query
  return page.map toEventResponse

end PaymentsService

namespace WebhooksService

structure SubscriptionResponse where
  id : Uuid
  url : String
  enabled : Bool
  createdAt : Time
  deriving DecidableEq

def publicSubscription (s : WebhookSubscription) : SubscriptionResponse := ⟨s.id, s.url, s.enabled, s.createdAt⟩

structure AttemptResponse where
  number : Nat
  status : WebhookAttemptStatus
  httpStatus : Option Nat
  errorCode : Option String
  createdAt : Time
  completedAt : Option Time
  deriving DecidableEq

def toAttemptResponse (a : WebhookAttempt) : AttemptResponse :=
  ⟨a.number, a.status, a.httpStatus, a.errorCode, a.createdAt, a.completedAt⟩

structure DeliveryResponse where
  id : Uuid
  outboxEventId : Uuid
  status : WebhookDeliveryStatus
  attemptCount : Nat
  createdAt : Time
  availableAt : Time
  attempts : List AttemptResponse
  deriving DecidableEq

def includedAttempts (db : Db) (deliveryId : Uuid) : List WebhookAttempt :=
  earliestFirst WebhookAttempt.number (db.webhookAttempts.rows.filter fun a => a.deliveryId = deliveryId)

def toDeliveryResponse (db : Db) (d : WebhookDelivery) : DeliveryResponse where
  id := d.id
  outboxEventId := d.outboxEventId
  status := d.status
  attemptCount := d.attemptCount
  createdAt := d.createdAt
  availableAt := d.availableAt
  attempts := (includedAttempts db d.id).map toAttemptResponse

def list (db : Db) (userId : Uuid) : List SubscriptionResponse :=
  (findMany WebhookSubscription.createdAt (fun s => s.userId = userId) db.webhookSubscriptions).map publicSubscription

def deliveries (db : Db) (userId id : Uuid) (query : ListQuery) : Except HttpException (Page DeliveryResponse Uuid) := do
  failIf (findFirst (fun s => s.userId = userId) db.webhookSubscriptions id = none) (notFound "Webhook not found")
  let page ← listPage "Invalid delivery cursor" WebhookDelivery.createdAt (fun d => d.subscriptionId = id)
    db.webhookDeliveries query
  return page.map (toDeliveryResponse db)

end WebhooksService

end Fintech
