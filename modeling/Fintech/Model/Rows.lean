import Fintech.Library.Program
import Fintech.Model.Schema

/-!
# Rows and unique keys

A row of any table, the keys it occupies (its primary key and its entries in the unique indexes),
and the database as a store of such rows.
-/

namespace Fintech
open Relational Transactional

inductive TableName
  | user | wallet | ledgerAccount | ledgerTransaction | ledgerPosting | beneficiary | transfer
  | transferReversal | idempotencyRecord | auditLog | outboxEvent | notification
  | webhookSubscription | webhookDelivery | webhookAttempt | payment | providerEvent | paymentCheckout
  deriving DecidableEq, Repr

/-- A primary key, or an entry of a unique index. -/
inductive Key
  | row (table : TableName) (id : Uuid)
  | userEmail (email : String)
  | walletCurrency (userId : Uuid) (currency : Currency)
  | walletAccount (ledgerAccountId : Uuid)
  | accountSystemKey (systemKey : String)
  | ledgerReference (reference : String)
  | postingAccount (ledgerTransactionId accountId : Uuid)
  | beneficiaryWallet (ownerUserId walletId : Uuid)
  | transferReference (reference : String)
  | transferLedger (ledgerTransactionId : Uuid)
  | reversalReference (reference : String)
  | reversalTransfer (transferId : Uuid)
  | reversalLedger (ledgerTransactionId : Uuid)
  | idempotencyKey (userId : Uuid) (scope key : String)
  | idempotencyTransfer (transferId : Uuid)
  | idempotencyReversal (reversalId : Uuid)
  | auditReversal (reversalId : Uuid)
  | auditTransfer (action : AuditAction) (transferId : Uuid)
  | outboxAggregate (type : OutboxEventType) (aggregateId : Uuid)
  | notificationEvent (outboxEventId : Uuid)
  | deliveryEvent (subscriptionId outboxEventId : Uuid)
  | attemptNumber (deliveryId : Uuid) (number : Nat)
  | paymentReference (reference : String)
  | paymentLedger (ledgerTransactionId : Uuid)
  | paymentKey (userId : Uuid) (idempotencyKey : String)
  | providerEventId (provider : PaymentProvider) (eventId : String)
  deriving DecidableEq

inductive Row
  | user (r : User)
  | wallet (r : Wallet)
  | ledgerAccount (r : LedgerAccount)
  | ledgerTransaction (r : LedgerTransaction)
  | ledgerPosting (r : LedgerPosting)
  | beneficiary (r : Beneficiary)
  | transfer (r : Transfer)
  | transferReversal (r : TransferReversal)
  | idempotencyRecord (r : IdempotencyRecord)
  | auditLog (r : AuditLog)
  | outboxEvent (r : OutboxEvent)
  | notification (r : Notification)
  | webhookSubscription (r : WebhookSubscription)
  | webhookDelivery (r : WebhookDelivery)
  | webhookAttempt (r : WebhookAttempt)
  | payment (r : Payment)
  | providerEvent (r : ProviderEvent)
  | paymentCheckout (r : PaymentCheckout)
  deriving DecidableEq

namespace Row

def pk : Row → Key
  | .user r => .row .user r.id
  | .wallet r => .row .wallet r.id
  | .ledgerAccount r => .row .ledgerAccount r.id
  | .ledgerTransaction r => .row .ledgerTransaction r.id
  | .ledgerPosting r => .row .ledgerPosting r.id
  | .beneficiary r => .row .beneficiary r.id
  | .transfer r => .row .transfer r.id
  | .transferReversal r => .row .transferReversal r.id
  | .idempotencyRecord r => .row .idempotencyRecord r.id
  | .auditLog r => .row .auditLog r.id
  | .outboxEvent r => .row .outboxEvent r.id
  | .notification r => .row .notification r.id
  | .webhookSubscription r => .row .webhookSubscription r.id
  | .webhookDelivery r => .row .webhookDelivery r.id
  | .webhookAttempt r => .row .webhookAttempt r.id
  | .payment r => .row .payment r.id
  | .providerEvent r => .row .providerEvent r.id
  | .paymentCheckout r => .row .paymentCheckout r.paymentId

def table : Row → TableName
  | .user _ => .user
  | .wallet _ => .wallet
  | .ledgerAccount _ => .ledgerAccount
  | .ledgerTransaction _ => .ledgerTransaction
  | .ledgerPosting _ => .ledgerPosting
  | .beneficiary _ => .beneficiary
  | .transfer _ => .transfer
  | .transferReversal _ => .transferReversal
  | .idempotencyRecord _ => .idempotencyRecord
  | .auditLog _ => .auditLog
  | .outboxEvent _ => .outboxEvent
  | .notification _ => .notification
  | .webhookSubscription _ => .webhookSubscription
  | .webhookDelivery _ => .webhookDelivery
  | .webhookAttempt _ => .webhookAttempt
  | .payment _ => .payment
  | .providerEvent _ => .providerEvent
  | .paymentCheckout _ => .paymentCheckout

/-- The entries of a row in the unique indexes; null columns have none. -/
def slots : Row → List Key
  | .user r => [.userEmail r.email]
  | .wallet r => [.walletCurrency r.userId r.currency, .walletAccount r.ledgerAccountId]
  | .ledgerAccount r => (r.systemKey.map Key.accountSystemKey).toList
  | .ledgerTransaction r => [.ledgerReference r.reference]
  | .ledgerPosting r => [.postingAccount r.ledgerTransactionId r.accountId]
  | .beneficiary r => [.beneficiaryWallet r.ownerUserId r.walletId]
  | .transfer r => [.transferReference r.reference, .transferLedger r.ledgerTransactionId]
  | .transferReversal r =>
      [.reversalReference r.reference, .reversalTransfer r.transferId, .reversalLedger r.ledgerTransactionId]
  | .idempotencyRecord r =>
      .idempotencyKey r.userId r.scope r.key :: (r.transferId.map Key.idempotencyTransfer).toList ++
        (r.reversalId.map Key.idempotencyReversal).toList
  | .auditLog r => .auditTransfer r.action r.transferId :: (r.reversalId.map Key.auditReversal).toList
  | .outboxEvent r => [.outboxAggregate r.type r.aggregateId]
  | .notification r => [.notificationEvent r.outboxEventId]
  | .webhookSubscription _ => []
  | .webhookDelivery r => [.deliveryEvent r.subscriptionId r.outboxEventId]
  | .webhookAttempt r => [.attemptNumber r.deliveryId r.number]
  | .payment r =>
      .paymentReference r.reference :: .paymentKey r.userId r.idempotencyKey ::
        (r.ledgerTransactionId.map Key.paymentLedger).toList
  | .providerEvent r => [.providerEventId r.provider r.eventId]
  | .paymentCheckout _ => []

def keys (r : Row) : List Key := r.pk :: r.slots

theorem mem_keys {r : Row} {k : Key} : k ∈ r.keys ↔ k = r.pk ∨ k ∈ r.slots := List.mem_cons

@[simp] theorem pk_mem_keys (r : Row) : r.pk ∈ r.keys := List.mem_cons_self

end Row

namespace Db

/-- Inserts a row, or replaces the one with its primary key. -/
def put (db : Db) : Row → Db
  | .user r => { db with users := db.users.put r }
  | .wallet r => { db with wallets := db.wallets.put r }
  | .ledgerAccount r => { db with ledgerAccounts := db.ledgerAccounts.put r }
  | .ledgerTransaction r => { db with ledgerTransactions := db.ledgerTransactions.put r }
  | .ledgerPosting r => { db with ledgerPostings := db.ledgerPostings.put r }
  | .beneficiary r => { db with beneficiaries := db.beneficiaries.put r }
  | .transfer r => { db with transfers := db.transfers.put r }
  | .transferReversal r => { db with transferReversals := db.transferReversals.put r }
  | .idempotencyRecord r => { db with idempotencyRecords := db.idempotencyRecords.put r }
  | .auditLog r => { db with auditLogs := db.auditLogs.put r }
  | .outboxEvent r => { db with outboxEvents := db.outboxEvents.put r }
  | .notification r => { db with notifications := db.notifications.put r }
  | .webhookSubscription r => { db with webhookSubscriptions := db.webhookSubscriptions.put r }
  | .webhookDelivery r => { db with webhookDeliveries := db.webhookDeliveries.put r }
  | .webhookAttempt r => { db with webhookAttempts := db.webhookAttempts.put r }
  | .payment r => { db with payments := db.payments.put r }
  | .providerEvent r => { db with providerEvents := db.providerEvents.put r }
  | .paymentCheckout r => { db with paymentCheckouts := db.paymentCheckouts.put r }

def rows (db : Db) : List Row :=
  db.users.rows.map .user ++ db.wallets.rows.map .wallet ++ db.ledgerAccounts.rows.map .ledgerAccount ++
    db.ledgerTransactions.rows.map .ledgerTransaction ++ db.ledgerPostings.rows.map .ledgerPosting ++
    db.beneficiaries.rows.map .beneficiary ++ db.transfers.rows.map .transfer ++
    db.transferReversals.rows.map .transferReversal ++
    db.idempotencyRecords.rows.map .idempotencyRecord ++ db.auditLogs.rows.map .auditLog ++
    db.outboxEvents.rows.map .outboxEvent ++ db.notifications.rows.map .notification ++
    db.webhookSubscriptions.rows.map .webhookSubscription ++
    db.webhookDeliveries.rows.map .webhookDelivery ++ db.webhookAttempts.rows.map .webhookAttempt ++
    db.payments.rows.map .payment ++ db.providerEvents.rows.map .providerEvent ++
    db.paymentCheckouts.rows.map .paymentCheckout

instance : Membership Row Db where
  mem db
    | .user r => r ∈ db.users
    | .wallet r => r ∈ db.wallets
    | .ledgerAccount r => r ∈ db.ledgerAccounts
    | .ledgerTransaction r => r ∈ db.ledgerTransactions
    | .ledgerPosting r => r ∈ db.ledgerPostings
    | .beneficiary r => r ∈ db.beneficiaries
    | .transfer r => r ∈ db.transfers
    | .transferReversal r => r ∈ db.transferReversals
    | .idempotencyRecord r => r ∈ db.idempotencyRecords
    | .auditLog r => r ∈ db.auditLogs
    | .outboxEvent r => r ∈ db.outboxEvents
    | .notification r => r ∈ db.notifications
    | .webhookSubscription r => r ∈ db.webhookSubscriptions
    | .webhookDelivery r => r ∈ db.webhookDeliveries
    | .webhookAttempt r => r ∈ db.webhookAttempts
    | .payment r => r ∈ db.payments
    | .providerEvent r => r ∈ db.providerEvents
    | .paymentCheckout r => r ∈ db.paymentCheckouts

variable {db : Db}

@[simp] theorem user_mem {r : User} : Row.user r ∈ db ↔ r ∈ db.users := Iff.rfl
@[simp] theorem wallet_mem {r : Wallet} : Row.wallet r ∈ db ↔ r ∈ db.wallets := Iff.rfl
@[simp] theorem ledgerAccount_mem {r : LedgerAccount} :
    Row.ledgerAccount r ∈ db ↔ r ∈ db.ledgerAccounts := Iff.rfl
@[simp] theorem ledgerTransaction_mem {r : LedgerTransaction} :
    Row.ledgerTransaction r ∈ db ↔ r ∈ db.ledgerTransactions := Iff.rfl
@[simp] theorem ledgerPosting_mem {r : LedgerPosting} :
    Row.ledgerPosting r ∈ db ↔ r ∈ db.ledgerPostings := Iff.rfl
@[simp] theorem beneficiary_mem {r : Beneficiary} : Row.beneficiary r ∈ db ↔ r ∈ db.beneficiaries := Iff.rfl
@[simp] theorem transfer_mem {r : Transfer} : Row.transfer r ∈ db ↔ r ∈ db.transfers := Iff.rfl
@[simp] theorem transferReversal_mem {r : TransferReversal} :
    Row.transferReversal r ∈ db ↔ r ∈ db.transferReversals := Iff.rfl
@[simp] theorem idempotencyRecord_mem {r : IdempotencyRecord} :
    Row.idempotencyRecord r ∈ db ↔ r ∈ db.idempotencyRecords := Iff.rfl
@[simp] theorem auditLog_mem {r : AuditLog} : Row.auditLog r ∈ db ↔ r ∈ db.auditLogs := Iff.rfl
@[simp] theorem outboxEvent_mem {r : OutboxEvent} : Row.outboxEvent r ∈ db ↔ r ∈ db.outboxEvents := Iff.rfl
@[simp] theorem notification_mem {r : Notification} :
    Row.notification r ∈ db ↔ r ∈ db.notifications := Iff.rfl
@[simp] theorem webhookSubscription_mem {r : WebhookSubscription} :
    Row.webhookSubscription r ∈ db ↔ r ∈ db.webhookSubscriptions := Iff.rfl
@[simp] theorem webhookDelivery_mem {r : WebhookDelivery} :
    Row.webhookDelivery r ∈ db ↔ r ∈ db.webhookDeliveries := Iff.rfl
@[simp] theorem webhookAttempt_mem {r : WebhookAttempt} :
    Row.webhookAttempt r ∈ db ↔ r ∈ db.webhookAttempts := Iff.rfl
@[simp] theorem payment_mem {r : Payment} : Row.payment r ∈ db ↔ r ∈ db.payments := Iff.rfl
@[simp] theorem providerEvent_mem {r : ProviderEvent} :
    Row.providerEvent r ∈ db ↔ r ∈ db.providerEvents := Iff.rfl
@[simp] theorem paymentCheckout_mem {r : PaymentCheckout} :
    Row.paymentCheckout r ∈ db ↔ r ∈ db.paymentCheckouts := Iff.rfl

theorem mem_rows {r : Row} : r ∈ db.rows ↔ r ∈ db := by
  cases r <;> simp [rows, Table.mem_def]

theorem mem_put {r s : Row} : s ∈ db.put r ↔ s = r ∨ (s ∈ db ∧ s.pk ≠ r.pk) := by
  cases r <;> cases s <;> simp [put, Table.mem_put, key, Row.pk]

theorem mem_put_self (db : Db) (r : Row) : r ∈ db.put r := mem_put.mpr (.inl rfl)

theorem eq_of_pk_eq {r s : Row} (hr : r ∈ db) (hs : s ∈ db) (h : r.pk = s.pk) : r = s := by
  cases r <;> cases s <;> simp only [Row.pk, Key.row.injEq, reduceCtorEq, true_and, false_and] at h <;>
    exact congrArg _ (Table.eq_of_key_eq hr hs h)

/-- Some row occupies the key. -/
def taken (db : Db) (k : Key) : Bool := db.rows.any fun r => r.keys.contains k

theorem taken_iff {k : Key} : db.taken k ↔ ∃ r ∈ db, k ∈ r.keys := by
  simp [taken, mem_rows]

theorem not_taken_iff {k : Key} : db.taken k = false ↔ ∀ r ∈ db, k ∉ r.keys := by
  rw [← Bool.not_eq_true, taken_iff]
  push Not
  rfl

end Db

instance : Store Db Row Key where
  apply := Db.put
  keys := Row.keys
  Same k s t := (∀ r : Row, k ∈ r.keys → r ∈ t → r ∈ s) ∧ (∀ r : Row, r.pk = k → r ∈ s → r ∈ t)
  same_refl _ _ := ⟨fun _ _ h => h, fun _ _ h => h⟩
  same_trans h h' := ⟨fun r hr ht => h.1 r hr (h'.1 r hr ht), fun r hr hs => h'.2 r hr (h.2 r hr hs)⟩
  same_apply := by
    intro k w s free
    refine ⟨fun r hr ht => ?_, fun r hr hs => Db.mem_put.mpr (.inr ⟨hs, ?_⟩)⟩
    · rcases Db.mem_put.mp ht with rfl | ⟨hs, _⟩
      · exact absurd hr free
      · exact hs
    · rintro e
      exact free (hr ▸ e ▸ w.pk_mem_keys)
  same_congr := by
    intro k s t w h
    refine ⟨fun r hr ht => ?_, fun r hr hs => ?_⟩
    · rcases Db.mem_put.mp ht with rfl | ⟨ht, ne⟩
      · exact Db.mem_put_self _ _
      · exact Db.mem_put.mpr (.inr ⟨h.1 r hr ht, ne⟩)
    · rcases Db.mem_put.mp hs with rfl | ⟨hs, ne⟩
      · exact Db.mem_put_self _ _
      · exact Db.mem_put.mpr (.inr ⟨h.2 r hr hs, ne⟩)
  Le s t := ∀ r ∈ s, ∃ r' ∈ t, r'.pk = r.pk
  le_refl _ r hr := ⟨r, hr, rfl⟩
  le_trans h h' r hr := by
    obtain ⟨r', hr', e⟩ := h r hr
    obtain ⟨r'', hr'', e'⟩ := h' r' hr'
    exact ⟨r'', hr'', e'.trans e⟩
  le_apply := by
    intro s w r hr
    by_cases e : r.pk = w.pk
    · exact ⟨w, Db.mem_put_self _ _, e.symm⟩
    · exact ⟨r, Db.mem_put.mpr (.inr ⟨hr, e⟩), rfl⟩
  le_congr := by
    intro s t w h r hr
    rcases Db.mem_put.mp hr with rfl | ⟨hr, ne⟩
    · exact ⟨r, Db.mem_put_self _ _, rfl⟩
    · obtain ⟨r', hr', e⟩ := h r hr
      exact ⟨r', Db.mem_put.mpr (.inr ⟨hr', e ▸ ne⟩), e⟩

@[simp] theorem store_apply (db : Db) (r : Row) : Store.apply db r = db.put r := rfl
@[simp] theorem store_keys (r : Row) : Store.keys Db r = r.keys := rfl

end Fintech
