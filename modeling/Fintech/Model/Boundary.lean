import Fintech.Model.Ledger

/-!
# Arbitrary transactions at the database

Any row statements on any table, with the write settings switched as one likes, as far as the
triggers, the columns, the keys and the foreign keys let them pass. Every foreign key of the schema is
`ON UPDATE CASCADE`; those of beneficiaries and idempotency records to their user are `ON DELETE
CASCADE`, and all others `ON DELETE RESTRICT`.
-/

namespace Fintech
open Relational Transactional

inductive WriteSetting | ledger | transfer | reversal | audit | payment
  deriving DecidableEq, Repr

/-- `set_config` of one of the `app.*_write` settings. -/
def Settings.set (s : Settings) (on : Bool) : WriteSetting → Settings
  | .ledger => { s with ledgerWrite := on }
  | .transfer => { s with transferWrite := on }
  | .reversal => { s with reversalWrite := on }
  | .audit => { s with auditWrite := on }
  | .payment => { s with paymentWrite := on }

inductive RowStatement
  | setConfig (setting : WriteSetting) (on : Bool)
  /-- The ids and the time are those of the deliveries that an outbox event fans out to. -/
  | insert (r : Row) (delivery : Uuid → Uuid) (now : Time)
  /-- The time is that of the wallet that follows its account. -/
  | update (old new : Row) (now : Time)
  | delete (r : Row)

/-! ## Foreign keys -/

/-- The id in a foreign key column once the row `k` that it may refer to has become `k'`. -/
def Key.follow (k k' : Key) (table : TableName) (id : Uuid) : Uuid :=
  if k = .row table id then
    match k' with
    | .row _ id' => id'
    | _ => id
  else id

/-- `ON UPDATE CASCADE`: the row with its references to `k` turned to `k'`. -/
def Row.follow (k k' : Key) : Row → Row
  | .user r => .user r
  | .wallet r => .wallet { r with
      userId := k.follow k' .user r.userId, ledgerAccountId := k.follow k' .ledgerAccount r.ledgerAccountId }
  | .ledgerAccount r => .ledgerAccount r
  | .ledgerTransaction r => .ledgerTransaction r
  | .ledgerPosting r => .ledgerPosting { r with
      ledgerTransactionId := k.follow k' .ledgerTransaction r.ledgerTransactionId,
      accountId := k.follow k' .ledgerAccount r.accountId }
  | .beneficiary r => .beneficiary { r with
      ownerUserId := k.follow k' .user r.ownerUserId, walletId := k.follow k' .wallet r.walletId }
  | .transfer r => .transfer { r with
      senderUserId := k.follow k' .user r.senderUserId, sourceWalletId := k.follow k' .wallet r.sourceWalletId,
      destinationWalletId := k.follow k' .wallet r.destinationWalletId,
      beneficiaryId := r.beneficiaryId.map (k.follow k' .beneficiary),
      ledgerTransactionId := k.follow k' .ledgerTransaction r.ledgerTransactionId }
  | .transferReversal r => .transferReversal { r with
      transferId := k.follow k' .transfer r.transferId, actorUserId := k.follow k' .user r.actorUserId,
      ledgerTransactionId := k.follow k' .ledgerTransaction r.ledgerTransactionId }
  | .idempotencyRecord r => .idempotencyRecord { r with
      userId := k.follow k' .user r.userId, transferId := r.transferId.map (k.follow k' .transfer),
      reversalId := r.reversalId.map (k.follow k' .transferReversal) }
  | .auditLog r => .auditLog { r with
      actorUserId := k.follow k' .user r.actorUserId, transferId := k.follow k' .transfer r.transferId,
      reversalId := r.reversalId.map (k.follow k' .transferReversal) }
  | .outboxEvent r => .outboxEvent { r with actorUserId := k.follow k' .user r.actorUserId }
  | .notification r => .notification { r with
      outboxEventId := k.follow k' .outboxEvent r.outboxEventId, userId := k.follow k' .user r.userId }
  | .webhookSubscription r => .webhookSubscription { r with userId := k.follow k' .user r.userId }
  | .webhookDelivery r => .webhookDelivery { r with
      subscriptionId := k.follow k' .webhookSubscription r.subscriptionId,
      outboxEventId := k.follow k' .outboxEvent r.outboxEventId }
  | .webhookAttempt r => .webhookAttempt { r with deliveryId := k.follow k' .webhookDelivery r.deliveryId }
  | .payment r => .payment { r with
      userId := k.follow k' .user r.userId, walletId := k.follow k' .wallet r.walletId,
      ledgerTransactionId := r.ledgerTransactionId.map (k.follow k' .ledgerTransaction) }
  | .providerEvent r => .providerEvent { r with paymentId := k.follow k' .payment r.paymentId }
  | .paymentCheckout r => .paymentCheckout { r with paymentId := k.follow k' .payment r.paymentId }

/-- The rows whose deletion deletes this one: `ON DELETE CASCADE`. -/
def Row.owners : Row → List Key
  | .beneficiary r => [.row .user r.ownerUserId]
  | .idempotencyRecord r => [.row .user r.userId]
  | _ => []

/-! ## Triggers before a deletion -/

def beforeDelete : Row → Except DbError Unit
  | .ledgerAccount _ => .error (.raised "ledger accounts are immutable")
  | .wallet _ => .error (.raised "wallets cannot be deleted; close them instead")
  | .ledgerTransaction _ => .error (.raised "ledger transactions are immutable")
  | .ledgerPosting _ => .error (.raised "ledger postings are immutable")
  | .transfer _ => .error (.raised "completed transfers cannot be deleted")
  | .transferReversal _ => .error (.raised "transfer reversals are immutable")
  | .idempotencyRecord old =>
      raiseIf (old.status = .completed ∨ old.status = .failed) "terminal idempotency records are immutable"
  | .auditLog _ => .error (.raised "audit records are immutable")
  | .payment _ => .error (.raised "payment intents cannot be deleted")
  | .providerEvent _ => .error (.raised "provider event history is immutable")
  | .paymentCheckout _ => .error (.raised "Payment checkout claims cannot be deleted")
  | _ => .ok ()

/-! ## Statements -/

namespace Db

def erase (db : Db) : Row → Db
  | .user r => { db with users := db.users.erase r.id }
  | .wallet r => { db with wallets := db.wallets.erase r.id }
  | .ledgerAccount r => { db with ledgerAccounts := db.ledgerAccounts.erase r.id }
  | .ledgerTransaction r => { db with ledgerTransactions := db.ledgerTransactions.erase r.id }
  | .ledgerPosting r => { db with ledgerPostings := db.ledgerPostings.erase r.id }
  | .beneficiary r => { db with beneficiaries := db.beneficiaries.erase r.id }
  | .transfer r => { db with transfers := db.transfers.erase r.id }
  | .transferReversal r => { db with transferReversals := db.transferReversals.erase r.id }
  | .idempotencyRecord r => { db with idempotencyRecords := db.idempotencyRecords.erase r.id }
  | .auditLog r => { db with auditLogs := db.auditLogs.erase r.id }
  | .outboxEvent r => { db with outboxEvents := db.outboxEvents.erase r.id }
  | .notification r => { db with notifications := db.notifications.erase r.id }
  | .webhookSubscription r => { db with webhookSubscriptions := db.webhookSubscriptions.erase r.id }
  | .webhookDelivery r => { db with webhookDeliveries := db.webhookDeliveries.erase r.id }
  | .webhookAttempt r => { db with webhookAttempts := db.webhookAttempts.erase r.id }
  | .payment r => { db with payments := db.payments.erase r.id }
  | .providerEvent r => { db with providerEvents := db.providerEvents.erase r.id }
  | .paymentCheckout r => { db with paymentCheckouts := db.paymentCheckouts.erase r.paymentId }

theorem mem_erase {db : Db} {r s : Row} : s ∈ db.erase r ↔ s ∈ db ∧ s.pk ≠ r.pk := by
  cases r <;> cases s <;> simp [erase, Table.mem_erase, key, Row.pk]

/-- The row `old` becomes `new`, which may have another primary key. -/
def replace (db : Db) (old new : Row) : Db :=
  if new.pk = old.pk then db.put new else (db.erase old).put new

theorem mem_replace {db : Db} {old new r : Row} :
    r ∈ db.replace old new ↔ r = new ∨ (r ∈ db ∧ r.pk ≠ old.pk ∧ r.pk ≠ new.pk) := by
  unfold replace
  split
  · rename_i same
    rw [mem_put, same, and_self]
  · rw [mem_put, mem_erase, and_assoc]

def insertRow (db : Db) (s : Settings) (r : Row) (delivery : Uuid → Uuid) (now : Time) : Except DbError (Db × Settings) := do
  let rows :=
    match r with
    | .outboxEvent event => db.eventRows event delivery now
    | r => [r]
  let s ← db.insertAll s rows
  return (applyAll db rows, s)

def reviseRow (db : Db) (s : Settings) (old new : Row) : Except DbError (Db × Settings) := do
  failIf (old ∉ db.rows ∨ new.table ≠ old.table) .recordNotFound
  failIf (new.pk ≠ old.pk ∧ db.taken new.pk) .uniqueViolation
  let s ← db.update s old new
  return (db.replace old new, s)

/-- The trigger after an update of an account's balance. -/
def syncWallet (db : Db) (s : Settings) (old new : Row) (now : Time) : Except DbError (Db × Settings) :=
  match old, new with
  | .ledgerAccount old, .ledgerAccount new => do
      let (s, synced) ← syncWalletBalanceFromLedgerAccount db s old new now
      return (applyAll db synced, s)
  | _, _ => .ok (db, s)

/-- The rows that refer to `k` follow it to `k'`. -/
def cascade (k k' : Key) : List Row → Db → Settings → Except DbError (Db × Settings)
  | [], db, s => .ok (db, s)
  | r :: rs, db, s => do
      let (db, s) ← db.reviseRow s r (r.follow k k')
      cascade k k' rs db s

def updateRow (db : Db) (s : Settings) (old new : Row) (now : Time) : Except DbError (Db × Settings) := do
  let (revised, s) ← db.reviseRow s old new
  let (synced, s) ← revised.syncWallet s old new now
  if new.pk = old.pk then return (synced, s)
  else cascade old.pk new.pk (synced.rows.filter fun r => old.pk ∈ r.references) synced s

def removeRow (db : Db) (r : Row) : Except DbError Db := do
  failIf (r ∉ db.rows) .recordNotFound
  beforeDelete r
  failIf (∃ c ∈ db.rows, r.pk ∈ c.references) .foreignKeyViolation
  return db.erase r

def deleteRow (db : Db) (r : Row) : Except DbError Db := do
  let db ← (db.rows.filter fun c => r.pk ∈ c.owners).foldlM removeRow db
  db.removeRow r

def execute (db : Db) (s : Settings) : RowStatement → Except DbError (Db × Settings)
  | .setConfig setting on => .ok (db, s.set on setting)
  | .insert r delivery now => db.insertRow s r delivery now
  | .update old new now => db.updateRow s old new now
  | .delete r => do return (← db.deleteRow r, s)

def executeAll : List RowStatement → Db → Settings → Except DbError (Db × Settings)
  | [], db, s => .ok (db, s)
  | st :: sts, db, s => do
      let (db, s) ← db.execute s st
      executeAll sts db s

/-- `BEGIN`, the statements, and `COMMIT` with the constraint triggers that are due. -/
def transact (db : Db) (statements : List RowStatement) : Except DbError Db := do
  let (after, s) ← executeAll statements db {}
  s.deferred.forM (atCommit after)
  return after

/-- Some transaction takes one committed state to the next. -/
def Commits (before after : Db) : Prop := ∃ statements, before.transact statements = .ok after

/-- Any number of transactions, one after another. -/
def Leads : Db → Db → Prop := Relation.ReflTransGen Commits

end Db

end Fintech
