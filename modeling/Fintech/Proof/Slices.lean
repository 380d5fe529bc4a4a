import Fintech.Proof.Writes
import Mathlib.Tactic.Simps.Basic

/-!
# One table at a time

What a list of writes does to each table.
-/

namespace Fintech
open Relational Transactional

/-- A table of the database, and its rows among all rows. -/
structure Slice (ρ : Type) [Keyed ρ Uuid] where
  name : TableName
  table : Db → Table ρ
  row : ρ → Row
  of : Row → Option ρ
  of_eq_some : ∀ {r x}, of r = some x ↔ r = row x := by intro r x; cases r <;> simp [eq_comm]
  row_table : ∀ x, (row x).table = name := by intro x; rfl
  exists_row : ∀ {r : Row}, r.table = name → ∃ x, r = row x := by
    intro r h
    cases r <;> simp_all [Row.table]
  pk_row : ∀ x, (row x).pk = .row name (key x) := by intro x; rfl
  mem : ∀ {db x}, row x ∈ db ↔ x ∈ table db := by intros; rfl
  put : ∀ db r, table (db.put r) = (of r).elim (table db) (table db).put := by intro db r; cases r <;> rfl

namespace Slice

section
variable {ρ : Type} [Keyed ρ Uuid] (slice : Slice ρ)

/-- The rows of the table among the writes. -/
def written (ws : List Write) : List ρ := ws.filterMap fun w => slice.of w.row

@[simp] theorem of_row (x : ρ) : slice.of (slice.row x) = some x := slice.of_eq_some.mpr rfl

@[simp] theorem written_nil : slice.written [] = [] := rfl

@[simp] theorem written_cons (w : Write) (ws : List Write) :
    slice.written (w :: ws) = (slice.of w.row).toList ++ slice.written ws := by
  simp only [written, List.filterMap_cons]
  cases slice.of w.row <;> rfl

@[simp] theorem written_append (ws vs : List Write) :
    slice.written (ws ++ vs) = slice.written ws ++ slice.written vs := List.filterMap_append

theorem of_eq_none {r : Row} (h : r.table ≠ slice.name) : slice.of r = none := by
  cases found : slice.of r with
  | none => rfl
  | some x =>
      rw [slice.of_eq_some.mp found] at h
      exact absurd (slice.row_table x) h

theorem pk_eq {x y : ρ} : (slice.row x).pk = (slice.row y).pk ↔ key x = key y := by
  simp [slice.pk_row]

/-- A row whose primary key is one of the table is a row of the table. -/
theorem exists_of_taken {db : Db} {id : Uuid} (h : db.taken (.row slice.name id)) : ∃ x ∈ slice.table db, key x = id := by
  obtain ⟨r, hr, pk⟩ := Db.taken_row.mp h
  have table : r.table = slice.name := by
    cases r <;> simp_all [Row.pk, Row.table]
  obtain ⟨x, rfl⟩ := slice.exists_row table
  refine ⟨x, slice.mem.mp hr, ?_⟩
  simpa [slice.pk_row] using pk

theorem written_map {α : Type} (f : α → Write) (as : List α) :
    slice.written (as.map f) = as.filterMap fun a => slice.of (f a).row := by
  simp [written, List.filterMap_map]

/-- What a row refers to is there. -/
theorem exists_of_reference {db : Db} (sound : db.Sound) {r : Row} (hr : r ∈ db) {id : Uuid}
    (h : Key.row slice.name id ∈ r.references) : ∃ x ∈ slice.table db, key x = id :=
  slice.exists_of_taken (sound.referenced r hr _ h)

theorem table_write (db : Db) (ws : List Write) :
    slice.table (db.write ws) = (slice.table db).putAll (slice.written ws) := by
  induction ws generalizing db with
  | nil => rfl
  | cons w ws ih =>
      rw [Db.write_cons, ih, slice.put, written_cons]
      cases slice.of w.row <;> rfl

theorem mem_written {db : Db} {ws : List Write} {x : ρ} (hx : x ∈ slice.table (db.write ws)) :
    x ∈ slice.table db ∨ x ∈ slice.written ws := by
  rw [slice.table_write] at hx
  exact Table.mem_of_mem_putAll hx

theorem mem_of_written {db : Db} {ws : List Write} {x : ρ} (only : slice.written ws = [x]) : x ∈ slice.table (db.write ws) := by
  rw [slice.table_write, only]
  exact Table.mem_put_self _ x

end

@[simps name table row of]
def users : Slice User where
  name := .user
  table := Db.users
  row := .user
  of | .user r => some r
     | _ => none

@[simps name table row of]
def wallets : Slice Wallet where
  name := .wallet
  table := Db.wallets
  row := .wallet
  of | .wallet r => some r
     | _ => none

@[simps name table row of]
def ledgerAccounts : Slice LedgerAccount where
  name := .ledgerAccount
  table := Db.ledgerAccounts
  row := .ledgerAccount
  of | .ledgerAccount r => some r
     | _ => none

@[simps name table row of]
def ledgerTransactions : Slice LedgerTransaction where
  name := .ledgerTransaction
  table := Db.ledgerTransactions
  row := .ledgerTransaction
  of | .ledgerTransaction r => some r
     | _ => none

@[simps name table row of]
def ledgerPostings : Slice LedgerPosting where
  name := .ledgerPosting
  table := Db.ledgerPostings
  row := .ledgerPosting
  of | .ledgerPosting r => some r
     | _ => none

@[simps name table row of]
def beneficiaries : Slice Beneficiary where
  name := .beneficiary
  table := Db.beneficiaries
  row := .beneficiary
  of | .beneficiary r => some r
     | _ => none

@[simps name table row of]
def transfers : Slice Transfer where
  name := .transfer
  table := Db.transfers
  row := .transfer
  of | .transfer r => some r
     | _ => none

@[simps name table row of]
def transferReversals : Slice TransferReversal where
  name := .transferReversal
  table := Db.transferReversals
  row := .transferReversal
  of | .transferReversal r => some r
     | _ => none

@[simps name table row of]
def idempotencyRecords : Slice IdempotencyRecord where
  name := .idempotencyRecord
  table := Db.idempotencyRecords
  row := .idempotencyRecord
  of | .idempotencyRecord r => some r
     | _ => none

@[simps name table row of]
def outboxEvents : Slice OutboxEvent where
  name := .outboxEvent
  table := Db.outboxEvents
  row := .outboxEvent
  of | .outboxEvent r => some r
     | _ => none

@[simps name table row of]
def webhookSubscriptions : Slice WebhookSubscription where
  name := .webhookSubscription
  table := Db.webhookSubscriptions
  row := .webhookSubscription
  of | .webhookSubscription r => some r
     | _ => none

@[simps name table row of]
def payments : Slice Payment where
  name := .payment
  table := Db.payments
  row := .payment
  of | .payment r => some r
     | _ => none

@[simps name table row of]
def providerEvents : Slice ProviderEvent where
  name := .providerEvent
  table := Db.providerEvents
  row := .providerEvent
  of | .providerEvent r => some r
     | _ => none

@[simps name table row of]
def auditLogs : Slice AuditLog where
  name := .auditLog
  table := Db.auditLogs
  row := .auditLog
  of | .auditLog r => some r
     | _ => none

@[simps name table row of]
def webhookDeliveries : Slice WebhookDelivery where
  name := .webhookDelivery
  table := Db.webhookDeliveries
  row := .webhookDelivery
  of | .webhookDelivery r => some r
     | _ => none

end Slice

end Fintech
