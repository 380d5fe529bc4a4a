import Fintech.Model.Transfers

/-!
# Migrations of data

The backfill of the audit log, which came after the first transfers.
-/

namespace Fintech
open Relational Transactional

/-- The row that `phase5_audit_backfill` inserts for a transfer; `md5Uuid` is the digest of a text as a UUID. -/
def backfilledAudit (md5Uuid : String → Uuid) (t : Transfer) : AuditLog where
  id := md5Uuid ("audit:transfer-created:" ++ t.id.text)
  actorUserId := t.senderUserId
  action := .transferCreated
  transferId := t.id
  createdAt := t.createdAt

def Db.hasCreatedAudit (db : Db) (t : Transfer) : Bool :=
  db.auditLogs.rows.any fun a => a.action = .transferCreated ∧ a.transferId = t.id

/-- `phase5_audit_backfill` -/
def backfillAudits (md5Uuid : String → Uuid) : Tx Unit := do
  Tx.setConfig fun s => { s with auditWrite := true }
  Tx.createMany fun db => .ok
    ((db.transfers.rows.filter fun t => ¬ db.hasCreatedAudit t).map fun t => .auditLog (backfilledAudit md5Uuid t))

end Fintech
