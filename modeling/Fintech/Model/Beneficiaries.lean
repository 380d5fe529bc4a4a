import Fintech.Model.Reads
import Fintech.Model.System

/-!
# Beneficiaries

`BeneficiariesService.create` and `remove`, whose queries are each a statement of their own, and the whole system with
the table of beneficiaries left to them.
-/

namespace Fintech
open Relational Transactional

namespace BeneficiariesService

def newBeneficiary (draws : Draws) (ownerUserId walletId : Uuid) (label : String) : Beneficiary where
  id := draws.id .beneficiary
  ownerUserId := ownerUserId
  walletId := walletId
  label := label
  createdAt := draws.createdAt .beneficiary

def findWallet (walletId : String) (db : Db) : Except DbError (Option Wallet) := do
  return db.wallets.find? (← castUuid walletId)

/-- `findUnique` by owner and wallet. -/
def findExisting (ownerUserId walletId : Uuid) (db : Db) : Option Beneficiary :=
  db.beneficiaries.rows.find? fun b => b.ownerUserId = ownerUserId ∧ b.walletId = walletId

/-- The row that a query writes, with the currency of its wallet. -/
def includeWallet (write : Tx Beneficiary) : Tx AttemptOutcome := do
  let beneficiary ← write
  let wallet ← Tx.query fun db => findOrThrow (db.wallets.find? beneficiary.walletId)
  return .ok (.beneficiary (toBeneficiaryResponse beneficiary wallet))

def updateBeneficiary (id : Uuid) (f : Beneficiary → Beneficiary) : Tx Beneficiary :=
  Tx.update (·.beneficiaries.find? id) .beneficiary f

def restore (id : Uuid) (label : String) : Tx AttemptOutcome :=
  includeWallet (updateBeneficiary id fun b => { b with label := label, deletedAt := none })

def insertBeneficiary (beneficiary : Beneficiary) : Tx AttemptOutcome :=
  includeWallet do
    Tx.create (.beneficiary beneficiary)
    return beneficiary

def create (draws : Draws) (ownerUserId : Uuid) (walletId label : String) : Call :=
  .query fun db =>
    match findWallet walletId db with
    | .error d => .done (.error (.database d))
    | .ok none => .done (failed (notFound "Beneficiary wallet is unavailable"))
    | .ok (some wallet) =>
        if wallet.userId = ownerUserId then
          .done (failed (badRequest "A beneficiary must reference another user wallet"))
        else if wallet.status ≠ .active then .done (failed (conflict "Beneficiary wallet must be active"))
        else .query fun db =>
          match findExisting ownerUserId wallet.id db with
          | some existing =>
              if existing.deletedAt.isSome then
                .transaction .readCommitted (Tx.committing (restore existing.id label)) fun
                  | .committed outcome => .done (unwrapOutcome outcome)
                  | .thrown e => .done (failed e)
                  | .aborted d => .done (.error (.database d))
              else .done (failed (conflict "Beneficiary already exists"))
          | none =>
              let beneficiary := newBeneficiary draws ownerUserId wallet.id label
              .transaction .readCommitted (Tx.committing (insertBeneficiary beneficiary)) fun
                | .committed outcome => .done (unwrapOutcome outcome)
                | .thrown e => .done (failed e)
                | .aborted .uniqueViolation => .done (failed (conflict "Beneficiary already exists"))
                | .aborted d => .done (.error (.database d))

def findActive (beneficiaryId : String) (ownerUserId : Uuid) (db : Db) : Except DbError (Option Beneficiary) := do
  return (db.beneficiaries.find? (← castUuid beneficiaryId)).filter fun b =>
    b.ownerUserId = ownerUserId ∧ b.deletedAt = none

def softDelete (id : Uuid) (now : Time) : Tx AttemptOutcome := do
  let _ ← updateBeneficiary id fun b => { b with deletedAt := some now }
  return .ok .done

def remove (draws : Draws) (ownerUserId : Uuid) (beneficiaryId : String) : Call :=
  .query fun db =>
    match findActive beneficiaryId ownerUserId db with
    | .error d => .done (.error (.database d))
    | .ok none => .done (failed (notFound "Beneficiary not found"))
    | .ok (some beneficiary) =>
        .transaction .readCommitted (Tx.committing (softDelete beneficiary.id (draws.date .beneficiary))) fun
          | .committed outcome => .done (unwrapOutcome outcome)
          | .thrown e => .done (failed e)
          | .aborted d => .done (.error (.database d))

end BeneficiariesService

/-! ## The system with its beneficiaries -/

inductive BeneficiaryRequest
  | createBeneficiary (draws : Draws) (ownerUserId : Uuid) (walletId label : String)
  | removeBeneficiary (draws : Draws) (ownerUserId : Uuid) (beneficiaryId : String)
  | service (i : Request)

/-- The other workers leave the table of beneficiaries alone. -/
def Request.withoutBeneficiaries : Request → Request
  | .other isolation rows => .other isolation (rows.filter fun r => r.table ≠ .beneficiary)
  | i => i

def BeneficiaryRequest.program (sha256Hex : String → String) : BeneficiaryRequest → Call
  | .createBeneficiary draws ownerUserId walletId label =>
      BeneficiariesService.create draws ownerUserId walletId label
  | .removeBeneficiary draws ownerUserId beneficiaryId => BeneficiariesService.remove draws ownerUserId beneficiaryId
  | .service i => Fintech.program sha256Hex i.withoutBeneficiaries

def beneficiarySystem (sha256Hex : String → String) (initial : Db) :
    System Db Settings Row Key DbError HttpException AttemptOutcome Result BeneficiaryRequest where
  initial := initial
  locals := {}
  program := BeneficiaryRequest.program sha256Hex
  interrupts _ _ := True

end Fintech
