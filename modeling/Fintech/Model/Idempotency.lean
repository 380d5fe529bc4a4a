import Fintech.Library.Snapshot
import Fintech.Model.Statements

/-!
# Idempotency keys

`TransfersService.create` and `ReversalsService.create` run their work inside the same frame: look
the key up, claim it, and leave the record terminal in the transaction that does the work. The
frame is stated once; a scope holds what differs.
-/

namespace Fintech
open Relational Transactional

structure WalletResponse where
  id : Uuid
  currency : Currency
  status : WalletStatus
  currentBalanceMinor : String
  createdAt : Time
  updatedAt : Time
  deriving DecidableEq

structure SafeUser where
  id : Uuid
  email : String
  firstName : String
  lastName : String
  createdAt : Time
  updatedAt : Time
  deriving DecidableEq

structure TransferResponse where
  id : Uuid
  reference : String
  sourceWalletId : Uuid
  destinationWalletId : Uuid
  beneficiaryId : Option Uuid
  currency : Currency
  amountMinor : String
  status : TransferStatus
  createdAt : Time
  completedAt : Option Time
  deriving DecidableEq

structure ReversalResponse where
  id : Uuid
  reference : String
  transferId : Uuid
  ledgerTransactionId : Uuid
  currency : Currency
  amountMinor : String
  reason : Option String
  createdAt : Time
  deriving DecidableEq

structure BeneficiariesService.BeneficiaryResponse where
  id : Uuid
  walletId : Uuid
  label : String
  currency : Currency
  createdAt : Time
  deriving DecidableEq

/-- What a successful call returns. -/
inductive Reply
  | registered (user : SafeUser) (initialWallet : WalletResponse)
  | wallet (wallet : WalletResponse)
  | posted (transaction : LedgerTransaction) (postings : List LedgerPosting)
  | transfer (transfer : TransferResponse)
  | reversal (reversal : ReversalResponse)
  | payment (payment : Payment)
  | received (paymentId : Uuid) (status : PaymentStatus)
  | beneficiary (beneficiary : BeneficiariesService.BeneficiaryResponse)
  | done
  deriving DecidableEq

/-- What a committed transaction hands to its caller: a reply, or a failure that it has recorded. -/
abbrev AttemptOutcome := Except HttpException Reply

abbrev Result := Except Failure Reply

abbrev Call := Client Db Settings Row Key DbError HttpException AttemptOutcome Result

def failed (e : HttpException) : Result := .error (.http e)

def unwrapOutcome : AttemptOutcome → Result
  | .ok reply => .ok reply
  | .error e => failed e

/-- A transaction and its commit. -/
def Tx.committing {α : Type} (body : Tx α) : Tx α := do
  let a ← body
  Tx.commit
  return a

def isSerializationConflict (d : DbError) : Bool := d == .serializationFailure

def normalizeIdempotencyKey (value : Option String) : Except HttpException String := do
  let some value := value.filter (· ≠ "") | .error (badRequest "Idempotency-Key header is required")
  let key := jsTrim value
  failIf (¬ isIdempotencyKey key) (badRequest
    "Idempotency-Key must be 1-128 characters using letters, numbers, dot, underscore, colon, or hyphen")
  return key

/-- What differs between the two services. -/
structure Scope (ρ : Type) where
  name : String
  /-- The resource that a record refers to. -/
  resource : Db → IdempotencyRecord → Option ρ
  complete : ρ → IdempotencyRecord → IdempotencyRecord
  reply : ρ → Reply
  usedDifferently : String
  missingResource : String
  stillProcessing : String
  concurrentUpdate : String

namespace Scope
variable {ρ : Type} (scope : Scope ρ)

def findRecord (userId : Uuid) (key : String) (db : Db) : Option (IdempotencyRecord × Option ρ) :=
  (db.idempotencyRecords.rows.find? fun r => r.userId = userId ∧ r.scope = scope.name ∧ r.key = key).map fun r =>
    (r, scope.resource db r)

def resolveExistingIdempotency (existing : IdempotencyRecord × Option ρ) (requestHash : String) :
    Except HttpException AttemptOutcome := do
  let (record, resource) := existing
  failIf (record.requestHash ≠ requestHash) (conflict scope.usedDifferently)
  match record.status with
  | .completed =>
      match resource with
      | none => .error (internalServerError scope.missingResource)
      | some r => .ok (.ok (scope.reply r))
  | .failed =>
      match record.responseStatus.filter (· ≠ 0), record.errorMessage.filter (· ≠ "") with
      | some status, some message => .ok (.error ⟨status, message⟩)
      | _, _ => .error (internalServerError "Failed idempotency record is missing its stored response")
  | .inProgress => .error (conflict scope.stillProcessing)

def updateRecord (id : Uuid) (f : IdempotencyRecord → IdempotencyRecord) : Tx IdempotencyRecord :=
  Tx.update (·.idempotencyRecords.find? id) .idempotencyRecord f

/-- The claim, the work and its completed record; a client error of the work is recorded instead. -/
def claimed (claim : IdempotencyRecord) (work : Tx ρ) : Tx AttemptOutcome := do
  Tx.create (.idempotencyRecord claim)
  tryCatch
    (do
      let r ← work
      let _ ← updateRecord claim.id (scope.complete r)
      return .ok (scope.reply r))
    fun e =>
      if 400 ≤ e.status ∧ e.status < 500 then do
        let message := jsTake 255 e.message
        let _ ← updateRecord claim.id fun r =>
          { r with status := .failed, responseStatus := some e.status, errorMessage := some message }
        return .error ⟨e.status, message⟩
      else throw e

/-- The callback of `$transaction` in `create`. -/
def attempt (draws : Draws) (userId : Uuid) (key requestHash : String) (work : Tx ρ) : Tx AttemptOutcome := do
  match ← Prog.read (scope.findRecord userId key) with
  | some existing => Prog.lift (scope.resolveExistingIdempotency existing requestHash)
  | none =>
      scope.claimed
        { id := draws.id .idempotencyRecord, userId, scope := scope.name, key, requestHash,
          createdAt := draws.createdAt .idempotencyRecord }
        work

/-- The loop of `replayAfterIdempotencyRace`, with the tries that are left. -/
def replayAfterIdempotencyRace (userId : Uuid) (key requestHash : String) : Nat → Call
  | 0 => .done (failed (conflict scope.concurrentUpdate))
  | tries + 1 => .query fun db =>
      match scope.findRecord userId key db with
      | some existing =>
          match scope.resolveExistingIdempotency existing requestHash with
          | .ok outcome => .done (unwrapOutcome outcome)
          | .error e => .done (failed e)
      | none => replayAfterIdempotencyRace userId key requestHash tries

/-- `create`, from the transaction on. -/
def create (draws : Draws) (userId : Uuid) (key requestHash : String) (work : Tx ρ) : Call :=
  .transaction .serializable (Tx.committing (scope.attempt draws userId key requestHash work)) fun
    | .committed outcome => .done (unwrapOutcome outcome)
    | .thrown e => .done (failed e)
    | .aborted d =>
        if d = .uniqueViolation ∨ isSerializationConflict d then
          scope.replayAfterIdempotencyRace userId key requestHash 5
        else .done (.error (.database d))

end Scope

end Fintech
