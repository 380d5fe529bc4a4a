import Fintech.Model.Idempotency
import Fintech.Model.Ledger

/-!
# Transfers and reversals

`TransfersService.create` and `ReversalsService.create`: the normalization of the request, its
fingerprint, and the work done once the key is claimed.
-/

namespace Fintech
open Relational Transactional

def maxMinorUnits : Int := 9223372036854775807

namespace TransfersService

structure CreateTransferDto where
  sourceWalletId : String
  destinationWalletId : Option String := none
  beneficiaryId : Option String := none
  amountMinor : String
  deriving DecidableEq

structure NormalizedTransferRequest where
  sourceWalletId : String
  destinationWalletId : Option String
  beneficiaryId : Option String
  amountMinor : Int
  amountMinorText : String
  deriving DecidableEq

def normalizeTransferRequest (input : CreateTransferDto) : Except HttpException NormalizedTransferRequest := do
  let destinationWalletId := input.destinationWalletId.filter (· ≠ "")
  let beneficiaryId := input.beneficiaryId.filter (· ≠ "")
  failIf (destinationWalletId.isSome = beneficiaryId.isSome)
    (badRequest "Provide exactly one of destinationWalletId or beneficiaryId")
  let some amountMinor := bigInt? input.amountMinor
    | .error (badRequest "amountMinor must be a positive integer string in minor units")
  failIf (amountMinor ≤ 0 ∨ maxMinorUnits < amountMinor) (badRequest "amountMinor exceeds the supported BIGINT range")
  return {
    sourceWalletId := toLowerCase input.sourceWalletId
    destinationWalletId := destinationWalletId.map toLowerCase
    beneficiaryId := beneficiaryId.map toLowerCase
    amountMinor
    amountMinorText := toString amountMinor }

def hashRequest (sha256Hex : String → String) (request : NormalizedTransferRequest) : String :=
  sha256Hex (jsonObject [
    ("sourceWalletId", some request.sourceWalletId), ("destinationWalletId", request.destinationWalletId),
    ("beneficiaryId", request.beneficiaryId), ("amountMinor", some request.amountMinorText)])

def toTransferResponse (t : Transfer) : TransferResponse where
  id := t.id
  reference := t.reference
  sourceWalletId := t.sourceWalletId
  destinationWalletId := t.destinationWalletId
  beneficiaryId := t.beneficiaryId
  currency := t.currency
  amountMinor := toString t.amountMinor
  status := t.status
  createdAt := t.createdAt
  completedAt := t.completedAt

def scope : Scope Transfer where
  name := "internal-transfer"
  resource db r := r.transferId.bind db.transfers.find?
  complete t r := { r with status := .completed, responseStatus := some 201, transferId := some t.id }
  reply t := .transfer (toTransferResponse t)
  usedDifferently := "Idempotency-Key has already been used with a different transfer request"
  missingResource := "Completed idempotency record is missing its transfer"
  stillProcessing := "Idempotent transfer request is still processing"
  concurrentUpdate := "Concurrent transfer update detected; retry using the same Idempotency-Key"

def findSourceWallet (id : String) (senderUserId : Uuid) (db : Db) : Except DbError (Option Wallet) := do
  let id ← castUuid id
  return (db.wallets.find? id).filter fun w => w.userId = senderUserId

/-- The beneficiary's id and wallet. -/
def findBeneficiary (id : String) (ownerUserId : Uuid) (db : Db) : Except DbError (Option (Uuid × Wallet)) := do
  let id ← castUuid id
  match (db.beneficiaries.find? id).filter fun b => b.ownerUserId = ownerUserId ∧ b.deletedAt = none with
  | none => return none
  | some b => return some (b.id, ← findOrThrow (db.wallets.find? b.walletId))

def findDestinationWallet (id : String) (db : Db) : Except DbError (Option Wallet) := do
  return db.wallets.find? (← castUuid id)

/-- The wallet that the request names, and the beneficiary it was named by. -/
def resolveDestination (senderUserId : Uuid) (request : NormalizedTransferRequest) : Tx (Wallet × Option Uuid) := do
  match request.beneficiaryId with
  | some beneficiaryId =>
      let found ← Tx.query (findBeneficiary beneficiaryId senderUserId)
      let (id, wallet) ← Prog.orThrow (notFound "Beneficiary not found") found
      return (wallet, some id)
  | none =>
      let destinationWalletId ← Prog.orThrow (internalServerError "Transfer destination was not resolved")
        request.destinationWalletId
      let found ← Tx.query (findDestinationWallet destinationWalletId)
      let wallet ← Prog.orThrow (notFound "Destination wallet is unavailable") found
      return (wallet, none)

def completedEvent (draws : Draws) (t : Transfer) : OutboxEvent where
  id := draws.id .outboxEvent
  type := .transferCompleted
  aggregateType := "Transfer"
  aggregateId := t.id
  actorUserId := t.senderUserId
  payload := [("transferId", t.id.text), ("amountMinor", toString t.amountMinor), ("currency", t.currency.text)]
  availableAt := draws.createdAt .outboxEvent
  createdAt := draws.createdAt .outboxEvent

def createdAudit (draws : Draws) (t : Transfer) : AuditLog where
  id := draws.id .auditLog
  actorUserId := t.senderUserId
  action := .transferCreated
  transferId := t.id
  createdAt := draws.createdAt .auditLog

def ledgerInput (draws : Draws) (source destination : Wallet) (amountMinor : Int) : LedgerTransactionInput where
  reference := "transfer:" ++ (draws.id .transfer).text
  currency := source.currency
  description := some "Internal wallet transfer"
  postings := [⟨source.ledgerAccountId.text, -amountMinor⟩, ⟨destination.ledgerAccountId.text, amountMinor⟩]

/-- The completed transfer that is created after the ledger transaction. -/
def completedTransfer (draws : Draws) (senderUserId : Uuid) (source destination : Wallet)
    (beneficiaryId : Option Uuid) (ledgerTransactionId : Uuid) (amountMinor : Int) : Transfer where
  id := draws.id .transfer
  reference := "transfer:" ++ (draws.id .transfer).text
  senderUserId := senderUserId
  sourceWalletId := source.id
  destinationWalletId := destination.id
  beneficiaryId := beneficiaryId
  ledgerTransactionId := ledgerTransactionId
  currency := source.currency
  amountMinor := amountMinor
  status := .completed
  createdAt := draws.createdAt .transfer
  completedAt := some (draws.date .transfer)

def work (draws : Draws) (senderUserId : Uuid) (request : NormalizedTransferRequest) : Tx Transfer := do
  let found ← Tx.query (findSourceWallet request.sourceWalletId senderUserId)
  let source ← Prog.orThrow (notFound "Source wallet not found") found
  Prog.throwIf (source.status ≠ .active) (conflict "Source wallet must be active")
  let (destination, beneficiaryId) ← resolveDestination senderUserId request
  Prog.throwIf (destination.status ≠ .active) (conflict "Destination wallet must be active")
  Prog.throwIf (source.id = destination.id) (badRequest "Source and destination wallets must be different")
  Prog.throwIf (source.currency ≠ destination.currency) (badRequest "Internal transfers must use the same currency")
  let (ledgerTransaction, _) ← LedgerService.postWithinTransaction draws
    (ledgerInput draws source destination request.amountMinor)
  Tx.setConfig fun s => { s with transferWrite := true }
  let transfer :=
    completedTransfer draws senderUserId source destination beneficiaryId ledgerTransaction.id request.amountMinor
  Tx.create (.transfer transfer)
  Tx.setConfig fun s => { s with auditWrite := true }
  Tx.create (.auditLog (createdAudit draws transfer))
  Tx.createMany fun db =>
    .ok (db.eventRows (completedEvent draws transfer) draws.delivery (draws.createdAt .webhookDelivery))
  return transfer

def create (sha256Hex : String → String) (draws : Draws) (senderUserId : Uuid) (idempotencyKeyHeader : Option String)
    (input : CreateTransferDto) : Call :=
  let normalized := do return (← normalizeIdempotencyKey idempotencyKeyHeader, ← normalizeTransferRequest input)
  match normalized with
  | .error e => .done (failed e)
  | .ok (key, request) =>
      scope.create draws senderUserId key (hashRequest sha256Hex request) (work draws senderUserId request)

end TransfersService

namespace ReversalsService

structure CreateReversalDto where
  reason : Option String := none
  deriving DecidableEq

structure NormalizedReversalRequest where
  transferId : String
  reason : Option String
  deriving DecidableEq

def normalizeRequest (transferId : String) (input : CreateReversalDto) : NormalizedReversalRequest where
  transferId := toLowerCase transferId
  reason := (input.reason.map jsTrim).filter (· ≠ "")

def hashRequest (sha256Hex : String → String) (request : NormalizedReversalRequest) : String :=
  sha256Hex (jsonObject [("transferId", some request.transferId), ("reason", request.reason)])

def toReversalResponse (r : TransferReversal) : ReversalResponse where
  id := r.id
  reference := r.reference
  transferId := r.transferId
  ledgerTransactionId := r.ledgerTransactionId
  currency := r.currency
  amountMinor := toString r.amountMinor
  reason := r.reason
  createdAt := r.createdAt

def scope : Scope TransferReversal where
  name := "transfer-reversal"
  resource db r := r.reversalId.bind db.transferReversals.find?
  complete v r := { r with status := .completed, responseStatus := some 201, reversalId := some v.id }
  reply v := .reversal (toReversalResponse v)
  usedDifferently := "Idempotency-Key has already been used with a different reversal request"
  missingResource := "Completed idempotency record is missing its reversal"
  stillProcessing := "Idempotent reversal request is still processing"
  concurrentUpdate := "Concurrent reversal update detected; retry using the same Idempotency-Key"

def lockTransfer (transferId : String) : Tx (Option Transfer) :=
  Tx.lock (fun db => return db.transfers.find? (← castUuid transferId)) fun t => (t.map Row.transfer).toList

/-- The actor's transfer with its wallets and its reversal. -/
structure FoundTransfer where
  transfer : Transfer
  sourceWallet : Wallet
  destinationWallet : Wallet
  reversal : Option TransferReversal

def findTransfer (transferId : String) (actorUserId : Uuid) (db : Db) : Except DbError (Option FoundTransfer) := do
  let id ← castUuid transferId
  match (db.transfers.find? id).filter fun t => t.senderUserId = actorUserId with
  | none => return none
  | some t => return some {
      transfer := t
      sourceWallet := ← findOrThrow (db.wallets.find? t.sourceWalletId)
      destinationWallet := ← findOrThrow (db.wallets.find? t.destinationWalletId)
      reversal := db.transferReversals.rows.find? fun r => r.transferId = t.id }

def ledgerInput (draws : Draws) (found : FoundTransfer) : LedgerTransactionInput where
  reference := "reversal:" ++ (draws.id .transferReversal).text
  currency := found.transfer.currency
  description := some "Internal transfer reversal"
  postings := [⟨found.sourceWallet.ledgerAccountId.text, found.transfer.amountMinor⟩,
    ⟨found.destinationWallet.ledgerAccountId.text, -found.transfer.amountMinor⟩]

/-- The reversal that is created after the ledger transaction. -/
def newReversal (draws : Draws) (actorUserId : Uuid) (t : Transfer) (ledgerTransactionId : Uuid)
    (reason : Option String) : TransferReversal where
  id := draws.id .transferReversal
  reference := "reversal:" ++ (draws.id .transferReversal).text
  transferId := t.id
  actorUserId := actorUserId
  ledgerTransactionId := ledgerTransactionId
  currency := t.currency
  amountMinor := t.amountMinor
  reason := reason
  createdAt := draws.createdAt .transferReversal

def reversedAudit (draws : Draws) (r : TransferReversal) : AuditLog where
  id := draws.id .auditLog
  actorUserId := r.actorUserId
  action := .transferReversed
  transferId := r.transferId
  reversalId := some r.id
  createdAt := draws.createdAt .auditLog

def reversedEvent (draws : Draws) (r : TransferReversal) : OutboxEvent where
  id := draws.id .outboxEvent
  type := .transferReversed
  aggregateType := "TransferReversal"
  aggregateId := r.id
  actorUserId := r.actorUserId
  payload := [("reversalId", r.id.text), ("transferId", r.transferId.text),
    ("amountMinor", toString r.amountMinor), ("currency", r.currency.text)]
  availableAt := draws.createdAt .outboxEvent
  createdAt := draws.createdAt .outboxEvent

def work (draws : Draws) (actorUserId : Uuid) (request : NormalizedReversalRequest) : Tx TransferReversal := do
  let _ ← lockTransfer request.transferId
  let found ← Tx.query (findTransfer request.transferId actorUserId)
  let found ← Prog.orThrow (notFound "Transfer not found") found
  Prog.throwIf (found.transfer.status ≠ .completed) (conflict "Only completed transfers can be reversed")
  Prog.throwIf found.reversal.isSome (conflict "Transfer has already been reversed")
  Prog.throwIf (found.sourceWallet.status ≠ .active ∨ found.destinationWallet.status ≠ .active)
    (conflict "Both transfer wallets must be active before reversal")
  let (ledgerTransaction, _) ← LedgerService.postWithinTransaction draws (ledgerInput draws found)
  Tx.setConfig fun s => { s with reversalWrite := true }
  let reversal := newReversal draws actorUserId found.transfer ledgerTransaction.id request.reason
  Tx.create (.transferReversal reversal)
  Tx.setConfig fun s => { s with auditWrite := true }
  Tx.create (.auditLog (reversedAudit draws reversal))
  Tx.createMany fun db =>
    .ok (db.eventRows (reversedEvent draws reversal) draws.delivery (draws.createdAt .webhookDelivery))
  return reversal

def create (sha256Hex : String → String) (draws : Draws) (actorUserId : Uuid) (transferId : String)
    (idempotencyKeyHeader : Option String) (input : CreateReversalDto) : Call :=
  match normalizeIdempotencyKey idempotencyKeyHeader with
  | .error e => .done (failed e)
  | .ok key =>
      let request := normalizeRequest transferId input
      scope.create draws actorUserId key (hashRequest sha256Hex request) (work draws actorUserId request)

end ReversalsService

end Fintech
