import Fintech.Library.Snapshot
import Fintech.Model.Statements
import Mathlib.Data.List.Sort

/-!
# Ledger

`ledger.invariants.ts` and `LedgerService`, with the trigger that copies an account's balance to its
wallet.
-/

namespace Fintech
open Relational Transactional

structure LedgerPostingInput where
  accountId : String
  amountMinor : Int
  deriving DecidableEq

structure LedgerTransactionInput where
  reference : String
  currency : Currency
  description : Option String := none
  postings : List LedgerPostingInput
  deriving DecidableEq

def maxPostings : Nat := 50

def isSupportedMinorUnitValue (value : Int) : Bool := isBigInt value

/-- The loop over the postings; the ids seen and the total so far are its state. -/
def normalizePostings : List String → Int → List LedgerPostingInput → Except HttpException Int
  | _, total, [] => .ok total
  | accountIds, total, posting :: postings => do
      failIf (¬ isUuidV4 posting.accountId) (badRequest "Ledger posting account IDs must be UUID v4 values")
      failIf (posting.amountMinor = 0) (badRequest "Ledger postings cannot have a zero amount")
      failIf (¬ isSupportedMinorUnitValue posting.amountMinor)
        (badRequest "Ledger posting amount exceeds the supported BIGINT range")
      failIf (posting.accountId ∈ accountIds)
        (badRequest "A ledger transaction can post to an account only once")
      normalizePostings (posting.accountId :: accountIds) (total + posting.amountMinor) postings

def normalizeLedgerTransactionInput (input : LedgerTransactionInput) :
    Except HttpException LedgerTransactionInput := do
  let reference := jsTrim input.reference
  failIf (jsLength reference = 0 ∨ 120 < jsLength reference)
    (badRequest "Ledger reference must be between 1 and 120 characters")
  let description := (input.description.map jsTrim).filter (· ≠ "")
  failIf (description.any fun d => 255 < jsLength d) (badRequest "Ledger description cannot exceed 255 characters")
  failIf (input.postings.length < 2) (badRequest "A ledger transaction requires at least two postings")
  failIf (maxPostings < input.postings.length)
    (badRequest s!"A ledger transaction cannot exceed {maxPostings} postings")
  let total ← normalizePostings [] 0 input.postings
  failIf (total ≠ 0) (badRequest "Ledger postings must sum to zero")
  return { reference, currency := input.currency, description, postings := input.postings }

def Db.walletOf (db : Db) (ledgerAccountId : Uuid) : Option Wallet :=
  db.wallets.rows.find? fun w => w.ledgerAccountId = ledgerAccountId

/-- `syncWalletBalanceFromLedgerAccount`: the wallet row it updates, if any. -/
def syncWalletBalanceFromLedgerAccount (db : Db) (s : Settings) (old new : LedgerAccount) (now : Time) :
    Except DbError (Settings × List Row) :=
  if new.kind = .wallet ∧ new.balanceMinor ≠ old.balanceMinor then
    match db.walletOf new.id with
    | none => .error (.raised "wallet ledger account is missing its product wallet")
    | some w => do
        let synced := { w with currentBalanceMinor := new.balanceMinor, updatedAt := now }
        return (← db.update s (.wallet w) (.wallet synced), [.wallet synced])
  else .ok (s, [])

/-- `ledgerAccount.update` of the balance. -/
def updateLedgerAccount (id : Uuid) (balanceMinor : Int) (now : Time) : Tx Unit :=
  Prog.exec fun db s =>
    match db.ledgerAccounts.find? id with
    | none => .error .recordNotFound
    | some old => do
        let new := { old with balanceMinor := balanceMinor }
        let s ← db.update s (.ledgerAccount old) (.ledgerAccount new)
        let (s, synced) ← syncWalletBalanceFromLedgerAccount db s old new now
        return ((), { locals := s, writes := .ledgerAccount new :: synced })

namespace LedgerService

/-- `SELECT … WHERE "id" IN (…) ORDER BY "id" FOR UPDATE` -/
def lockAccounts (accountIds : List String) : Tx (List LedgerAccount) :=
  Tx.lock (fun db => do
    let ids ← accountIds.mapM castUuid
    return (db.ledgerAccounts.rows.filter (·.id ∈ ids)).insertionSort fun a b => a.id.text ≤ b.id.text)
    (List.map Row.ledgerAccount)

/-- The accounts with these ids, each with its wallet. -/
def findAccounts (accountIds : List String) (db : Db) : List (LedgerAccount × Option Wallet) :=
  (db.ledgerAccounts.rows.filter fun a => accountIds.any fun id => Uuid.parse? id = some a.id).map fun a =>
    (a, db.walletOf a.id)

/-- One turn of the loop that checks the postings: the account and its next balance. -/
def nextBalance (accounts : List (LedgerAccount × Option Wallet)) (currency : Currency)
    (posting : LedgerPostingInput) : Except HttpException (Uuid × Int) := do
  let some (account, wallet) := accounts.find? fun a => a.1.id.text = posting.accountId
    | .error (notFound "One or more ledger accounts do not exist")
  failIf (account.currency ≠ currency) (badRequest "All ledger accounts must use the transaction currency")
  match account.kind, wallet with
  | .wallet, none => .error (internalServerError "Wallet ledger account is not linked to a product wallet")
  | .wallet, some wallet => do
      failIf (wallet.currency ≠ account.currency)
        (internalServerError "Wallet and ledger account currencies are inconsistent")
      failIf (wallet.currentBalanceMinor ≠ account.balanceMinor)
        (internalServerError "Wallet balance snapshot is inconsistent with its ledger account")
      failIf (wallet.status ≠ .active) (conflict "Only active wallets can receive ledger postings")
  | .system, wallet =>
      failIf wallet.isSome (internalServerError "System ledger accounts cannot be linked to product wallets")
  let nextBalance := account.balanceMinor + posting.amountMinor
  failIf (¬ isSupportedMinorUnitValue nextBalance)
    (conflict "Ledger posting would exceed the supported BIGINT range")
  failIf (¬ account.allowNegative ∧ nextBalance < 0) (conflict "Insufficient funds for ledger posting")
  return (account.id, nextBalance)

def postingRow (draws : Draws) (ledgerTransactionId : Uuid) (posting : LedgerPostingInput) :
    Except DbError LedgerPosting := do
  let accountId ← castUuid posting.accountId
  return { id := draws.posting accountId, ledgerTransactionId, accountId, amountMinor := posting.amountMinor }

/-- The sealed transaction with its postings by account. -/
abbrev Posted := LedgerTransaction × List LedgerPosting

def findPosted (id : Uuid) (db : Db) : Except DbError Posted := do
  let t ← findOrThrow (db.ledgerTransactions.find? id)
  return (t, (db.postingsOf id).insertionSort fun a b => a.accountId.text ≤ b.accountId.text)

def postWithinTransaction (draws : Draws) (input : LedgerTransactionInput) : Tx Posted := do
  let normalized ← Prog.lift (normalizeLedgerTransactionInput input)
  let accountIds := normalized.postings.map LedgerPostingInput.accountId
  let _ ← lockAccounts accountIds
  let accounts ← Prog.read (findAccounts accountIds)
  Prog.throwIf (accounts.length ≠ accountIds.length) (notFound "One or more ledger accounts do not exist")
  let nextBalances ← Prog.lift (normalized.postings.mapM (nextBalance accounts normalized.currency))
  Tx.setConfig fun s => { s with ledgerWrite := true }
  let ledgerTransaction : LedgerTransaction :=
    { id := draws.id .ledgerTransaction, reference := normalized.reference, currency := normalized.currency,
      description := normalized.description, createdAt := draws.createdAt .ledgerTransaction }
  Tx.create (.ledgerTransaction ledgerTransaction)
  Tx.createMany fun _ => return (← normalized.postings.mapM (postingRow draws ledgerTransaction.id)).map .ledgerPosting
  Prog.each (fun account => do
    let nextBalance ← Prog.orThrow (internalServerError "Ledger balance calculation was incomplete")
      (nextBalances.lookup account.id)
    updateLedgerAccount account.id nextBalance (draws.date .wallet)) (accounts.map Prod.fst)
  let _ ← Tx.update (·.ledgerTransactions.find? ledgerTransaction.id) .ledgerTransaction fun t =>
    { t with sealedAt := some (draws.date .ledgerTransaction) }
  Tx.query (findPosted ledgerTransaction.id)

end LedgerService

end Fintech
