import Fintech.Model.System

/-!
# The ledger migration

`20260911143000_ledger_core`: the wallets that exist before the ledger get an account each, and what
they hold becomes an opening transaction against the clearing account of their currency. The
statements run before the triggers of the ledger exist, so only the columns, the CHECKs, the keys and
the foreign keys of the tables are in force.
-/

namespace Fintech.LedgerCore
open Relational Transactional

/-- A row of "Wallet" before the migration. -/
structure PreLedgerWallet where
  id : Uuid
  userId : Uuid
  currency : Currency
  status : WalletStatus := .active
  currentBalanceMinor : Int := 0
  createdAt : Time
  updatedAt : Time
  deriving DecidableEq

instance : Keyed PreLedgerWallet Uuid := ⟨PreLedgerWallet.id⟩

/-- The column "ledgerAccountId" added and set to the id of the wallet. -/
def linked (w : PreLedgerWallet) : Wallet where
  id := w.id
  userId := w.userId
  ledgerAccountId := w.id
  currency := w.currency
  status := w.status
  currentBalanceMinor := w.currentBalanceMinor
  createdAt := w.createdAt
  updatedAt := w.updatedAt

def walletAccount (w : PreLedgerWallet) : LedgerAccount where
  id := w.id
  kind := .wallet
  currency := w.currency
  balanceMinor := w.currentBalanceMinor

def linkedTable (wallets : Table PreLedgerWallet) : Table Wallet where
  rows := wallets.rows.map linked
  unique := by
    rw [List.map_map, show key ∘ linked = (key : PreLedgerWallet → Uuid) from rfl]
    exact wallets.unique

/-! ## The opening transaction of a wallet -/

def openingReference (w : Wallet) : String := "migration:opening:" ++ w.id.text

def clearingId : Currency → Uuid
  | .usd => usdClearing.id
  | .ngn => ngnClearing.id

section
variable (md5 : String → Uuid)

def openingId (w : Wallet) : Uuid := md5 ("opening-ledger-transaction:" ++ w.id.text)

def openingTransaction (now : Time) (w : Wallet) : LedgerTransaction where
  id := openingId md5 w
  reference := openingReference w
  currency := w.currency
  description := some "Opening balance migrated into ledger"
  createdAt := w.createdAt
  sealedAt := some now

def walletPosting (w : Wallet) : LedgerPosting where
  id := md5 ("opening-wallet-posting:" ++ w.id.text)
  ledgerTransactionId := openingId md5 w
  accountId := w.ledgerAccountId
  amountMinor := w.currentBalanceMinor

def clearingPosting (w : Wallet) : LedgerPosting where
  id := md5 ("opening-clearing-posting:" ++ w.id.text)
  ledgerTransactionId := openingId md5 w
  accountId := clearingId w.currency
  amountMinor := -w.currentBalanceMinor

end

/-! ## The statements -/

/-- The columns and CHECKs of the migration; the time of the seal is checked by a later one. -/
def check (r : Row) : Except DbError Unit :=
  match (r.checks.filter fun c => c.1 ≠ "LedgerTransaction_sealed_time_check").find? (fun c => !c.2) with
  | some c => .error (.checkViolation c.1)
  | none => .ok ()

/-- The unique index on "systemKey" does not exist when the accounts are inserted. -/
def indexed : Row → List Key
  | .ledgerAccount r => [Row.pk (.ledgerAccount r)]
  | r => r.keys

def insert (db : Db) (r : Row) : Except DbError Db := do
  check r
  failIf (∃ k ∈ indexed r, db.taken k) .uniqueViolation
  failIf (∃ k ∈ r.references, ¬ db.taken k) .foreignKeyViolation
  return db.put r

def insertAll (db : Db) (rows : List Row) : Except DbError Db := rows.foldlM insert db

/-- `CREATE UNIQUE INDEX` on "LedgerAccount" and "Wallet"; the other two tables are still empty. -/
def createUniqueIndexes (db : Db) : Except DbError Unit := do
  failIf (¬ (db.ledgerAccounts.rows.filterMap LedgerAccount.systemKey).Nodup) .uniqueViolation
  failIf (¬ (db.wallets.rows.map Wallet.ledgerAccountId).Nodup) .uniqueViolation

/-- `ADD CONSTRAINT "Wallet_ledgerAccountId_fkey"`. -/
def addForeignKeys (db : Db) : Except DbError Unit :=
  failIf (∃ w ∈ db.wallets.rows, ¬ db.taken (.row .ledgerAccount w.ledgerAccountId)) .foreignKeyViolation

/-- `SUM("currentBalanceMinor")`, for a currency that some wallet has. -/
def openingTotal (wallets : List Wallet) (currency : Currency) : Option Int :=
  let group := wallets.filter fun w => w.currency = currency
  if group.isEmpty then none else some (group.map Wallet.currentBalanceMinor).sum

def settled (wallets : List Wallet) (account : LedgerAccount) : LedgerAccount :=
  match account.kind, openingTotal wallets account.currency with
  | .system, some total => { account with balanceMinor := -total }
  | _, _ => account

theorem settled_id (wallets : List Wallet) (account : LedgerAccount) : key (settled wallets account) = key account := by
  unfold settled
  split <;> rfl

def settleClearing (db : Db) : Except DbError Db := do
  let accounts := db.ledgerAccounts.modify (settled db.wallets.rows) (settled_id db.wallets.rows)
  accounts.rows.forM fun a => check (.ledgerAccount a)
  return { db with ledgerAccounts := accounts }

def migrate (md5 : String → Uuid) (now : Time) (users : Table User) (wallets : Table PreLedgerWallet) :
    Except DbError Db := do
  let db ← insertAll { users } [.ledgerAccount usdClearing, .ledgerAccount ngnClearing]
  let db ← insertAll db (wallets.rows.map fun w => .ledgerAccount (walletAccount w))
  let db := { db with wallets := linkedTable wallets }
  createUniqueIndexes db
  addForeignKeys db
  let funded := db.wallets.rows.filter fun w => w.currentBalanceMinor ≠ 0
  let db ← insertAll db (funded.map fun w => .ledgerTransaction (openingTransaction md5 now w))
  let db ← insertAll db (funded.map fun w => .ledgerPosting (walletPosting md5 w))
  let db ← insertAll db (funded.map fun w => .ledgerPosting (clearingPosting md5 w))
  settleClearing db

end Fintech.LedgerCore
