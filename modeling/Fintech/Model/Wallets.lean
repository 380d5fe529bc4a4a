import Fintech.Model.Idempotency

/-!
# Users and wallets

`UsersService.createWithInitialWallet` as `AuthService.register` calls it, and `WalletsService`.
-/

namespace Fintech
open Relational Transactional

def toWalletResponse (w : Wallet) : WalletResponse where
  id := w.id
  currency := w.currency
  status := w.status
  currentBalanceMinor := toString w.currentBalanceMinor
  createdAt := w.createdAt
  updatedAt := w.updatedAt

/-- The account and the wallet that are created together. -/
def newAccount (draws : Draws) (currency : Currency) : LedgerAccount where
  id := draws.id .ledgerAccount
  kind := .wallet
  currency := currency

def newWallet (draws : Draws) (userId : Uuid) (currency : Currency) : Wallet where
  id := draws.id .wallet
  userId := userId
  ledgerAccountId := draws.id .ledgerAccount
  currency := currency
  createdAt := draws.createdAt .wallet
  updatedAt := draws.date .wallet

namespace UsersService

structure CreateUserInput where
  email : String
  passwordHash : String
  firstName : String
  lastName : String
  currency : Option Currency := none
  deriving DecidableEq

def normalizeEmail (email : String) : String := toLowerCase (jsTrim email)

def newUser (draws : Draws) (input : CreateUserInput) : User where
  id := draws.id .user
  email := normalizeEmail input.email
  passwordHash := input.passwordHash
  firstName := jsTrim input.firstName
  lastName := jsTrim input.lastName
  createdAt := draws.createdAt .user
  updatedAt := draws.date .user

def toSafeUser (u : User) : SafeUser :=
  ⟨u.id, u.email, u.firstName, u.lastName, u.createdAt, u.updatedAt⟩

def createWithInitialWallet (draws : Draws) (input : CreateUserInput) : Tx AttemptOutcome := do
  let currency := input.currency.getD .usd
  let user := newUser draws input
  Tx.create (.user user)
  Tx.create (.ledgerAccount (newAccount draws currency))
  Tx.create (.wallet (newWallet draws user.id currency))
  return .ok (.registered (toSafeUser user) (toWalletResponse (newWallet draws user.id currency)))

end UsersService

/-- `AuthService.register`, without the access token that it issues. -/
def AuthService.register (draws : Draws) (input : UsersService.CreateUserInput) : Call :=
  let taken : Failure := .http (conflict "An account with this email already exists")
  .query fun db =>
    if db.users.rows.any fun u => u.email = UsersService.normalizeEmail input.email then .done (.error taken)
    else .transaction .readCommitted (Tx.committing (UsersService.createWithInitialWallet draws input)) fun
      | .committed outcome => .done (unwrapOutcome outcome)
      | .thrown e => .done (failed e)
      | .aborted .uniqueViolation => .done (.error taken)
      | .aborted d => .done (.error (.database d))

namespace WalletsService

def createWallet (draws : Draws) (userId : Uuid) (currency : Currency) : Tx AttemptOutcome := do
  Tx.create (.ledgerAccount (newAccount draws currency))
  Tx.create (.wallet (newWallet draws userId currency))
  return .ok (.wallet (toWalletResponse (newWallet draws userId currency)))

def create (draws : Draws) (userId : Uuid) (currency : Currency) : Call :=
  .transaction .readCommitted (Tx.committing (createWallet draws userId currency)) fun
    | .committed outcome => .done (unwrapOutcome outcome)
    | .thrown e => .done (failed e)
    | .aborted .uniqueViolation =>
        .done (failed (conflict s!"A {currency.text} wallet already exists for this account"))
    | .aborted d => .done (.error (.database d))

def findTarget (walletId : String) (userId : Uuid) (db : Db) : Except DbError (Option Wallet) := do
  return (db.wallets.find? (← castUuid walletId)).filter fun w => w.userId = userId

def lockAccount (id : Uuid) : Tx (Option LedgerAccount) :=
  Tx.lock (fun db => return db.ledgerAccounts.find? id) fun a => (a.map Row.ledgerAccount).toList

def lockWallet (id : Uuid) : Tx (Option Wallet) :=
  Tx.lock (fun db => return db.wallets.find? id) fun w => (w.map Row.wallet).toList

/-- The callback of `$transaction` in `close`. -/
def closeWallet (draws : Draws) (userId : Uuid) (walletId : String) : Tx Wallet := do
  let found ← Tx.query (findTarget walletId userId)
  let target ← Prog.orThrow (notFound "Wallet not found") found
  let _ ← lockAccount target.ledgerAccountId
  let _ ← lockWallet target.id
  let current ← Tx.query fun db => findOrThrow (db.wallets.find? target.id)
  if current.status = .closed then return current
  else do
    Prog.throwIf (current.status = .frozen) (conflict "A frozen wallet cannot be closed")
    Prog.throwIf (current.currentBalanceMinor ≠ 0) (conflict "Wallet balance must be zero before it can be closed")
    Tx.update (·.wallets.find? current.id) .wallet fun w =>
      { w with status := .closed, updatedAt := draws.date .wallet }

def close (draws : Draws) (userId : Uuid) (walletId : String) : Call :=
  let body := do
    let wallet ← closeWallet draws userId walletId
    return .ok (.wallet (toWalletResponse wallet))
  .transaction .readCommitted (Tx.committing body) fun
    | .committed outcome => .done (unwrapOutcome outcome)
    | .thrown e => .done (failed e)
    | .aborted d => .done (.error (.database d))

end WalletsService

end Fintech
