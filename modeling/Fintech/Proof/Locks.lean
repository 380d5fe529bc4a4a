import Fintech.Model.Locks
import Fintech.Proof.Deeds
import Mathlib.Data.Prod.Lex
import Mathlib.Data.String.Basic

/-!
# No deadlock between money operations

Locks are ranked by their kind, and ledger accounts further by their id. A wallet has no place in that
order: whoever locks it already holds its ledger account.
-/

namespace Fintech
open Relational Transactional Locking

/-- The kinds of locks in the order in which the code comes to them. -/
def lockStage : Key → ℕ
  | .idempotencyKey _ _ _ => 0
  | .row .transfer _ | .row .payment _ => 1
  | .providerEventId _ _ => 2
  | .row .ledgerAccount _ => 3
  | .ledgerReference _ => 4
  | _ => 5

def lockRank (l : Key) : ℕ ×ₗ String :=
  toLex (lockStage l, match l with
    | .row .ledgerAccount id => id.text
    | _ => "")

/-- A wallet is only locked under its ledger account. -/
def lockGuard (accountOf : Uuid → Uuid) : Key → Option Key
  | .row .wallet id => some (.row .ledgerAccount (accountOf id))
  | _ => none

/-- What the body asks for comes in order after `ks`, and `Q` holds where it ends. -/
abbrev Tx.Asks {α : Type} (accountOf : Uuid → Uuid) (base : Nat → Db) (body : Tx α)
    (Q : Except HttpException α → View Settings Row Key → List Key → Prop) (v : View Settings Row Key) (ks : List Key) : Prop :=
  Prog.Asks lockRequests lockRank (lockGuard accountOf) base Q body v ks

/-! ## What statements ask for -/

section
variable {db : Db}

end

/-! ## Rules -/

section
variable {α β : Type}

end

section
variable {α β : Type} {accountOf : Uuid → Uuid} {base : Nat → Db} {v : View Settings Row Key} {ks : List Key}
  {Q : Except HttpException α → View Settings Row Key → List Key → Prop}

end

/-! ## Postings -/

/-- The wallets belong to the accounts that `accountOf` says. -/
def Db.Linked (accountOf : Uuid → Uuid) (db : Db) : Prop := ∀ w ∈ db.wallets, w.ledgerAccountId = accountOf w.id

section
variable {accountOf : Uuid → Uuid} {db : Db}

theorem Db.Linked.put (h : db.Linked accountOf) {r : Row} (other : r.table ≠ .wallet) : (db.put r).Linked accountOf := by
  have same : (db.put r).wallets = db.wallets := by
    have put := Slice.wallets.put db r
    rwa [Slice.wallets.of_eq_none other] at put
  rw [Db.Linked, same]
  exact h

theorem Db.Linked.applyAll (h : db.Linked accountOf) {rs : List Row} (other : ∀ r ∈ rs, r.table ≠ .wallet) :
    (applyAll db rs).Linked accountOf := by
  induction rs generalizing db with
  | nil => exact h
  | cons r rs ih => exact ih (h.put (other r List.mem_cons_self)) fun r' hr' => other r' (List.mem_cons_of_mem r hr')

end

section
variable {α : Type} {accountOf : Uuid → Uuid} {s : Db} {v : View Settings Row Key} {ks : List Key}

namespace LedgerService

end LedgerService

end

/-! ## Bodies -/

section
variable {α : Type} {accountOf : Uuid → Uuid} {base : Nat → Db} {v : View Settings Row Key} {ks : List Key}

namespace TransfersService

end TransfersService

namespace ReversalsService

end ReversalsService

/-! ### Settlements -/

namespace PaymentsService

end PaymentsService

/-! ### Wallets -/

namespace WalletsService

end WalletsService

/-! ### The other operations -/

end

/-! ## No deadlock -/

/-- The accounts of the wallets, as the last state has them. -/
def accountOf (db : Db) (walletId : Uuid) : Uuid := ((db.wallets.find? walletId).map Wallet.ledgerAccountId).getD walletId

theorem Db.Extends.linked {before after : Db} (h : after.Extends before) : before.Linked (Fintech.accountOf after) := by
  intro w hw
  obtain ⟨w', hw', same⟩ := h.wallet hw
  obtain ⟨id, _, account, _⟩ := Wallet.identity_eq.mp same
  have found : after.wallets.find? w.id = some w' := Table.find?_eq_some.mpr ⟨hw', id⟩
  simp [Fintech.accountOf, found, account]

section
variable {sha256Hex : String → String}
  {c : Config Db Settings Row Key DbError HttpException AttemptOutcome Result Request}

end

/-! ## Three operations -/

end Fintech
