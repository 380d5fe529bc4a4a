import Fintech.Library.ProgramLocks
import Fintech.Model.System

/-!
# The locks of the money operations

A row that a statement selects `FOR UPDATE` or updates stays locked, and so does an entry that it adds to a unique index, which
makes a concurrent insert of the same entry wait. What the services come to lock is what the effects of their statements tell.
-/

namespace Fintech
open Relational Transactional

/-- The keys that money operations contend for. What else they lock names a row that they have drawn themselves, or belongs
to the transfer or payment that they have locked. -/
def isContended : Key → Bool
  | .idempotencyKey _ _ _ | .providerEventId _ _ | .ledgerReference _ => true
  | .row table _ => [.transfer, .payment, .ledgerAccount, .wallet].contains table
  | _ => false

/-- Writing a row locks it, or for a new row its entries in the unique indexes. -/
def Db.locks (db : Db) (r : Row) : List Key := if db.taken r.pk then [r.pk] else r.slots

/-- What a statement asks for, one lock after another. -/
def lockRequests (db : Db) (e : Effect Settings Row Key) : List Key :=
  (e.locks ++ e.writes.flatMap db.locks).filter isContended

abbrev Transaction := Operation Db Settings Row Key DbError HttpException AttemptOutcome

/-- A transaction that a request can come to; its statements see commits of the log as its isolation lets them. -/
inductive Begins (sha256Hex : String → String) (initial : Db) (log : List (Entry Request Row)) : Transaction → Prop
  | request {i isolation body next bases} : (program sha256Hex i).Leads (.transaction isolation body next) →
      System.Seen isolation 0 log.length bases →
      Begins sha256Hex initial log ⟨fun n => stateAt initial log (bases n), body, { locals := {} }⟩

/-- The transactions of the services as they lock. -/
def transactions (sha256Hex : String → String) (initial : Db) (log : List (Entry Request Row)) :
    Locking.Machine Transaction Key := Operation.machine (Begins sha256Hex initial log) lockRequests

end Fintech
