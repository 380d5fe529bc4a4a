import Fintech.Model.Constraints

/-!
# Statements

What the services send to the database inside a transaction: one row inserted or updated with
everything the table checks on the way, rows locked, settings switched on, and the commit itself,
which runs the deferred constraint triggers.
-/

namespace Fintech
open Relational Transactional

abbrev Statement (α : Type) := Db → Settings → Except DbError (α × Effect Settings Row Key)

/-- The body of an interactive transaction. -/
abbrev Tx (α : Type) := Prog Db Settings Row Key DbError HttpException α

namespace Db

/-- `INSERT` of one row: triggers, column checks, unique indexes, foreign keys. -/
def insert (db : Db) (s : Settings) (r : Row) : Except DbError Settings := do
  beforeInsert db s r
  r.accept
  failIf (∃ k ∈ r.keys, db.taken k) .uniqueViolation
  failIf (∃ k ∈ r.references, ¬ db.taken k) .foreignKeyViolation
  return { s with deferred := s.deferred ++ [r] }

def insertAll : Db → Settings → List Row → Except DbError Settings
  | _, s, [] => .ok s
  | db, s, r :: rs => do (db.put r).insertAll (← db.insert s r) rs

/-- `UPDATE` of the row `old` to `new`, which has the same primary key. -/
def update (db : Db) (s : Settings) (old new : Row) : Except DbError Settings := do
  beforeUpdate s old new
  new.accept
  failIf (∃ k ∈ new.slots, k ∉ old.slots ∧ db.taken k) .uniqueViolation
  failIf (∃ k ∈ new.references, ¬ db.taken k) .foreignKeyViolation
  return { s with deferred := s.deferred ++ deferredOnUpdate new }

variable {db : Db} {s s' : Settings} {r old new : Row}

theorem insert_eq_ok : db.insert s r = .ok s' ↔
    beforeInsert db s r = .ok () ∧ r.accept = .ok () ∧ (∀ k ∈ r.keys, db.taken k = false) ∧
      (∀ k ∈ r.references, db.taken k) ∧ { s with deferred := s.deferred ++ [r] } = s' := by
  simp [insert, bind_unit_eq_ok, pure, Except.pure, -bind_eq_ok]

/-- An inserted row has a new primary key. -/
theorem insert_fresh (h : db.insert s r = .ok s') {r' : Row} (mem : r' ∈ db) : r'.pk ≠ r.pk := by
  intro same
  exact not_taken_iff.mp ((insert_eq_ok.mp h).2.2.1 _ r.pk_mem_keys) r' mem (same ▸ r'.pk_mem_keys)

/-- The rows after a list of inserts: all of them were new. -/
theorem mem_insertAll {rs : List Row} (h : db.insertAll s rs = .ok s') :
    (∀ x : Row, x ∈ applyAll db rs ↔ x ∈ db ∨ x ∈ rs) ∧ ∀ r ∈ rs, ∀ x ∈ db, x.pk ≠ r.pk := by
  induction rs generalizing db s with
  | nil => simp
  | cons r rs ih =>
      simp only [insertAll, bind_eq_ok] at h
      obtain ⟨s₁, first, rest⟩ := h
      obtain ⟨mem, fresh⟩ := ih rest
      have new (x : Row) (hx : x ∈ db) := insert_fresh first hx
      refine ⟨fun x => ?_, fun r' hr' x hx => ?_⟩
      · rw [applyAll_cons, store_apply, mem, mem_put, List.mem_cons]
        constructor
        · rintro ((rfl | ⟨hx, _⟩) | hx)
          · exact .inr (.inl rfl)
          · exact .inl hx
          · exact .inr (.inr hx)
        · rintro (hx | rfl | hx)
          · exact .inl (.inr ⟨hx, new x hx⟩)
          · exact .inl (.inl rfl)
          · exact .inr hx
      · rcases List.mem_cons.mp hr' with rfl | hr'
        · exact new x hx
        · exact fresh r' hr' x (mem_put.mpr (.inr ⟨hx, new x hx⟩))

theorem update_eq_ok : db.update s old new = .ok s' ↔
    beforeUpdate s old new = .ok () ∧ new.accept = .ok () ∧
      (∀ k ∈ new.slots, k ∉ old.slots → db.taken k = false) ∧ (∀ k ∈ new.references, db.taken k) ∧
      { s with deferred := s.deferred ++ deferredOnUpdate new } = s' := by
  simp [update, bind_unit_eq_ok, pure, Except.pure, -bind_eq_ok]

/-! ## The fan-out trigger -/

/-- `fan_out_webhook_event`: a delivery for every enabled subscription of the actor. -/
def fanOut (db : Db) (event : OutboxEvent) (delivery : Uuid → Uuid) (now : Time) : List WebhookDelivery :=
  (db.webhookSubscriptions.rows.filter fun s =>
    s.userId = event.actorUserId ∧ s.enabled ∧ ¬ db.taken (.deliveryEvent s.id event.id)).map fun s =>
      { id := delivery s.id, subscriptionId := s.id, outboxEventId := event.id, availableAt := now, createdAt := now }

/-- The rows that inserting an outbox event inserts. -/
def eventRows (db : Db) (event : OutboxEvent) (delivery : Uuid → Uuid) (now : Time) : List Row :=
  .outboxEvent event :: (db.fanOut event delivery now).map .webhookDelivery

end Db

/-! ## Statements of a transaction -/

namespace Tx

/-- A query that can fail. -/
def query {α : Type} (f : Db → Except DbError α) : Tx α :=
  Prog.exec fun db s => do return (← f db, { locals := s })

/-- `SELECT … FOR UPDATE`: the rows found stay locked. -/
def lock {α : Type} (f : Db → Except DbError α) (found : α → List Row) : Tx α :=
  Prog.exec fun db s => do
    let a ← f db
    return (a, { locals := s, locks := (found a).map Row.pk })

def setConfig (f : Settings → Settings) : Tx Unit := Prog.exec fun _ s => .ok ((), { locals := f s })

def create (r : Row) : Tx Unit :=
  Prog.exec fun db s => do return ((), { locals := ← db.insert s r, writes := [r] })

/-- Several rows in one statement, or one row with those that its triggers insert. -/
def createMany (rows : Db → Except DbError (List Row)) : Tx Unit :=
  Prog.exec fun db s => do
    let rows ← rows db
    return ((), { locals := ← db.insertAll s rows, writes := rows })

/-- The row that `find` finds, updated; the updated row is returned. -/
def update {ρ : Type} (find : Db → Option ρ) (row : ρ → Row) (f : ρ → ρ) : Tx ρ :=
  Prog.exec fun db s =>
    match find db with
    | none => .error .recordNotFound
    | some old => do return (f old, { locals := ← db.update s (row old) (row (f old)), writes := [row (f old)] })

/-- `COMMIT`: every constraint trigger that is due runs. -/
def commit : Tx Unit :=
  Prog.exec fun db s => do
    s.deferred.forM (atCommit db)
    return ((), { locals := s })

end Tx

def findOrThrow {α : Type} : Option α → Except DbError α
  | some a => .ok a
  | none => .error .recordNotFound

theorem findOrThrow_eq_ok {α : Type} {o : Option α} {a : α} : findOrThrow o = .ok a ↔ o = some a := by
  cases o <;> simp [findOrThrow]

def castUuid (text : String) : Except DbError Uuid :=
  match Uuid.parse? text with
  | some id => .ok id
  | none => .error (.invalidUuid text)

theorem castUuid_eq_ok {text : String} {id : Uuid} : castUuid text = .ok id ↔ Uuid.parse? text = some id := by
  cases h : Uuid.parse? text <;> simp [castUuid, h]

/-- What the source takes from `randomUUID`, from column defaults and from the clocks during one
transaction: the id and the time of the row it inserts into each table, the ids of the rows inserted
several at a time, a UUID for a reference, and the `new Date()` it writes to a row of the table. -/
structure Draws where
  id : TableName → Uuid
  reference : Uuid
  posting : Uuid → Uuid
  delivery : Uuid → Uuid
  createdAt : TableName → Time
  date : TableName → Time

end Fintech
