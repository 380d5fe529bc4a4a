import Fintech.Library.Runs
import Fintech.Model.Statements
import Mathlib.Data.List.Sort

/-!
# Outbox worker and notifications

`AsyncWorkerService` claims batches of outbox events, adds a job for each to the queue and records
the outcome; `NotificationService` executes the jobs. Any number of workers run between one
another's database calls, may stop at any point, and act on the event rows as their own claim
returned them.
-/

namespace Fintech
open Relational Transition

namespace AsyncWorkerService

/-- The `WHERE` of the claim. -/
def claimable (now : Time) (e : OutboxEvent) : Bool :=
  (e.status == .pending && e.availableAt ≤ now) ||
    (e.status == .processing && e.lockedAt.any (· < now - 300000))

/-- The rows of the `candidates` query; `locked` are the rows it skips. -/
def candidates (db : Db) (now : Time) (locked : Uuid → Bool) : List OutboxEvent :=
  ((db.outboxEvents.rows.filter fun e => claimable now e && !locked e.id).mergeSort
    fun a b => a.createdAt ≤ b.createdAt).take 25

def claim (now : Time) (e : OutboxEvent) : OutboxEvent :=
  { e with status := .processing, lockedAt := some now, lastError := none }

def claimBatch (db : Db) (now : Time) (locked : Uuid → Bool) : Db × List OutboxEvent :=
  let claimed := (candidates db now locked).map (claim now)
  ({ db with outboxEvents := db.outboxEvents.putAll claimed }, claimed)

/-- `outboxEvent.update`. -/
def updateEvent (db : Db) (id : Uuid) (f : OutboxEvent → OutboxEvent) : Except DbError Db :=
  match db.outboxEvents.find? id with
  | none => .error .recordNotFound
  | some e => do
      (Row.outboxEvent (f e)).accept
      return { db with outboxEvents := db.outboxEvents.put (f e) }

/-- The update after a successful `queue.add`. -/
def published (now : Time) (e : OutboxEvent) : OutboxEvent :=
  { e with status := .published, lockedAt := none, publishedAt := some now }

/-- The update on the failure path; `claimed` is the row as it was claimed. -/
def released (claimed : OutboxEvent) (now : Time) (error : String) (e : OutboxEvent) : OutboxEvent :=
  let delayMs := min (2 ^ min claimed.attempts 6 * 1000) 60000
  { e with
    status := .pending
    attempts := e.attempts + 1
    availableAt := now + delayMs
    lockedAt := none
    lastError := some (jsTake 500 error) }

end AsyncWorkerService

namespace NotificationService

def content (type : OutboxEventType) (aggregateId : Uuid) : NotificationType × String × String :=
  match type with
  | .transferCompleted => (.transferCompleted, "Transfer completed",
      "Your transfer " ++ aggregateId.text ++ " completed successfully.")
  | .transferReversed => (.transferReversed, "Transfer reversed",
      "Your transfer reversal " ++ aggregateId.text ++ " completed successfully.")
  | .paymentSucceeded => (.paymentSucceeded, "Payment succeeded",
      "Your payment " ++ aggregateId.text ++ " funded your wallet successfully.")
  | .paymentFailed => (.paymentFailed, "Payment failed",
      "Your payment " ++ aggregateId.text ++ " failed. Your wallet was not credited.")

/-- The upsert of `persistForEvent`; `id` is the generated key of a new row. -/
def persistForEvent (db : Db) (event : OutboxEvent) (id : Uuid) : Except DbError Db :=
  match db.notifications.rows.find? fun n => n.outboxEventId = event.id with
  | some _ => .ok db
  | none => do
      let (type, subject, body) := content event.type event.aggregateId
      let new : Notification := ⟨id, event.id, event.actorUserId, type, subject, body⟩
      let _ ← db.insert {} (.notification new)
      return { db with notifications := db.notifications.put new }

end NotificationService

namespace Outbox
open AsyncWorkerService NotificationService

/-- Where `publish` is with the first event of the batch. -/
inductive Stage
  | adding
  | recording
  | releasing (error : String)

/-- A running `dispatchBatch`, with the events it has not finished. -/
structure Publisher where
  stage : Stage
  events : List OutboxEvent

structure Config where
  db : Db
  publishers : List Publisher
  /-- The events whose `queue.add` succeeded. -/
  added : List Uuid
  /-- The jobs the queue may deliver. -/
  jobs : List Uuid
  /-- The job executions that have read their event. -/
  executing : List OutboxEvent
  /-- The events of the executions that completed. -/
  completed : List Uuid

/-- Any set of new events, and no worker yet. -/
def Start (c : Config) : Prop :=
  (∀ e ∈ c.db.outboxEvents, e.status = .pending ∧ e.lockedAt = none ∧ e.publishedAt = none) ∧
    c.db.notifications = .empty ∧ c.publishers = [] ∧ c.added = [] ∧ c.jobs = [] ∧
    c.executing = [] ∧ c.completed = []

inductive Step : Config → Config → Prop
  | emit {c} (e : OutboxEvent) : (∀ e' ∈ c.db.outboxEvents, e'.id ≠ e.id) →
      e.status = .pending → e.lockedAt = none → e.publishedAt = none →
      Step c { c with db := { c.db with outboxEvents := c.db.outboxEvents.put e } }
  | claim {c} (now : Time) (locked : Uuid → Bool) :
      Step c { c with
        db := (claimBatch c.db now locked).1
        publishers := c.publishers ++ [⟨.adding, (claimBatch c.db now locked).2⟩] }
  | add {c before after e es} : c.publishers = before ++ ⟨.adding, e :: es⟩ :: after →
      Step c { c with
        publishers := before ++ ⟨.recording, e :: es⟩ :: after
        added := c.added ++ [e.id]
        jobs := c.jobs ++ [e.id] }
  /-- The add fails, or it succeeds and its answer is lost. -/
  | addFails {c before after e es} (error : String) (enqueued : Bool) :
      c.publishers = before ++ ⟨.adding, e :: es⟩ :: after →
      Step c { c with
        publishers := before ++ ⟨.releasing error, e :: es⟩ :: after
        jobs := if enqueued then c.jobs ++ [e.id] else c.jobs }
  | record {c before after e es db} (now : Time) :
      c.publishers = before ++ ⟨.recording, e :: es⟩ :: after →
      updateEvent c.db e.id (published now) = .ok db →
      Step c { c with db := db, publishers := before ++ ⟨.adding, es⟩ :: after }
  /-- The update fails, or it succeeds and its answer is lost. -/
  | recordFails {c before after e es db} (error : String) (now : Time) :
      c.publishers = before ++ ⟨.recording, e :: es⟩ :: after →
      (db = c.db ∨ updateEvent c.db e.id (published now) = .ok db) →
      Step c { c with db := db, publishers := before ++ ⟨.releasing error, e :: es⟩ :: after }
  | release {c before after e es db error} (now : Time) :
      c.publishers = before ++ ⟨.releasing error, e :: es⟩ :: after →
      updateEvent c.db e.id (released e now error) = .ok db →
      Step c { c with db := db, publishers := before ++ ⟨.adding, es⟩ :: after }
  /-- The worker stops: a crash, the end of its batch, or a release that throws. -/
  | stop {c before after p} : c.publishers = before ++ p :: after →
      Step c { c with publishers := before ++ after }
  | execute {c id e} : id ∈ c.jobs → c.db.outboxEvents.find? id = some e →
      Step c { c with executing := c.executing ++ [e] }
  | complete {c e db} (id : Uuid) : e ∈ c.executing → persistForEvent c.db e id = .ok db →
      Step c { c with db := db, completed := c.completed ++ [e.id] }

abbrev Reachable : Config → Prop := Transition.Reachable Start Step

end Outbox

end Fintech
