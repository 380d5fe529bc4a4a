import Fintech.Library.Runs
import Fintech.Model.Statements
import Mathlib.Data.List.Sort

/-!
# Webhook deliveries

`WebhookDeliveryService` and `WebhooksService.disable`. Each function is one transaction; an error
rolls it back. The database clock is read where the source calls `clock_timestamp()`, the process
clock where it calls `new Date()`.
-/

namespace Fintech
open Relational Transition

namespace WebhookDeliveryService

/-- `WebhookJobData` -/
structure Job where
  deliveryId : Uuid
  leaseToken : Uuid
  deriving DecidableEq

structure Outcome where
  httpStatus : Option Nat := none
  errorCode : Option String := none
  retry : Bool
  success : Bool

def maxAttempts : Nat := 5

/-- What claiming one delivery draws: the lease token, the id of the attempt, and the clocks. -/
structure Draw where
  leaseToken : Uuid
  attempt : Uuid
  clock : Time
  date : Time

def attemptsOf (db : Db) (deliveryId : Uuid) : List WebhookAttempt :=
  db.webhookAttempts.rows.filter fun a => a.deliveryId = deliveryId

def isOpen (a : WebhookAttempt) : Bool := a.status == .queued || a.status == .sending

/-- `webhookAttempt.updateMany` -/
def updateAttempts (db : Db) (which : WebhookAttempt → Bool) (f : WebhookAttempt → WebhookAttempt)
    (h : ∀ a, (f a).id = a.id) : Db :=
  { db with webhookAttempts := db.webhookAttempts.modify (fun a => if which a then f a else a) (by
      intro a
      split
      · exact h a
      · rfl) }

/-- `webhookDelivery.update` -/
def updateDelivery (db : Db) (id : Uuid) (f : WebhookDelivery → WebhookDelivery) : Except DbError Db :=
  match db.webhookDeliveries.find? id with
  | none => .error .recordNotFound
  | some row => do
      let _ ← db.update {} (.webhookDelivery row) (.webhookDelivery (f row))
      return { db with webhookDeliveries := db.webhookDeliveries.put (f row) }

def claimable (now : Time) (row : WebhookDelivery) : Bool :=
  (row.status == .pending && row.availableAt ≤ now) ||
    (row.status == .processing && row.leaseUntil.any (· ≤ now))

/-- The rows that `claimBatch` selects; `skipped` are those it finds locked. -/
def selectBatch (db : Db) (now : Time) (skipped : Uuid → Bool) : List WebhookDelivery :=
  ((db.webhookDeliveries.rows.filter fun row => claimable now row && !skipped row.id).mergeSort fun a b =>
    a.createdAt < b.createdAt || (a.createdAt == b.createdAt && a.id.text ≤ b.id.text)).take 10

/-- One turn of the loop of `claimBatch`. -/
def claimRow (db : Db) (row : WebhookDelivery) (draw : Draw) : Except DbError (Db × Option Job) := do
  let db := updateAttempts db (fun a => a.deliveryId = row.id && isOpen a) (fun a =>
    { a with status := .abandoned, completedAt := some draw.date, errorCode := some "LEASE_EXPIRED" }) fun _ => rfl
  let some subscription := db.webhookSubscriptions.find? row.subscriptionId | .error .recordNotFound
  if ¬ subscription.enabled ∨ maxAttempts ≤ row.attemptCount then
    let db ← updateDelivery db row.id fun r => { r with
      status := if subscription.enabled then .failed else .cancelled
      leaseToken := none
      leaseUntil := none }
    return (db, none)
  let db ← updateDelivery db row.id fun r => { r with
    status := .processing
    attemptCount := r.attemptCount + 1
    leaseToken := some draw.leaseToken
    leaseUntil := some (draw.clock + 30000) }
  let attempt : WebhookAttempt :=
    { id := draw.attempt, deliveryId := row.id, number := row.attemptCount + 1, createdAt := draw.date }
  let _ ← db.insert {} (.webhookAttempt attempt)
  return ({ db with webhookAttempts := db.webhookAttempts.put attempt }, some ⟨row.id, draw.leaseToken⟩)

def claimRows (draws : Uuid → Draw) : Db → List WebhookDelivery → Except DbError (Db × List Job)
  | db, [] => .ok (db, [])
  | db, row :: rows => do
      let (db, job) ← claimRow db row (draws row.id)
      let (db, jobs) ← claimRows draws db rows
      return (db, job.toList ++ jobs)

def claimBatch (db : Db) (now : Time) (skipped : Uuid → Bool) (draws : Uuid → Draw) :
    Except DbError (Db × List Job) :=
  claimRows draws db (selectBatch db now skipped)

/-- The row of a job whose lease is current; `now` is the clock of the locking query, `now'` the one
read once the lock is held. -/
def locked (db : Db) (job : Job) (now now' : Time) : Option WebhookDelivery :=
  match db.webhookDeliveries.find? job.deliveryId with
  | none => none
  | some row =>
      if row.status = .processing ∧ row.leaseToken = some job.leaseToken ∧ row.leaseUntil.any (now < ·) then
        if row.leaseUntil.any (now' < ·) then some row else none
      else none

/-- What a granted start hands to the sender. -/
structure Granted where
  row : WebhookDelivery
  subscription : WebhookSubscription
  event : OutboxEvent

/-- The current attempt of the delivery, in the given status. -/
def isCurrent (row : WebhookDelivery) (status : WebhookAttemptStatus) (a : WebhookAttempt) : Bool :=
  a.deliveryId == row.id && a.number == row.attemptCount && a.status == status

def start (db : Db) (job : Job) (now now' date : Time) : Except DbError (Db × Option Granted) := do
  let some row := locked db job now now' | return (db, none)
  let some subscription := db.webhookSubscriptions.find? row.subscriptionId | .error .recordNotFound
  if ¬ subscription.enabled then
    let db ← updateDelivery db row.id fun r => { r with
      status := .cancelled
      leaseToken := none
      leaseUntil := none }
    return (updateAttempts db (isCurrent row .queued) (fun a =>
      { a with status := .cancelled, completedAt := some date }) fun _ => rfl, none)
  if ¬ db.webhookAttempts.rows.any (isCurrent row .queued) then return (db, none)
  let db := updateAttempts db (isCurrent row .queued) (fun a => { a with status := .sending }) fun _ => rfl
  let some event := db.outboxEvents.find? row.outboxEventId | .error .recordNotFound
  return (db, some ⟨row, subscription, event⟩)

/-- The fields of the body that `execute` stringifies. -/
structure Body where
  id : Uuid
  deliveryId : Uuid
  type : OutboxEventType
  createdAt : Time
  data : Payload
  deriving DecidableEq

/-- A send: the `Webhook-Id` header and the body. -/
structure Request where
  webhookId : Uuid
  body : Body
  deriving DecidableEq

def request (g : Granted) : Request where
  webhookId := g.row.id
  body := ⟨g.event.id, g.row.id, g.event.type, g.event.createdAt, g.event.payload⟩

def finish (db : Db) (job : Job) (outcome : Outcome) (expected : WebhookAttemptStatus)
    (now now' date : Time) : Except DbError Db := do
  let some row := locked db job now now' | return db
  let some subscription := db.webhookSubscriptions.find? row.subscriptionId | .error .recordNotFound
  let cancelled := !subscription.enabled
  let retry := !cancelled && outcome.retry && row.attemptCount < maxAttempts
  if ¬ db.webhookAttempts.rows.any (isCurrent row expected) then return db
  let db := updateAttempts db (isCurrent row expected) (fun a => { a with
    status := if cancelled then .cancelled else if outcome.success then .succeeded else .failed
    httpStatus := outcome.httpStatus <|> a.httpStatus
    errorCode := outcome.errorCode <|> a.errorCode
    completedAt := some date }) fun _ => rfl
  updateDelivery db row.id fun r => { r with
    status := if cancelled then .cancelled else if outcome.success then .delivered
      else if retry then .pending else .failed
    leaseToken := none
    leaseUntil := none
    availableAt := if retry then date + 1000 * 2 ^ (row.attemptCount - 1) else r.availableAt }

def publicationFailed (db : Db) (job : Job) (now now' date : Time) : Except DbError Db :=
  finish db job { success := false, retry := true, errorCode := some "QUEUE_UNAVAILABLE" } .queued now now' date

end WebhookDeliveryService

namespace WebhooksService
open WebhookDeliveryService

def disable (db : Db) (userId id : Uuid) (date : Time) : Except Failure Db := do
  let some subscription := db.webhookSubscriptions.find? id | .error (.http (notFound "Webhook not found"))
  if subscription.userId ≠ userId then .error (.http (notFound "Webhook not found"))
  let touched (deliveryId : Uuid) : Bool :=
    (db.webhookDeliveries.find? deliveryId).any fun row => row.subscriptionId = id
  let cancel (row : WebhookDelivery) : WebhookDelivery :=
    if row.subscriptionId = id ∧ (row.status = .pending ∨ row.status = .processing) then
      { row with status := .cancelled, leaseUntil := none, leaseToken := none }
    else row
  let db := { db with
    webhookSubscriptions := db.webhookSubscriptions.put { subscription with enabled := false }
    webhookDeliveries := db.webhookDeliveries.modify cancel (by
      intro row
      unfold cancel
      split <;> rfl) }
  return updateAttempts db (fun a => touched a.deliveryId && isOpen a) (fun a =>
    { a with status := .cancelled, completedAt := some date }) fun _ => rfl

end WebhooksService

namespace Webhooks
open WebhookDeliveryService WebhooksService

structure Lease where
  deliveryId : Uuid
  leaseToken : Uuid
  leaseUntil : Time
  deriving DecidableEq

/-- The database and its clock, with what the workers hold and what has happened so far. -/
structure Config where
  db : Db
  clock : Time
  /-- The leases that claims have issued, oldest first. -/
  leases : List Lease
  /-- The tokens that a start, a finish or a disable took off their delivery. -/
  returned : List Uuid
  /-- The starts that granted a send. -/
  granted : List (Job × Granted)
  /-- The granted starts whose worker has not sent yet. -/
  waiting : List (Job × Granted)
  /-- The sends that were started. -/
  sent : List (Job × Granted)

/-- The tokens on the deliveries of `db` that are no longer on them in `db'`. -/
def dropped (db db' : Db) : List Uuid :=
  db.webhookDeliveries.rows.filterMap fun row =>
    if (db'.webhookDeliveries.find? row.id).any (fun row' => row'.leaseToken = row.leaseToken) then none
    else row.leaseToken

def lease (draws : Uuid → Draw) (job : Job) : Lease :=
  ⟨job.deliveryId, job.leaseToken, (draws job.deliveryId).clock + 30000⟩

inductive Action
  | tick (now : Time)
  | fanOut (seen : Db) (event : OutboxEvent) (delivery : Uuid → Uuid) (now : Time)
  | claimBatch (now : Time) (skipped : Uuid → Bool) (draws : Uuid → Draw) (done : Time)
  | start (job : Job) (now now' date : Time)
  | send (job : Job)
  | drop (job : Job)
  | finish (job : Job) (outcome : Outcome) (expected : WebhookAttemptStatus) (now now' date : Time)
  | publicationFailed (job : Job) (now now' date : Time)
  | disable (userId id : Uuid) (date : Time)
  | disabledElsewhere (id : Uuid)
  | subscribe (subscription : WebhookSubscription)
  | updateOutbox (event : OutboxEvent)

/-- The outbox worker rewrites these columns of an event and no other. -/
def SameEvent (e e' : OutboxEvent) : Prop :=
  e' = { e with
    status := e'.status, attempts := e'.attempts, availableAt := e'.availableAt, lockedAt := e'.lockedAt,
    publishedAt := e'.publishedAt, lastError := e'.lastError }

/-- The transactions on deliveries, in any order, with jobs and outcomes as they come: a job may be
executed late, again, or not at all, and a worker may stop after any step. -/
inductive Step (c : Config) : Action → Config → Prop
  | tick {now} : c.clock ≤ now → Step c (.tick now) { c with clock := now }
  /-- The subscriptions are read from `seen`, a snapshot that may be older. -/
  | fanOut {seen event delivery now s} :
      c.db.insertAll {} (seen.eventRows event delivery now) = .ok s →
      Step c (.fanOut seen event delivery now)
        { c with db := Transactional.applyAll c.db (seen.eventRows event delivery now) }
  /-- Every token is new: they are random UUIDs. -/
  | claimBatch {now skipped draws done db jobs} :
      claimBatch c.db now skipped draws = .ok (db, jobs) →
      ((selectBatch c.db now skipped).map fun row => (draws row.id).leaseToken).Nodup →
      (∀ row ∈ selectBatch c.db now skipped, (draws row.id).leaseToken ∉ c.leases.map Lease.leaseToken) →
      c.clock ≤ now → now ≤ done →
      Step c (.claimBatch now skipped draws done)
        { c with db := db, clock := done, leases := c.leases ++ jobs.map (lease draws) }
  | start {job now now' date db granted} : start c.db job now now' date = .ok (db, granted) →
      c.clock ≤ now → now ≤ now' →
      Step c (.start job now now' date) { c with
        db := db
        clock := now'
        returned := c.returned ++ dropped c.db db
        granted := c.granted ++ (granted.map fun g => (job, g)).toList
        waiting := c.waiting ++ (granted.map fun g => (job, g)).toList }
  | send {job g before after} : c.waiting = before ++ (job, g) :: after →
      Step c (.send job) { c with waiting := before ++ after, sent := c.sent ++ [(job, g)] }
  /-- The worker crashes, or cannot decrypt the signing secret. -/
  | drop {job g before after} : c.waiting = before ++ (job, g) :: after →
      Step c (.drop job) { c with waiting := before ++ after }
  | finish {job outcome expected now now' date db} :
      finish c.db job outcome expected now now' date = .ok db →
      expected = .queued ∨ expected = .sending → c.clock ≤ now → now ≤ now' →
      Step c (.finish job outcome expected now now' date)
        { c with db := db, clock := now', returned := c.returned ++ dropped c.db db }
  | publicationFailed {job now now' date db} : publicationFailed c.db job now now' date = .ok db →
      c.clock ≤ now → now ≤ now' →
      Step c (.publicationFailed job now now' date)
        { c with db := db, clock := now', returned := c.returned ++ dropped c.db db }
  | disable {userId id date db} : disable c.db userId id date = .ok db →
      Step c (.disable userId id date) { c with db := db, returned := c.returned ++ dropped c.db db }
  /-- The subscription is disabled by a transaction that did not see the delivery. -/
  | disabledElsewhere {id subscription} : c.db.webhookSubscriptions.find? id = some subscription →
      Step c (.disabledElsewhere id) { c with db := { c.db with
        webhookSubscriptions := c.db.webhookSubscriptions.put { subscription with enabled := false } } }
  | subscribe {subscription} : (∀ s ∈ c.db.webhookSubscriptions, s.id ≠ subscription.id) →
      Step c (.subscribe subscription) { c with db := { c.db with
        webhookSubscriptions := c.db.webhookSubscriptions.put subscription } }
  | updateOutbox {e event} : e ∈ c.db.outboxEvents → SameEvent e event →
      Step c (.updateOutbox event) { c with db := { c.db with
        outboxEvents := c.db.outboxEvents.put event } }

/-- No delivery has been fanned out yet. -/
def Start (c : Config) : Prop :=
  c.db.webhookDeliveries = .empty ∧ c.db.webhookAttempts = .empty ∧ c.leases = [] ∧
    c.returned = [] ∧ c.granted = [] ∧ c.waiting = [] ∧ c.sent = []

abbrev Reachable : Config → Prop := Transition.Reachable Start fun c c' => ∃ a, Step c a c'

end Webhooks

end Fintech
