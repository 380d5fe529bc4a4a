import Fintech.Model.Reads

/-!
# Following a cursor

The lists of audit entries, payments, provider events and webhook deliveries, read page by page with any
limits: the reader comes to an end and has the rows of the start, each once and in order, also when rows that
sort before the cursor are inserted between two requests.
-/

namespace Fintech
open Relational Paging

section
variable {ρ ι : Type} [Keyed ρ Uuid] {createdAt : ρ → Time} {owned : ρ → Bool} {t : Table ρ}

theorem stamp_inj {r s : ρ} (h : stamp createdAt r = stamp createdAt s) : key r = key s :=
  Uuid.ext (congrArg Prod.snd (toLex_inj.mp h))

theorem mem_findMany {r : ρ} : r ∈ findMany createdAt owned t ↔ r ∈ t ∧ owned r := by
  rw [findMany, mem_latestFirst, List.mem_filter, Table.mem_def]

theorem listing_findMany : Listing (stamp createdAt) key (findMany createdAt owned t) where
  sorted := by
    apply pairwise_latestFirst
    · exact (List.Nodup.of_map _ t.unique).filter _
    · intro a ha b hb same
      exact Table.eq_of_key_eq (List.mem_filter.mp ha).1 (List.mem_filter.mp hb).1 (stamp_inj same)
  distinct := by
    intro a ha b hb same
    exact Table.eq_of_key_eq (mem_findMany.mp ha).1 (mem_findMany.mp hb).1 same

theorem findFirst_eq_some {id : Uuid} {r : ρ} : findFirst owned t id = some r ↔ r ∈ t ∧ key r = id ∧ owned r := by
  rw [findFirst, Option.filter_eq_some_iff, Table.find?_eq_some, and_assoc]

/-- A cursor that is one of the owner's rows is accepted. -/
theorem listPage_eq {invalidCursor : String} {query : ListQuery}
    (known : ∀ k, query.cursor = some k → ∃ c ∈ findMany createdAt owned t, key c = k) :
    listPage invalidCursor createdAt owned t query =
      .ok (page key (findMany createdAt owned t) query.limit query.cursor) := by
  have accepted : ¬ ∃ c ∈ query.cursor, findFirst owned t c = none := by
    rintro ⟨k, hk, missing⟩
    obtain ⟨c, hc, rfl⟩ := known k hk
    have found := findFirst_eq_some.mpr ⟨(mem_findMany.mp hc).1, rfl, (mem_findMany.mp hc).2⟩
    rw [missing] at found
    cases found
  simp only [listPage, failIf, if_neg accepted]
  rfl

variable (createdAt) in
/-- Between two requests rows are only inserted, and they sort before the cursor row. -/
def InsertedAhead (rows : Nat → List ρ) (serve : Nat → Option Uuid → Except HttpException (Page ι Uuid)) : Prop :=
  ∀ n k items, read serve (n + 1) = .reading (some k) items → ∀ c ∈ rows n, key c = k →
    Inserted (stamp createdAt) c (rows n) (rows (n + 1))

theorem InsertedAhead.of_eq {rows : Nat → List ρ} {serve : Nat → Option Uuid → Except HttpException (Page ι Uuid)}
    (same : ∀ n, rows (n + 1) = rows n) : InsertedAhead createdAt rows serve := by
  intro n k items _ c _ _
  rw [same n]
  exact ⟨fun r hr => hr, fun r hr => .inl hr⟩

end

/-- The requests of a reader that asks for `limits n` rows at request `n`. -/
def requests {ι : Type} (limits : Nat → Nat) (inRange : ∀ n, 1 ≤ limits n ∧ limits n ≤ 100)
    (respond : Nat → ListQuery → Except HttpException (Page ι Uuid)) (n : Nat) (cursor : Option Uuid) :
    Except HttpException (Page ι Uuid) :=
  respond n { limit := limits n, cursor, inRange := inRange n }

section
variable {ρ ι : Type} [Keyed ρ Uuid] {createdAt : ρ → Time} {owned : ρ → Bool} {tables : Nat → Table ρ}
  {limits : Nat → Nat} {inRange : ∀ n, 1 ≤ limits n ∧ limits n ≤ 100} {toResponse : Nat → ρ → ι}
  {respond : Nat → ListQuery → Except HttpException (Page ι Uuid)} {invalidCursor : String}

variable (createdAt owned tables toResponse) in
/-- If rows are only inserted before the cursor, the reader comes to an end, and what it has read are the
responses to the owner's rows of the start, latest first and each once. -/
def ReadsAll (serve : Nat → Option Uuid → Except HttpException (Page ι Uuid)) : Prop :=
  InsertedAhead createdAt (fun n => findMany createdAt owned (tables n)) serve →
    ∃ n items rows, read serve n = .finished items ∧ n ≤ rows.length + 1 ∧ Answered toResponse rows items ∧
      (rows.Pairwise fun a b => stamp createdAt b < stamp createdAt a) ∧ ∀ r, r ∈ rows ↔ r ∈ tables 0 ∧ owned r

/-- A list that answers with `listPage` of its table is read to the end. -/
theorem readsAll_of_listPage (lists : ∀ n query, respond n query =
    (listPage invalidCursor createdAt owned (tables n) query).map (Page.map (toResponse n))) :
    ReadsAll createdAt owned tables toResponse (requests limits inRange respond) := by
  intro ahead
  have serves : Serves (stamp createdAt) key (fun n => findMany createdAt owned (tables n)) limits toResponse
      (requests limits inRange respond) := by
    constructor
    · exact fun n => listing_findMany
    · exact fun n => (inRange n).1
    · intro n cursor known
      rw [requests, lists, listPage_eq known]
      rfl
    · exact ahead
  obtain ⟨n, le, items, finished, answered⟩ := serves.read_complete
  exact ⟨n, items, _, finished, le, answered, listing_findMany.sorted, fun r => mem_findMany⟩

end

/-! ## The four lists -/

theorem AuditService.findAllForUser_eq (db : Db) (actorUserId : Uuid) (query : ListQuery) :
    AuditService.findAllForUser db actorUserId query =
      (listPage "Audit cursor is invalid for the authenticated user" AuditLog.createdAt
        (fun entry => entry.actorUserId = actorUserId) db.auditLogs query).map (Page.map toAuditLogResponse) := by
  let owned (entry : AuditLog) : Bool := entry.actorUserId = actorUserId
  let found := behind key (findMany AuditLog.createdAt owned db.auditLogs) query.cursor
  by_cases unknown : ∃ c ∈ query.cursor, findFirst owned db.auditLogs c = none
  · simp only [findAllForUser, listPage, failIf, owned, if_pos unknown]
    rfl
  · simp only [findAllForUser, listPage, page, failIf, owned, if_neg unknown]
    by_cases more : query.limit < (found.take (query.limit + 1)).length
    · simp only [found, owned] at more
      simp only [more, decide_true, if_true]
      rfl
    · have all := List.take_of_length_le (not_lt.mp more)
      simp only [found, owned] at more all
      simp only [more, decide_false, if_false, all]
      rfl

theorem PaymentsService.events_eq {db : Db} {userId id : Uuid} (owner : ∃ p ∈ db.payments, p.id = id ∧ p.userId = userId)
    (query : ListQuery) : PaymentsService.events db userId id query =
      (listPage "Invalid event cursor" ProviderEvent.createdAt (fun e => e.paymentId = id) db.providerEvents query).map
        (Page.map toEventResponse) := by
  obtain ⟨p, hp, rfl, own⟩ := owner
  have found : findFirst (fun p => p.userId = userId) db.payments p.id = some p :=
    findFirst_eq_some.mpr ⟨hp, rfl, by simpa using own⟩
  simp only [events, findOne, found]
  rfl

theorem WebhooksService.deliveries_eq {db : Db} {userId id : Uuid}
    (owner : ∃ s ∈ db.webhookSubscriptions, s.id = id ∧ s.userId = userId) (query : ListQuery) :
    WebhooksService.deliveries db userId id query =
      (listPage "Invalid delivery cursor" WebhookDelivery.createdAt (fun d => d.subscriptionId = id)
        db.webhookDeliveries query).map (Page.map (toDeliveryResponse db)) := by
  obtain ⟨s, hs, rfl, own⟩ := owner
  have found : findFirst (fun s => s.userId = userId) db.webhookSubscriptions s.id = some s :=
    findFirst_eq_some.mpr ⟨hs, rfl, by simpa using own⟩
  simp only [deliveries, found]
  rfl

/-- The four lists are read to the end, with any limits and while rows are inserted. -/
theorem cursors_read_all (dbs : Nat → Db) (userId : Uuid) (limits : Nat → Nat)
    (inRange : ∀ n, 1 ≤ limits n ∧ limits n ≤ 100) :
    (ReadsAll AuditLog.createdAt (fun entry => entry.actorUserId = userId) (fun n => (dbs n).auditLogs)
      (fun _ => AuditService.toAuditLogResponse)
      (requests limits inRange fun n => AuditService.findAllForUser (dbs n) userId)) ∧
    (ReadsAll Payment.createdAt (fun p => p.userId = userId) (fun n => (dbs n).payments)
      (fun _ => PaymentsService.toPaymentResponse)
      (requests limits inRange fun n => PaymentsService.list (dbs n) userId)) ∧
    (∀ id, (∀ n, ∃ p ∈ (dbs n).payments, p.id = id ∧ p.userId = userId) →
      ReadsAll ProviderEvent.createdAt (fun e => e.paymentId = id) (fun n => (dbs n).providerEvents)
        (fun _ => PaymentsService.toEventResponse)
        (requests limits inRange fun n => PaymentsService.events (dbs n) userId id)) ∧
    ∀ id, (∀ n, ∃ s ∈ (dbs n).webhookSubscriptions, s.id = id ∧ s.userId = userId) →
      ReadsAll WebhookDelivery.createdAt (fun d => d.subscriptionId = id) (fun n => (dbs n).webhookDeliveries)
        (fun n => WebhooksService.toDeliveryResponse (dbs n))
        (requests limits inRange fun n => WebhooksService.deliveries (dbs n) userId id) := by
  refine ⟨?audit, ?payments, fun id owner => ?events, fun id owner => ?deliveries⟩
  case audit => exact readsAll_of_listPage fun n => AuditService.findAllForUser_eq (dbs n) userId
  case payments => exact readsAll_of_listPage fun _ _ => rfl
  case events => exact readsAll_of_listPage fun n => PaymentsService.events_eq (owner n)
  case deliveries => exact readsAll_of_listPage fun n => WebhooksService.deliveries_eq (owner n)

/-! ## Two events at one time, a page each -/

def sampleOwnerId : Uuid := ⟨"00000000-0000-4000-8000-00000000000a", by decide +kernel⟩

def samplePayment : Payment where
  id := ⟨"00000000-0000-4000-8000-00000000000b", by decide +kernel⟩
  userId := sampleOwnerId
  walletId := ⟨"00000000-0000-4000-8000-00000000000c", by decide +kernel⟩
  provider := .mock
  reference := "payment:1"
  idempotencyKey := "key-1"
  requestHash := ""
  amountMinor := 2500
  currency := .usd
  createdAt := 0

def sampleProviderEvent (id : Uuid) (eventId : String) : ProviderEvent where
  id := id
  paymentId := samplePayment.id
  provider := .mock
  eventId := eventId
  payloadHash := ""
  status := .succeeded
  createdAt := 7

def sampleEvents : Db where
  payments := ⟨[samplePayment], by decide⟩
  providerEvents := {
    rows := [
      sampleProviderEvent ⟨"00000000-0000-4000-8000-00000000000d", by decide +kernel⟩ "first",
      sampleProviderEvent ⟨"00000000-0000-4000-8000-00000000000e", by decide +kernel⟩ "second"]
    unique := by decide }

theorem cursors_read_all_sample : ∃ n items rows,
    read (requests (fun _ => 1) (fun _ => by decide) fun _ =>
      PaymentsService.events sampleEvents sampleOwnerId samplePayment.id) n = .finished items ∧
    n ≤ rows.length + 1 ∧ Answered (fun _ => PaymentsService.toEventResponse) rows items ∧
    (rows.Pairwise fun a b => stamp ProviderEvent.createdAt b < stamp ProviderEvent.createdAt a) ∧
    ∀ r, r ∈ rows ↔ r ∈ sampleEvents.providerEvents ∧ decide (r.paymentId = samplePayment.id) := by
  have owner : ∃ p ∈ sampleEvents.payments, p.id = samplePayment.id ∧ p.userId = sampleOwnerId :=
    ⟨samplePayment, List.mem_singleton.mpr rfl, rfl, rfl⟩
  have all := (cursors_read_all (fun _ => sampleEvents) sampleOwnerId (fun _ => 1) (fun _ => by decide)).2.2.1
  exact all samplePayment.id (fun _ => owner) (.of_eq fun _ => rfl)

end Fintech
