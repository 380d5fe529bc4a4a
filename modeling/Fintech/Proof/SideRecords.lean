import Fintech.Model.Migrations
import Fintech.Proof.Backing

/-!
# Side records

Every transfer and every reversal leaves an audit row, and every one of them and every settled payment
an outbox event, from which deliveries fan out.
-/

namespace Fintech
open Relational Transactional

/-! ## What they say -/

/-- What an outbox event says about a record. -/
structure News where
  type : OutboxEventType
  aggregateType : String
  aggregateId : Uuid
  actorUserId : Uuid
  amountMinor : Option String
  currency : Option String

def OutboxEvent.news (e : OutboxEvent) : News where
  type := e.type
  aggregateType := e.aggregateType
  aggregateId := e.aggregateId
  actorUserId := e.actorUserId
  amountMinor := e.payload.lookup "amountMinor"
  currency := e.payload.lookup "currency"

/-- What an audit row says about a record. -/
structure Note where
  action : AuditAction
  transferId : Uuid
  reversalId : Option Uuid
  actorUserId : Uuid

def AuditLog.note (a : AuditLog) : Note := ⟨a.action, a.transferId, a.reversalId, a.actorUserId⟩

namespace Row

/-- What the outbox event of a record is to say. -/
def news : Row → Option News
  | .transfer t =>
      some ⟨.transferCompleted, "Transfer", t.id, t.senderUserId, some (toString t.amountMinor), some t.currency.text⟩
  | .transferReversal v =>
      some ⟨.transferReversed, "TransferReversal", v.id, v.actorUserId, some (toString v.amountMinor), some v.currency.text⟩
  | .payment p =>
      if p.status = .pending then none
      else some ⟨if p.status = .succeeded then .paymentSucceeded else .paymentFailed, "Payment", p.id, p.userId,
        some (toString p.amountMinor), some p.currency.text⟩
  | _ => none

/-- What the audit row of a record is to say. -/
def note : Row → Option Note
  | .transfer t => some ⟨.transferCreated, t.id, none, t.senderUserId⟩
  | .transferReversal v => some ⟨.transferReversed, v.transferId, some v.id, v.actorUserId⟩
  | _ => none

end Row

namespace Db
variable (db : Db)

def notes : List Note := db.auditLogs.rows.map AuditLog.note

def notices : List (Uuid × News) := db.outboxEvents.rows.map fun e => (e.id, e.news)

/-- The deliveries, as pairs of an event and a subscription. -/
def fannedOut : List (Uuid × Uuid) := db.webhookDeliveries.rows.map fun d => (d.outboxEventId, d.subscriptionId)

def subscribers (userId : Uuid) : List Uuid :=
  (db.webhookSubscriptions.rows.filter fun s => s.userId = userId ∧ s.enabled).map fun s => s.id

variable {db} {after : Db}

theorem notes_congr (h : after.auditLogs = db.auditLogs) : after.notes = db.notes := by rw [notes, notes, h]

theorem notices_congr (h : after.outboxEvents = db.outboxEvents) : after.notices = db.notices := by
  rw [notices, notices, h]

theorem fannedOut_congr (h : after.webhookDeliveries = db.webhookDeliveries) : after.fannedOut = db.fannedOut := by
  rw [fannedOut, fannedOut, h]

end Db

/-! ## Tables that only grow -/

section
variable {ρ : Type} [Keyed ρ Uuid] (slice : Slice ρ) {db : Db} {ws : List Write}

/-- No row of the table is updated. -/
def Slice.Inserts (ws : List Write) : Prop := ∀ w ∈ ws, ∀ x, w.row = slice.row x → w = .insert (slice.row x)

theorem Slice.Inserts.append {vs : List Write} (h : slice.Inserts ws) (h' : slice.Inserts vs) : slice.Inserts (ws ++ vs) := by
  intro w hw
  rcases List.mem_append.mp hw with hw | hw
  · exact h w hw
  · exact h' w hw

theorem Slice.inserts_of_written (none : slice.written ws = []) : slice.Inserts ws := by
  intro w hw x row
  have := List.filterMap_eq_nil_iff.mp none w hw
  rw [row, slice.of_row] at this
  cases this

theorem Slice.written_others (h : ∀ w ∈ ws, w.row.table ≠ slice.name) : slice.written ws = [] :=
  List.filterMap_eq_nil_iff.mpr fun w hw => slice.of_eq_none (h w hw)

theorem Slice.rows_inserts (accepts : Accepts db ws) (inserts : slice.Inserts ws) :
    (slice.table (db.write ws)).rows = (slice.table db).rows ++ slice.written ws := by
  induction ws generalizing db with
  | nil => simp
  | cons w ws ih =>
      rw [Db.write_cons, ih accepts.2 fun v hv => inserts v (by simp [hv]), slice.written_cons, slice.put]
      cases row : slice.of w.row with
      | none => simp
      | some x =>
          obtain rfl : w = .insert (slice.row x) := inserts w (by simp) x (slice.of_eq_some.mp row)
          have fresh : ∀ y ∈ slice.table db, key y ≠ key x := fun y hy same =>
            Db.not_taken_iff.mp (accepts.1.fresh _ (slice.row x).pk_mem_keys) _ (slice.mem.mpr hy)
              (slice.pk_eq.mpr same ▸ (slice.row y).pk_mem_keys)
          simp [Table.rows_put_of_fresh fresh]

/-- What no update of a table changes. -/
theorem Slice.map_rows_write {γ : Type} {f : ρ → γ} (accepts : Accepts db ws)
    (keeps : ∀ w ∈ ws, ∀ x, w.row = slice.row x → ∃ y, w = .update (slice.row y) (slice.row x) ∧ f x = f y) :
    (slice.table (db.write ws)).rows.map f = (slice.table db).rows.map f := by
  induction ws generalizing db with
  | nil => rfl
  | cons w ws ih =>
      rw [Db.write_cons, ih accepts.2 fun v hv => keeps v (by simp [hv]), slice.put]
      cases row : slice.of w.row with
      | none => rfl
      | some x =>
          obtain ⟨y, rfl, same⟩ := keeps w (by simp) x (slice.of_eq_some.mp row)
          have mem : y ∈ slice.table db := slice.mem.mp accepts.1.mem
          have keys : key y = key x := slice.pk_eq.mp accepts.1.pk.symm
          rw [Option.elim_some, Table.rows_put_of_mem mem keys, List.map_map]
          refine List.map_congr_left fun z hz => ?_
          by_cases h : key z = key x
          · obtain rfl : z = y := Table.eq_of_key_eq hz mem (h.trans keys.symm)
            simp [h, same]
          · simp [h]

/-! ## The rows of a commit -/

variable {before after : Db} {x : ρ}

theorem Slice.row_inj {y : ρ} : slice.row x = slice.row y ↔ x = y := by
  refine ⟨fun h => ?_, congrArg _⟩
  have same := congrArg slice.of h
  rwa [slice.of_row, slice.of_row, Option.some.injEq] at same

theorem Slice.mem_inserted (rows : (slice.table after).rows = (slice.table before).rows ++ [x]) (y : ρ) :
    slice.row y ∈ after ↔ slice.row y = slice.row x ∨ slice.row y ∈ before := by
  rw [slice.mem, slice.mem, Table.mem_def, rows, List.mem_append, List.mem_singleton, or_comm, slice.row_inj]
  rfl

theorem Slice.mem_others (same : slice.table after = slice.table before) {r : Row} (other : r.table ≠ slice.name) (y : ρ) :
    slice.row y ∈ after ↔ slice.row y = r ∨ slice.row y ∈ before := by
  have ne : slice.row y ≠ r := fun h => other (h ▸ slice.row_table y)
  rw [slice.mem, slice.mem, same, or_iff_right ne]

end

/-! ## What each commit tells -/

/-- The requests that write records, all in serializable transactions. -/
def Request.Records : Request → Prop
  | .createTransfer _ _ _ _ | .createReversal _ _ _ _ _ | .settle _ _ _ => True
  | _ => False

/-- What the commit from `before` to `after` tells of the records, by a transaction that read `seen`. -/
inductive Tells (i : Request) (seen before after : Db) : Prop
  | quiet (notes : after.notes = before.notes) (notices : after.notices = before.notices)
      (fannedOut : after.fannedOut = before.fannedOut) (records : ∀ r : Row, r.news.isSome → (r ∈ after ↔ r ∈ before)) :
      Tells i seen before after
  | told (r : Row) (e : Uuid) (news : News) (serves : i.Records) (said : r.news = some news) (new : r ∉ before)
      (records : ∀ x : Row, x.news.isSome → (x ∈ after ↔ x = r ∨ x ∈ before))
      (notes : after.notes = before.notes ++ r.note.toList) (notices : after.notices = before.notices ++ [(e, news)])
      (fannedOut : after.fannedOut = before.fannedOut ++ (seen.subscribers news.actorUserId).map fun s => (e, s)) :
      Tells i seen before after

/-- The records that are told of, table by table. -/
theorem news_cases {P : Row → Prop} (transfers : ∀ t, P (.transfer t)) (reversals : ∀ v, P (.transferReversal v))
    (payments : ∀ p, p.status ≠ .pending → P (.payment p)) : ∀ r : Row, r.news.isSome → P r := by
  intro r some
  cases r with
  | transfer t => exact transfers t
  | transferReversal v => exact reversals v
  | payment p =>
      refine payments p fun pending => ?_
      simp [Row.news, pending] at some
  | _ => simp [Row.news] at some

theorem records_iff {before after : Db} (transfers : after.transfers = before.transfers)
    (reversals : after.transferReversals = before.transferReversals) (payments : after.payments = before.payments) :
    ∀ r : Row, r.news.isSome → (r ∈ after ↔ r ∈ before) := by
  refine news_cases ?_ ?_ ?_
  · exact fun t => by rw [← Slice.transfers_row, Slice.mem, Slice.mem, Slice.transfers_table, Slice.transfers_table, transfers]
  · exact fun v => by
      rw [← Slice.transferReversals_row, Slice.mem, Slice.mem, Slice.transferReversals_table,
        Slice.transferReversals_table, reversals]
  · exact fun p _ => by rw [← Slice.payments_row, Slice.mem, Slice.mem, Slice.payments_table, Slice.payments_table, payments]

theorem aside_update {w : Write} (h : w.IsAside) {e : OutboxEvent} (row : w.row = .outboxEvent e) :
    ∃ e₀, w = .update (.outboxEvent e₀) (.outboxEvent e) ∧ e = e₀.progress e := by
  rcases h with side | other
  · cases w with
    | insert r =>
        obtain rfl : r = .outboxEvent e := row
        simp [Write.IsSide, isSideRow] at side
    | update old new =>
        obtain rfl : new = .outboxEvent e := row
        cases old <;> simp [Write.IsSide, isSideRow] at side
        exact ⟨_, rfl, side⟩
  · simp [row, Row.isRecord] at other

theorem aside_update_delivery {w : Write} (h : w.IsAside) {d : WebhookDelivery} (row : w.row = .webhookDelivery d) :
    ∃ d₀, w = .update (.webhookDelivery d₀) (.webhookDelivery d) ∧ d = d₀.progress d := by
  rcases h with side | other
  · cases w with
    | insert r =>
        obtain rfl : r = .webhookDelivery d := row
        simp [Write.IsSide, isSideRow] at side
    | update old new =>
        obtain rfl : new = .webhookDelivery d := row
        cases old <;> simp [Write.IsSide, isSideRow] at side
        exact ⟨_, rfl, side⟩
  · simp [row, Row.isRecord] at other

section
variable {seen now : Db} {ws : List Write}

theorem Tells.aside {i : Request} (accepts : Accepts now ws) (h : ∀ w ∈ ws, w.IsAside) : Tells i seen now (now.write ws) := by
  have same {ρ : Type} [Keyed ρ Uuid] (slice : Slice ρ) (record : ∀ x, (slice.row x).isRecord)
      (other : slice.name ∉ [.outboxEvent, .webhookDelivery]) : slice.table (now.write ws) = slice.table now :=
    slice.table_same (aside_written h record other)
  refine .quiet (Db.notes_congr (same .auditLogs (fun _ => rfl) (by simp))) ?_ ?_
    (records_iff (same .transfers (fun _ => rfl) (by simp)) (same .transferReversals (fun _ => rfl) (by simp))
      (same .payments (fun _ => rfl) (by simp)))
  · refine Slice.outboxEvents.map_rows_write accepts fun w hw e row => ?_
    obtain ⟨e₀, rfl, progress⟩ := aside_update (h w hw) row
    exact ⟨e₀, rfl, by rw [progress]; rfl⟩
  · refine Slice.webhookDeliveries.map_rows_write accepts fun w hw d row => ?_
    obtain ⟨d₀, rfl, progress⟩ := aside_update_delivery (h w hw) row
    exact ⟨d₀, rfl, by rw [progress]; rfl⟩

theorem Evolves.pk {r r' : Row} (h : Evolves r r') : r'.pk = r.pk :=
  h.kept (P := fun x => x.pk = r.pk) (fun _ _ _ _ same old => same.trans old) rfl

/-- An event that is inserted has no delivery yet. -/
theorem Accepts.event_unseen (accepts : Accepts now ws) {event : OutboxEvent} (mem : .insert (.outboxEvent event) ∈ ws)
    (sound : seen.Sound) (later : now.Extends seen) : ∀ d ∈ seen.webhookDeliveries, d.outboxEventId ≠ event.id := by
  intro d hd own
  have reference : Key.row .outboxEvent event.id ∈ (Row.webhookDelivery d).references := by simp [Row.references, own]
  obtain ⟨x, hx, id⟩ := Slice.outboxEvents.exists_of_reference sound (r := .webhookDelivery d) hd reference
  obtain ⟨r, hr, evolves⟩ := later (.outboxEvent x) hx
  refine accepts.inserted_fresh mem r hr (evolves.pk.trans ?_)
  exact congrArg (Key.row .outboxEvent) id

theorem Announces.inserts {draws : Draws} {event : OutboxEvent} {events : List Write}
    (h : Announces seen draws event events) {ρ : Type} [Keyed ρ Uuid] (slice : Slice ρ) : slice.Inserts events := by
  obtain ⟨db, _, _⟩ := h
  intro w hw x row
  obtain ⟨r, _, rfl⟩ := List.mem_map.mp hw
  exact congrArg Write.insert row

theorem Announces.event {draws : Draws} {event : OutboxEvent} {events : List Write}
    (h : Announces seen draws event events) :
    .insert (.outboxEvent event) ∈ events ∧ Slice.outboxEvents.written events = [event] := by
  obtain ⟨db, _, _⟩ := h
  refine ⟨by simp [Db.eventRows], ?_⟩
  rw [Slice.written_map]
  simp [Db.eventRows, List.filterMap_map]

theorem Announces.fannedOut {draws : Draws} {event : OutboxEvent} {events : List Write}
    (h : Announces seen draws event events) (unseen : ∀ d ∈ seen.webhookDeliveries, d.outboxEventId ≠ event.id) :
    (Slice.webhookDeliveries.written events).map (fun d => (d.outboxEventId, d.subscriptionId)) =
      (seen.subscribers event.actorUserId).map fun s => (event.id, s) := by
  obtain ⟨db, subscriptions, deliveries⟩ := h
  have free (s : WebhookSubscription) : db.taken (.deliveryEvent s.id event.id) = false := by
    refine Db.not_taken_iff.mpr fun r hr taken => ?_
    cases r <;> simp [Row.keys, Row.slots, Row.pk] at taken
    exact unseen _ (deliveries ▸ hr) taken.2.symm
  rw [Slice.written_map]
  simp [Db.eventRows, Db.fanOut, Db.subscribers, free, subscriptions, List.filterMap_map, Function.comp_def]

/-- The event of a commit and its deliveries, among other writes. -/
theorem Announces.told {draws : Draws} {event : OutboxEvent} {a events b : List Write}
    (h : Announces seen draws event events) (split : ws = a ++ events ++ b) (accepts : Accepts now ws)
    (sound : seen.Sound) (later : now.Extends seen)
    (a_events : Slice.outboxEvents.written a = []) (a_deliveries : Slice.webhookDeliveries.written a = [])
    (b_events : Slice.outboxEvents.written b = []) (b_deliveries : Slice.webhookDeliveries.written b = []) :
    (now.write ws).notices = now.notices ++ [(event.id, event.news)] ∧
      (now.write ws).fannedOut = now.fannedOut ++ (seen.subscribers event.actorUserId).map fun s => (event.id, s) := by
  subst split
  have inserts {ρ : Type} [Keyed ρ Uuid] (slice : Slice ρ) (before : slice.written a = []) (after : slice.written b = []) :
      slice.Inserts (a ++ events ++ b) :=
    .append slice (.append slice (slice.inserts_of_written before) (h.inserts slice)) (slice.inserts_of_written after)
  have unseen : ∀ d ∈ seen.webhookDeliveries, d.outboxEventId ≠ event.id :=
    accepts.event_unseen (by simp [h.event.1]) sound later
  constructor
  · have rows := Slice.outboxEvents.rows_inserts accepts (inserts _ a_events b_events)
    rw [Slice.written_append, Slice.written_append, a_events, b_events, h.event.2] at rows
    have mapped := congrArg (List.map fun e => (e.id, e.news)) rows
    rwa [List.map_append] at mapped
  · have rows := Slice.webhookDeliveries.rows_inserts accepts (inserts _ a_deliveries b_deliveries)
    rw [Slice.written_append, Slice.written_append, a_deliveries, b_deliveries] at rows
    have mapped := congrArg (List.map fun d => (d.outboxEventId, d.subscriptionId)) rows
    rw [List.nil_append, List.append_nil, List.map_append, h.fannedOut unseen] at mapped
    exact mapped

/-- The records after a payment has become what it will stay. -/
theorem mem_settled {before after : Db} (transfers : after.transfers = before.transfers)
    (reversals : after.transferReversals = before.transferReversals) {p p' : Payment}
    (payments : after.payments = before.payments.put p') (mem : p ∈ before.payments) (id : p'.id = p.id)
    (pending : p.status = .pending) : ∀ x : Row, x.news.isSome → (x ∈ after ↔ x = .payment p' ∨ x ∈ before) := by
  refine news_cases ?_ ?_ ?_
  · exact Slice.transfers.mem_others transfers (by simp [Row.table])
  · exact Slice.transferReversals.mem_others reversals (by simp [Row.table])
  · intro q terminal
    have put := @Table.mem_put _ _ _ _ before.payments p' q
    rw [← payments] at put
    refine put.trans (or_congr (by simp) (and_iff_left_of_imp fun hq same => ?_))
    obtain rfl : q = p := Table.eq_of_key_eq hq mem (same.trans id)
    exact terminal pending

theorem mem_intended {before after : Db} (transfers : after.transfers = before.transfers)
    (reversals : after.transferReversals = before.transferReversals) {p : Payment}
    (payments : after.payments.rows = before.payments.rows ++ [p]) (pending : p.status = .pending) :
    ∀ x : Row, x.news.isSome → (x ∈ after ↔ x ∈ before) := by
  refine news_cases ?_ ?_ ?_
  · exact fun t => (transfers ▸ Iff.rfl : t ∈ after.transfers ↔ t ∈ before.transfers)
  · exact fun v => (reversals ▸ Iff.rfl : v ∈ after.transferReversals ↔ v ∈ before.transferReversals)
  · intro q terminal
    refine (Slice.payments.mem_inserted payments q).trans (or_iff_right fun same => terminal ?_)
    rw [Slice.payments.row_inj.mp same, pending]

theorem tells_settled {draws : Draws} {requested : Nat → Draws} {event : VerifiedPaymentEvent} {provider : PaymentProvider}
    {p : Payment} {a events : List Write} (ledgerTransactionId : Option Uuid)
    (announces : Announces seen draws (PaymentsService.settledEvent draws p event.status) events)
    (accepts : Accepts now (a ++ events)) (sound : seen.Sound) (later : now.Extends seen) (mem : p ∈ now.payments)
    (pending : p.status = .pending) (payments : Slice.payments.written a = [PaymentsService.terminated draws event ledgerTransactionId p])
    (others : ∀ {ρ : Type} [Keyed ρ Uuid] (slice : Slice ρ),
      slice.name ∈ [.outboxEvent, .webhookDelivery, .auditLog, .transfer, .transferReversal] → slice.written a = []) :
    Tells (.settle requested event provider) seen now (now.write (a ++ events)) := by
  have told := announces.told (List.append_nil _).symm accepts sound later (others _ (by simp)) (others _ (by simp)) rfl rfl
  have same {ρ : Type} [Keyed ρ Uuid] (slice : Slice ρ) (name : slice.name ∈ [.auditLog, .transfer, .transferReversal]) :
      slice.table (now.write (a ++ events)) = slice.table now := by
    refine slice.table_same ?_
    rw [Slice.written_append, others slice (by simp at name ⊢; tauto), announces.written (by simp at name ⊢; grind)]
    rfl
  have put := Slice.payments.table_write now (a ++ events)
  rw [Slice.written_append, payments, announces.written (by simp)] at put
  have terminal := event.terminal
  refine .told (.payment (PaymentsService.terminated draws event ledgerTransactionId p)) _ _ trivial ?_ (fun known => ?_)
    (mem_settled (same .transfers (by simp)) (same .transferReversals (by simp)) put mem rfl pending) ?_ told.1 told.2
  · rw [Row.news, if_neg (by exact terminal)]
    rfl
  · have fixed : PaymentsService.terminated draws event ledgerTransactionId p = p := Table.eq_of_key_eq known mem rfl
    exact terminal ((congrArg Payment.status fixed).trans pending)
  · exact (Db.notes_congr (same .auditLogs (by simp))).trans (List.append_nil _).symm

theorem Deed.tells {base : Nat → Db} {i : Request} (h : Deed base i ws) (accepts : Accepts now ws)
    (sound : (base 0).Sound) (later : now.Extends (base 0)) : Tells i (base 0) now (now.write ws) := by
  cases h with
  | aside side => exact .aside accepts side
  | posted m records =>
      exact .quiet (Db.notes_congr (Slice.auditLogs.table_same (by simp)))
        (Db.notices_congr (Slice.outboxEvents.table_same (by simp)))
        (Db.fannedOut_congr (Slice.webhookDeliveries.table_same (by simp)))
        (records_iff (Slice.transfers.table_same (by simp)) (Slice.transferReversals.table_same (by simp))
          (Slice.payments.table_same (by simp)))
  | @transferred draws senderUserId header input claim done request t ws transferred =>
      obtain ⟨source, destination, beneficiaryId, m, events, _, _, _, _, _, _, _, _, _, announces⟩ := transferred
      set t := TransfersService.completedTransfer draws senderUserId source destination beneficiaryId m.opened.id
        request.amountMinor
      have told := announces.told (a := .insert (.idempotencyRecord claim) :: (m.writes ++
        [.insert (.transfer t), .insert (.auditLog (TransfersService.createdAudit draws t))])) rfl accepts sound later
        (by simp) (by simp) (by simp) (by simp)
      have audits := Slice.auditLogs.rows_insert (x := TransfersService.createdAudit draws t) accepts (by simp)
        (by simp [announces.written])
      have transfers := Slice.transfers.rows_insert (x := t) accepts (by simp) (by simp [announces.written])
      have fresh := Slice.transfers.fresh_of_insert (x := t) accepts (by simp)
      refine .told (.transfer t) _ _ trivial rfl (fun mem => fresh t mem rfl) (news_cases ?_ ?_ ?_) ?_ told.1 told.2
      · exact Slice.transfers.mem_inserted transfers
      · exact Slice.transferReversals.mem_others (Slice.table_same _ (by simp [announces.written])) (by simp [Row.table])
      · exact fun p _ => Slice.payments.mem_others (Slice.table_same _ (by simp [announces.written])) (by simp [Row.table]) p
      · exact (congrArg (List.map AuditLog.note) audits).trans (List.map_append ..)
  | @reversed draws actorUserId transferId header input claim done v ws reversed =>
      obtain ⟨t, source, destination, m, events, _, _, _, _, _, _, _, _, _, _, _, _, announces⟩ := reversed
      set v := ReversalsService.newReversal draws actorUserId t m.opened.id
        (ReversalsService.normalizeRequest transferId input).reason
      have told := announces.told (a := .insert (.idempotencyRecord claim) :: (m.writes ++
        [.insert (.transferReversal v), .insert (.auditLog (ReversalsService.reversedAudit draws v))])) rfl accepts sound
        later (by simp) (by simp) (by simp) (by simp)
      have audits := Slice.auditLogs.rows_insert (x := ReversalsService.reversedAudit draws v) accepts (by simp)
        (by simp [announces.written])
      have reversals := Slice.transferReversals.rows_insert (x := v) accepts (by simp) (by simp [announces.written])
      have fresh := Slice.transferReversals.fresh_of_insert (x := v) accepts (by simp)
      refine .told (.transferReversal v) _ _ trivial rfl (fun mem => fresh v mem rfl) (news_cases ?_ ?_ ?_) ?_ told.1 told.2
      · exact Slice.transfers.mem_others (Slice.table_same _ (by simp [announces.written])) (by simp [Row.table])
      · exact Slice.transferReversals.mem_inserted reversals
      · exact fun p _ => Slice.payments.mem_others (Slice.table_same _ (by simp [announces.written])) (by simp [Row.table]) p
      · exact (congrArg (List.map AuditLog.note) audits).trans (List.map_append ..)
  | intended n wallet key hash amount _ _ =>
      have rows := Slice.payments.rows_insert accepts (List.mem_singleton_self _) (by simp)
      exact .quiet rfl rfl rfl (mem_intended rfl rfl rows rfl)
  | @settled draws event provider outcome ws attempt settles =>
      cases settles with
      | duplicate _ _ _ _ _ _ _ _ => exact .aside accepts aside_nil
      | repeated _ _ _ _ _ => exact .quiet rfl rfl rfl (records_iff rfl rfl rfl)
      | failed p events _ _ _ pending status announces =>
          have mem : p ∈ now.payments := (accepts_append.mp accepts).1.2.1.mem
          refine tells_settled none announces accepts sound later mem pending (by simp) fun slice name => ?_
          exact slice.written_others (by simp [Row.table]; grind)
      | succeeded p wallet clearing m events _ _ _ pending status _ _ _ _ _ announces =>
          set evidence : Write := .insert (.providerEvent (PaymentsService.evidence (draws attempt) p event provider))
          rw [← List.cons_append] at accepts ⊢
          have mem : p ∈ now.payments := by
            rw [← List.cons_append, List.append_assoc, accepts_append] at accepts
            rw [← Slice.payments_table, ← @Slice.table_same _ _ Slice.payments now (evidence :: m.writes) (by simp [evidence])]
            exact accepts.2.1.mem
          refine tells_settled (some m.opened.id) announces accepts sound later mem pending (by simp [evidence])
            fun slice name => ?_
          rw [Slice.written_cons, Slice.written_append, Movement.written_other (by simp; grind), List.nil_append,
            ← Slice.written_cons]
          exact slice.written_others (by simp [evidence, Row.table]; grind)

end

/-! ## Every state -/

/-- Whose records are told of in `db`, when they were not there in `old` already. -/
structure Db.Told (old db : Db) : Prop where
  kept : ∀ r ∈ old, r.news.isSome → r ∈ db
  notes : ∀ n, n ∈ db.notes ↔ ∃ r ∈ db, r.note = some n
  notices : ∀ n, n ∈ db.notices.map Prod.snd ↔ ∃ r ∈ db, r ∉ old ∧ r.news = some n

theorem Row.news_of_note {r : Row} {n : Note} (h : r.note = some n) : r.news.isSome := by
  cases r <;> simp_all [Row.note, Row.news]

theorem Tells.preserves {i : Request} {old seen before after : Db} (h : Tells i seen before after) (told : Db.Told old before) :
    Db.Told old after := by
  cases h with
  | quiet notes notices _ records =>
      refine ⟨fun r hr some => (records r some).mpr (told.kept r hr some), fun n => ?_, fun n => ?_⟩
      · rw [notes, told.notes]
        refine exists_congr fun r => and_congr_left fun said => ?_
        exact (records r (Row.news_of_note said)).symm
      · rw [notices, told.notices]
        refine exists_congr fun r => and_congr_left fun said => ?_
        exact (records r (by simp [said.2])).symm
  | told r e news _ said new records notes notices _ =>
      have unknown : r ∉ old := fun known => new (told.kept r known (by simp [said]))
      refine ⟨fun x hx some => (records x some).mpr (.inr (told.kept x hx some)), fun n => ?_, fun n => ?_⟩
      · rw [notes, List.mem_append, told.notes, Option.mem_toList]
        constructor
        · rintro (⟨x, hx, note⟩ | note)
          · exact ⟨x, (records x (Row.news_of_note note)).mpr (.inr hx), note⟩
          · exact ⟨r, (records r (by simp [said])).mpr (.inl rfl), note⟩
        · rintro ⟨x, hx, note⟩
          rcases (records x (Row.news_of_note note)).mp hx with rfl | hx
          · exact .inr note
          · exact .inl ⟨x, hx, note⟩
      · rw [notices, List.map_append, List.mem_append, told.notices, List.map_cons, List.map_nil, List.mem_singleton]
        constructor
        · rintro (⟨x, hx, other, some⟩ | rfl)
          · exact ⟨x, (records x (by simp [some])).mpr (.inr hx), other, some⟩
          · exact ⟨r, (records r (by simp [said])).mpr (.inl rfl), unknown, said⟩
        · rintro ⟨x, hx, other, some⟩
          rcases (records x (by simp [some])).mp hx with rfl | hx
          · exact .inr (Option.some.inj (some.symm.trans said))
          · exact .inl ⟨x, hx, other, some⟩

/-- Every side record is there once, and none without its record. -/
structure Db.Attended (old db : Db) : Prop where
  audited : ∀ r ∈ db, ∀ n, r.note = some n → ∃ a ∈ db.auditLogs, a.note = n ∧
    ∀ b ∈ db.auditLogs, b.action = n.action → b.transferId = n.transferId → b = a
  auditsRecorded : ∀ a ∈ db.auditLogs, ∃ r ∈ db, r.note = some a.note
  announced : ∀ r ∈ db, r ∉ old → ∀ n, r.news = some n → ∃ e ∈ db.outboxEvents, e.news = n ∧
    ∀ f ∈ db.outboxEvents, f.type = n.type → f.aggregateId = n.aggregateId → f = e
  eventsRecorded : ∀ e ∈ db.outboxEvents, ∃ r ∈ db, r ∉ old ∧ r.news = some e.news

theorem Db.Told.attended {old db : Db} (h : Db.Told old db) (sound : db.Sound) : Db.Attended old db where
  audited := by
    intro r hr n note
    obtain ⟨a, ha, rfl⟩ := List.mem_map.mp ((h.notes n).mpr ⟨r, hr, note⟩)
    refine ⟨a, ha, rfl, fun b hb action transfer => ?_⟩
    have same := sound.unique (.auditLog b) hb (.auditLog a) ha (.auditTransfer b.action b.transferId)
      (by simp [Row.keys, Row.slots]) (by simp [Row.keys, Row.slots, action, transfer, AuditLog.note])
    exact Slice.auditLogs.row_inj.mp same
  auditsRecorded a ha := (h.notes a.note).mp (List.mem_map_of_mem ha)
  announced := by
    intro r hr new n news
    obtain ⟨⟨id, _⟩, mem, rfl⟩ := List.mem_map.mp ((h.notices n).mpr ⟨r, hr, new, news⟩)
    obtain ⟨e, he, same⟩ := List.mem_map.mp mem
    obtain ⟨rfl, rfl⟩ := Prod.mk.inj same
    refine ⟨e, he, rfl, fun f hf type aggregate => ?_⟩
    have same := sound.unique (.outboxEvent f) hf (.outboxEvent e) he (.outboxAggregate f.type f.aggregateId)
      (by simp [Row.keys, Row.slots]) (by simp [Row.keys, Row.slots, type, aggregate, OutboxEvent.news])
    exact Slice.outboxEvents.row_inj.mp same
  eventsRecorded e he := by
    refine (h.notices e.news).mp (List.mem_map.mpr ⟨(e.id, e.news), ?_, rfl⟩)
    exact List.mem_map.mpr ⟨e, he, rfl⟩

/-! ## Deliveries -/

/-- The deliveries of an event are to the subscribers that the transaction saw from which it comes. -/
def Db.Delivers (db seen : Db) (e : Uuid) (actorUserId : Uuid) : Prop :=
  db.fannedOut.filter (fun d => d.1 = e) = (seen.subscribers actorUserId).map fun s => (e, s)

theorem Db.Sound.fannedOut_known {db : Db} (sound : db.Sound) {e s : Uuid} (h : (e, s) ∈ db.fannedOut) :
    e ∈ db.notices.map Prod.fst := by
  obtain ⟨d, hd, same⟩ := List.mem_map.mp h
  obtain ⟨rfl, rfl⟩ := Prod.mk.inj same
  have reference : Key.row .outboxEvent d.outboxEventId ∈ (Row.webhookDelivery d).references := by simp [Row.references]
  obtain ⟨x, hx, id⟩ := Slice.outboxEvents.exists_of_reference sound (r := .webhookDelivery d) hd reference
  exact List.mem_map.mpr ⟨(x.id, x.news), List.mem_map.mpr ⟨x, hx, rfl⟩, id⟩

theorem Db.notices_nodup (db : Db) : (db.notices.map Prod.fst).Nodup := by
  have ids : db.notices.map Prod.fst = db.outboxEvents.rows.map key := by
    simp [Db.notices, Function.comp_def, Keyed.key]
  rw [ids]
  exact db.outboxEvents.unique

theorem Tells.delivers {i : Request} {seen before after : Db} (h : Tells i seen before after) (sound : before.Sound)
    {e : Uuid} {n : News} (mem : (e, n) ∈ after.notices) :
    ((e, n) ∈ before.notices ∧ ∀ s, before.Delivers s e n.actorUserId → after.Delivers s e n.actorUserId) ∨
      (i.Records ∧ e ∉ before.notices.map Prod.fst ∧ after.Delivers seen e n.actorUserId) := by
  cases h with
  | quiet _ notices fannedOut _ =>
      rw [notices] at mem
      refine .inl ⟨mem, fun s delivers => ?_⟩
      rwa [Db.Delivers, fannedOut]
  | told r x news serves _ _ _ _ notices fannedOut =>
      have nodup := after.notices_nodup
      rw [notices, List.map_append, List.nodup_append] at nodup
      have fresh : x ∉ before.notices.map Prod.fst := fun known => nodup.2.2 x known x (by simp) rfl
      rw [notices, List.mem_append, List.mem_singleton] at mem
      rcases mem with old | new
      · have other : e ≠ x := fun same => fresh (same ▸ List.mem_map_of_mem old)
        refine .inl ⟨old, fun s delivers => ?_⟩
        rw [Db.Delivers, fannedOut, List.filter_append, delivers]
        simp [Ne.symm other]
      · obtain ⟨rfl, rfl⟩ := Prod.mk.inj new
        refine .inr ⟨serves, fresh, ?_⟩
        have none : before.fannedOut.filter (fun d => d.1 = e) = [] := by
          refine List.filter_eq_nil_iff.mpr fun d hd => ?_
          have known := sound.fannedOut_known (e := d.1) (s := d.2) hd
          simpa using fun same : d.1 = e => fresh (same ▸ known)
        rw [Db.Delivers, fannedOut, List.filter_append, none, List.nil_append]
        simp

/-! ## Runs -/

theorem Body.serializable {sha256Hex : String → String} {i : Request} {isolation : Isolation} {body : Tx AttemptOutcome}
    (h : Body sha256Hex i isolation body) (records : i.Records) : isolation = .serializable := by
  cases h <;> first | rfl | exact records.elim

/-- Commit `j` is of a serializable transaction whose snapshot is the state after `s` commits. -/
def SnapshotOf (sha256Hex : String → String) (initial : Db) (log : List (Entry Request Row)) (j s : Nat) : Prop :=
  ∃ (lt : j < log.length) (born : Nat) (body : Tx AttemptOutcome)
    (next : Ending DbError HttpException AttemptOutcome → Call) (outcome : AttemptOutcome) (view : View Settings Row Key),
    (program sha256Hex log[j].request).Leads (.transaction .serializable body next) ∧ log[j].writes = view.writes ∧
      (system sha256Hex initial).Committed log j born .serializable body outcome view fun _ => s

section
variable {sha256Hex : String → String} {initial : Db}
  {c : Config Db Settings Row Key DbError HttpException AttemptOutcome Result Request}

/-- What each commit of a run tells. -/
theorem tells (sound : initial.Sound) (h : (system sha256Hex initial).Reachable c) {j : Nat} (lt : j < c.log.length) :
    ∃ s ≤ j, Tells c.log[j].request (stateAt initial c.log s) (stateAt initial c.log j) (stateAt initial c.log (j + 1)) ∧
      (c.log[j].request.Records → SnapshotOf sha256Hex initial c.log j s) := by
  obtain ⟨states, earlier⟩ := reachable_sound sound h
  obtain ⟨_, born, isolation, body, next, outcome, view, bases, leads, written, committed⟩ := h.certified lt
  obtain ⟨ws, rows, accepts, change⟩ := change_of_committed leads committed
  have le := committed.seen.le 0
  refine ⟨bases 0, le, ?_, fun records => ?_⟩
  · rw [state_after lt (written.trans rows)]
    exact change.deed.tells accepts (states _ (le.trans lt.le)) (earlier _ _ le lt.le)
  · obtain rfl := ((program_bodies _).leads leads).1.serializable records
    have fixed : bases = fun _ => bases 0 := funext (committed.seen.fixed rfl)
    refine ⟨lt, born, body, next, outcome, view, leads, written, ?_⟩
    rwa [fixed] at committed

theorem reachable_told (sound : initial.Sound) (start : Db.Told initial initial)
    (h : (system sha256Hex initial).Reachable c) {k : Nat} (le : k ≤ c.log.length) :
    Db.Told initial (stateAt initial c.log k) := by
  induction k with
  | zero => exact start
  | succ j ih =>
      obtain ⟨s, _, tells, _⟩ := tells sound h le
      exact tells.preserves (ih (Nat.le_of_succ_le le))

theorem reachable_delivers (sound : initial.Sound) (none : initial.outboxEvents = .empty)
    (h : (system sha256Hex initial).Reachable c) {k : Nat} (le : k ≤ c.log.length) {e : Uuid} {n : News}
    (mem : (e, n) ∈ (stateAt initial c.log k).notices) :
    ∃ j s, j < k ∧ s ≤ j ∧ SnapshotOf sha256Hex initial c.log j s ∧ e ∉ (stateAt initial c.log j).notices.map Prod.fst ∧
      (e, n) ∈ (stateAt initial c.log (j + 1)).notices ∧
      (stateAt initial c.log k).Delivers (stateAt initial c.log s) e n.actorUserId := by
  induction k with
  | zero => simp [Db.notices, none, Table.empty] at mem
  | succ j ih =>
      obtain ⟨s, earlier, tells, snapshot⟩ := tells sound h le
      have sound := (reachable_sound sound h).1 j (Nat.le_of_succ_le le)
      rcases tells.delivers sound mem with ⟨old, kept⟩ | ⟨serves, fresh, delivers⟩
      · obtain ⟨j', s', lt, le', snapshot', fresh, there, delivers⟩ := ih (Nat.le_of_succ_le le) old
        exact ⟨j', s', Nat.lt_succ_of_lt lt, le', snapshot', fresh, there, kept _ delivers⟩
      · exact ⟨j, s, Nat.lt_succ_self j, earlier, snapshot serves, fresh, mem, delivers⟩

end

/-! ## From before the audit log was complete -/

/-- A database from before the outbox, whose audit rows and reversals have passed their constraint triggers. -/
structure Older (db : Db) : Prop where
  sound : db.Sound
  constrained : ∀ r ∈ db, r.table ∈ [.auditLog, .transferReversal] → atCommit db r = .ok ()
  outboxEvents : db.outboxEvents = .empty

/-- The database after the backfill of the audit log has committed. -/
def Backfilled (md5Uuid : String → Uuid) (older initial : Db) : Prop :=
  ∃ view, (Tx.committing (backfillAudits md5Uuid)).run (fun _ => older) { locals := {} } = .ok (.ok (), view) ∧
    initial = applyAll older view.writes

theorem validateAuditLogIntegrity_recorded {db : Db} {a : AuditLog} (checked : (Row.auditLog a).accept = .ok ())
    (h : validateAuditLogIntegrity db a = .ok ()) : ∃ r ∈ db, r.note = some a.note := by
  have shape := (Row.accept_eq_ok.mp checked).2 ("AuditLog_action_shape_check", (a.action == .transferReversed) == a.reversalId.isSome)
    (by simp [Row.checks])
  obtain ⟨owned, matching⟩ := bind_unit_eq_ok.mp h
  rw [failIf_eq_ok, not_not] at owned
  rw [failIf_eq_ok] at matching
  obtain ⟨t, found, sender⟩ := (Option.any_eq_true _ _).mp owned
  obtain ⟨ht, id⟩ := Table.find?_eq_some.mp found
  cases action : a.action with
  | transferCreated =>
      have none : a.reversalId = none := by
        rw [action] at shape
        exact Option.not_isSome_iff_eq_none.mp (by rw [← beq_iff_eq.mp shape]; decide)
      refine ⟨.transfer t, ht, ?_⟩
      simp only [decide_eq_true_eq] at sender
      rw [Row.note, AuditLog.note, action, none, ← sender, ← id]
      rfl
  | transferReversed =>
      obtain ⟨v, reversed, fits⟩ := (Option.any_eq_true _ _).mp (not_not.mp fun other => matching ⟨action, other⟩)
      obtain ⟨reversalId, named, found⟩ := Option.bind_eq_some_iff.mp reversed
      obtain ⟨hv, same⟩ := Table.find?_eq_some.mp found
      simp only [decide_eq_true_eq] at fits
      refine ⟨.transferReversal v, hv, ?_⟩
      rw [Row.note, AuditLog.note, action, named, fits.1, fits.2, ← same]
      rfl

theorem validateTransferReversalIntegrity_audited {db : Db} {v : TransferReversal}
    (h : validateTransferReversalIntegrity db v = .ok ()) :
    ∃ a ∈ db.auditLogs, (Row.transferReversal v).note = some a.note := by
  obtain ⟨_, h⟩ := bind_unit_eq_ok.mp h
  obtain ⟨_, h⟩ := bind_unit_eq_ok.mp h
  obtain ⟨_, h⟩ := bind_unit_eq_ok.mp h
  obtain ⟨_, audits⟩ := bind_unit_eq_ok.mp h
  rw [failIf_eq_ok, not_not] at audits
  obtain ⟨a, ha, fits⟩ := List.countP_pos_iff.mp (audits ▸ Nat.one_pos)
  simp only [decide_eq_true_eq] at fits
  obtain ⟨reversal, transfer, actor, action⟩ := fits
  exact ⟨a, ha, by rw [Row.note, AuditLog.note, reversal, transfer, actor, action]⟩

theorem ensures_backfillAudits {md5Uuid : String → Uuid} {older : Db} {v : View Settings Row Key}
    (h : Tracks (fun _ => older) v []) :
    (backfillAudits md5Uuid).Ensures (fun _ => older) (Tx.yields (fun _ => older) fun _ _ ws => ws =
      ((older.transfers.rows.filter fun t => ¬ older.hasCreatedAudit t).map fun t =>
        .insert (.auditLog (backfilledAudit md5Uuid t)))) v := by
  refine ensures_bind (ensures_setConfig h fun v₁ h₁ => ?_)
  refine ensures_createMany h₁ fun v₂ rows found h₂ => ⟨_, h₂, fun _ _ => ?_⟩
  cases found
  simp

theorem Older.backfilled {md5Uuid : String → Uuid} {older initial : Db} (h : Older older)
    (backfilled : Backfilled md5Uuid older initial) :
    initial.Sound ∧ initial.outboxEvents = .empty ∧ Db.Told initial initial := by
  obtain ⟨view, ran, rfl⟩ := backfilled
  have holds := (ensures_committing (ensures_backfillAudits (.start {}))).holds ran
  obtain ⟨ws, tracks, spec⟩ := holds
  have shape := spec older (Settled.snapshot older)
  have accepts := tracks.accepted older (Settled.snapshot older)
  have same {ρ : Type} [Keyed ρ Uuid] (slice : Slice ρ) (other : TableName.auditLog ≠ slice.name) :
      slice.table (older.write ws) = slice.table older := by
    refine slice.table_same (slice.written_others ?_)
    rw [shape]
    intro w hw
    obtain ⟨t, _, rfl⟩ := List.mem_map.mp hw
    exact other
  have audits := Slice.auditLogs.rows_inserts accepts (by
    rw [shape]
    intro w hw x row
    obtain ⟨t, _, rfl⟩ := List.mem_map.mp hw
    exact congrArg Write.insert row)
  have records (r : Row) (some : r.news.isSome) : r ∈ older.write ws ↔ r ∈ older :=
    records_iff (same .transfers (by simp)) (same .transferReversals (by simp)) (same .payments (by simp)) r some
  have written : Slice.auditLogs.written ws =
      (older.transfers.rows.filter fun t => ¬ older.hasCreatedAudit t).map (backfilledAudit md5Uuid) := by
    rw [shape, Slice.written_map]
    simp
  have notes (n : Note) : n ∈ (older.write ws).notes ↔ n ∈ older.notes ∨
      ∃ t ∈ older.transfers, older.hasCreatedAudit t = false ∧ (backfilledAudit md5Uuid t).note = n := by
    rw [Db.notes, ← Slice.auditLogs_table, audits, written, List.map_append, List.mem_append]
    simp [Table.mem_def, and_assoc, Db.notes]
  rw [tracks.writes]
  change (older.write ws).Sound ∧ (older.write ws).outboxEvents = .empty ∧ Db.Told (older.write ws) (older.write ws)
  have none : (older.write ws).outboxEvents = .empty := (same .outboxEvents (by simp)).trans h.outboxEvents
  refine ⟨accepts.sound h.sound, none, fun r hr _ => hr, fun n => ?_, fun n => ?_⟩
  · rw [notes]
    constructor
    · rintro (known | ⟨t, ht, _, rfl⟩)
      · obtain ⟨a, ha, rfl⟩ := List.mem_map.mp known
        obtain ⟨r, hr, note⟩ := validateAuditLogIntegrity_recorded (h.sound.checked (.auditLog a) ha)
          (h.constrained (.auditLog a) ha (by simp [Row.table]))
        exact ⟨r, (records r (Row.news_of_note note)).mpr hr, note⟩
      · exact ⟨.transfer t, (records (.transfer t) rfl).mpr ht, rfl⟩
    · rintro ⟨r, hr, note⟩
      have hr := (records r (Row.news_of_note note)).mp hr
      cases r with
      | transfer t =>
          obtain rfl := Option.some.inj note
          cases audited : older.hasCreatedAudit t with
          | false => exact .inr ⟨t, hr, audited, rfl⟩
          | true =>
              obtain ⟨a, ha, fits⟩ := List.any_eq_true.mp audited
              simp only [decide_eq_true_eq] at fits
              obtain ⟨r, hr', said⟩ := validateAuditLogIntegrity_recorded (h.sound.checked (.auditLog a) ha)
                (h.constrained (.auditLog a) ha (by simp [Row.table]))
              cases r with
              | transfer t' =>
                  have agrees := Note.mk.inj (Option.some.inj said)
                  obtain rfl : t' = t := Table.eq_of_key_eq hr' hr (agrees.2.1.trans fits.2)
                  exact .inl (List.mem_map.mpr ⟨a, ha, (Option.some.inj said).symm⟩)
              | transferReversal v =>
                  have agrees := Note.mk.inj (Option.some.inj said)
                  cases agrees.1.trans fits.1
              | _ => cases said
      | transferReversal v =>
          obtain rfl := Option.some.inj note
          obtain ⟨a, ha, said⟩ := validateTransferReversalIntegrity_audited
            (h.constrained (.transferReversal v) hr (by simp [Row.table]))
          exact .inl (List.mem_map.mpr ⟨a, ha, (Option.some.inj said).symm⟩)
      | _ => cases note
  · rw [Db.notices, none]
    exact iff_of_false (by simp [Table.empty]) fun ⟨r, hr, new, _⟩ => new hr

/-- Every transfer and every reversal has its audit row and every record of the run its outbox event, once
each and never one without the record. The deliveries of an event are to the subscribers that were enabled
in the snapshot of the transaction that inserted it, one each. -/
theorem side_records_once {sha256Hex : String → String} {md5Uuid : String → Uuid} {older initial : Db}
    {c : Config Db Settings Row Key DbError HttpException AttemptOutcome Result Request} (old : Older older)
    (backfilled : Backfilled md5Uuid older initial) (reach : (system sha256Hex initial).Reachable c) {k : Nat}
    (le : k ≤ c.log.length) :
    Db.Attended initial (stateAt initial c.log k) ∧
      ∀ e ∈ (stateAt initial c.log k).outboxEvents, ∃ j s, j < k ∧ s ≤ j ∧ SnapshotOf sha256Hex initial c.log j s ∧
        (∀ x ∈ (stateAt initial c.log j).outboxEvents, x.id ≠ e.id) ∧
        (∃ x ∈ (stateAt initial c.log (j + 1)).outboxEvents, x.id = e.id) ∧
        (stateAt initial c.log k).Delivers (stateAt initial c.log s) e.id e.actorUserId := by
  obtain ⟨sound, none, start⟩ := old.backfilled backfilled
  refine ⟨(reachable_told sound start reach le).attended ((reachable_sound sound reach).1 k le), fun e he => ?_⟩
  have mem : (e.id, e.news) ∈ (stateAt initial c.log k).notices := List.mem_map.mpr ⟨e, he, rfl⟩
  obtain ⟨j, s, lt, earlier, snapshot, fresh, there, delivers⟩ := reachable_delivers sound none reach le mem
  refine ⟨j, s, lt, earlier, snapshot, fun x hx same => fresh ?_, ?_, delivers⟩
  · exact List.mem_map.mpr ⟨(x.id, x.news), List.mem_map.mpr ⟨x, hx, rfl⟩, same⟩
  · obtain ⟨x, hx, same⟩ := List.mem_map.mp there
    exact ⟨x, hx, (Prod.mk.inj same).1⟩

theorem migrated_older : Older migrated where
  sound := migrated_sound
  constrained := by
    intro r hr table
    cases r with
    | auditLog a => exact absurd hr (Table.not_mem_empty a)
    | transferReversal v => exact absurd hr (Table.not_mem_empty v)
    | _ => simp [Row.table] at table
  outboxEvents := rfl

/-- There was nothing to backfill. -/
theorem migrated_backfilled : Backfilled (fun _ => usdClearing.id) migrated migrated := ⟨_, rfl, rfl⟩

/-- The reversal is delivered to the subscriber, who came after the payment and the transfer. -/
theorem side_records_once_sample :
    sampleState.auditLogs.rows.map AuditLog.transferId = [sampleUuid 4 6, sampleUuid 4 6] ∧
    sampleState.webhookDeliveries.rows.map WebhookDelivery.subscriptionId = [sampleSubscriber.id] ∧
    Db.Attended migrated sampleState ∧
    ∀ e ∈ sampleState.outboxEvents, ∃ j s, j < 7 ∧ s ≤ j ∧
      sampleState.Delivers (stateAt migrated (sampleLog 7) s) e.id e.actorUserId := by
  obtain ⟨_, _, _, _, _, audits, _, _, deliveries⟩ := sampleLog_seven
  obtain ⟨c, reach, log, length, state⟩ := sampleState_reached
  obtain ⟨attended, delivers⟩ := side_records_once migrated_older migrated_backfilled reach length.ge
  rw [state] at attended delivers
  rw [log] at delivers
  refine ⟨audits, deliveries, attended, fun e he => ?_⟩
  obtain ⟨j, s, lt, le, _, _, _, sent⟩ := delivers e he
  exact ⟨j, s, lt, le, sent⟩

end Fintech
