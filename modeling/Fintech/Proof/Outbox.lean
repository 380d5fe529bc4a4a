import Fintech.Model.AsyncWorker

/-!
# The outbox loses nothing and notifies once

A claim carries no token, so several workers can act on one event. What a step can do to an event
row is said once, by `EventStep`; a release that would take a row out of `PUBLISHED` is not among
its cases because the state check refuses it.
-/

namespace Fintech.Outbox
open Relational Relation AsyncWorkerService NotificationService

variable {c c' : Config}

/-! ## Claims -/

theorem candidates_sublist (db : Db) (now : Time) (locked : Uuid → Bool) :
    ∃ es : List OutboxEvent, (candidates db now locked).Sublist es ∧
      es.Perm (db.outboxEvents.rows.filter fun e => claimable now e && !locked e.id) :=
  ⟨_, List.take_sublist _ _, List.mergeSort_perm _ _⟩

theorem mem_candidates {db : Db} {now : Time} {locked : Uuid → Bool} {e : OutboxEvent}
    (h : e ∈ candidates db now locked) : e ∈ db.outboxEvents ∧ claimable now e := by
  obtain ⟨es, sub, perm⟩ := candidates_sublist db now locked
  have mem := perm.mem_iff.mp (sub.mem h)
  simp only [List.mem_filter, Bool.and_eq_true] at mem
  exact ⟨mem.1, mem.2.1⟩

theorem candidates_nodup (db : Db) (now : Time) (locked : Uuid → Bool) :
    ((candidates db now locked).map key).Nodup := by
  obtain ⟨es, sub, perm⟩ := candidates_sublist db now locked
  have all : ((db.outboxEvents.rows.filter fun e => claimable now e && !locked e.id).map key).Nodup :=
    db.outboxEvents.unique.sublist (List.filter_sublist.map key)
  exact ((perm.map key).nodup_iff.mpr all).sublist (sub.map key)

theorem claimBatch_rows (db : Db) (now : Time) (locked : Uuid → Bool) :
    (claimBatch db now locked).1.outboxEvents.rows = db.outboxEvents.rows.map fun e =>
      if e.id ∈ (candidates db now locked).map OutboxEvent.id then claim now e else e :=
  Table.rows_putAll_map db.outboxEvents (claim now) (fun _ => rfl) (candidates db now locked)
    (fun _ h => (mem_candidates h).1) (candidates_nodup db now locked)

/-! ## What a step does to an event -/

/-- From the row before a step to the row after it. -/
inductive EventStep (c : Config) (e : OutboxEvent) : OutboxEvent → Prop
  | same : EventStep c e e
  | claim (now : Time) : claimable now e → EventStep c e (claim now e)
  | publish (now : Time) : (∃ p ∈ c.publishers, p.stage = .recording ∧ ∃ e₀ ∈ p.events.head?, e₀.id = e.id) →
      EventStep c e (published now e)
  | release (e₀ : OutboxEvent) (now : Time) (error : String) :
      (released e₀ now error e).stateCheck → EventStep c e (released e₀ now error e)

theorem EventStep.identity {e e' : OutboxEvent} (h : EventStep c e e') :
    e'.id = e.id ∧ e'.type = e.type ∧ e'.actorUserId = e.actorUserId := by
  cases h <;> exact ⟨rfl, rfl, rfl⟩

theorem EventStep.stateCheck {e e' : OutboxEvent} (h : EventStep c e e') (ok : e.stateCheck) :
    e'.stateCheck := by
  cases h with
  | same => exact ok
  | claim now able =>
      -- a claimable row is not published, so its `publishedAt` is null
      simp only [claimable, Bool.or_eq_true, Bool.and_eq_true, beq_iff_eq] at able
      rcases able with ⟨status, _⟩ | ⟨status, _⟩ <;>
        simp_all [OutboxEvent.stateCheck, AsyncWorkerService.claim]
  | publish now _ => rfl
  | release e₀ now error check => exact check

theorem EventStep.published {e e' : OutboxEvent} (h : EventStep c e e') (ok : e.stateCheck)
    (status : e.status = .published) : e'.status = .published := by
  cases h with
  | same => exact status
  | claim now able => simp [claimable, status] at able
  | publish now _ => rfl
  | release e₀ now error check =>
      simp only [OutboxEvent.stateCheck, status, Bool.and_eq_true] at ok
      simp [OutboxEvent.stateCheck, released, Option.isSome_iff_ne_none.mp ok.2] at check

theorem updateEvent_eq_ok {db db' : Db} {id : Uuid} {f : OutboxEvent → OutboxEvent}
    (h : updateEvent db id f = .ok db') : ∃ e ∈ db.outboxEvents, e.id = id ∧ (f e).stateCheck ∧
      db' = { db with outboxEvents := db.outboxEvents.put (f e) } := by
  unfold updateEvent at h
  cases found : db.outboxEvents.find? id with
  | none => simp [found] at h
  | some e =>
      simp only [found, bind_unit_eq_ok, pure, Except.pure, Except.ok.injEq] at h
      obtain ⟨mem, rfl⟩ := Table.find?_eq_some.mp found
      refine ⟨e, mem, rfl, ?_, h.2.symm⟩
      exact (Row.accept_eq_ok.mp h.1).2 ("OutboxEvent_state_check", (f e).stateCheck) (by simp [Row.checks])

/-- The rows of the event table before and after one update. -/
theorem update_events {db db' : Db} {id : Uuid} {f : OutboxEvent → OutboxEvent}
    (h : updateEvent db id f = .ok db') (keeps : ∀ e, (f e).id = e.id)
    (P : OutboxEvent → OutboxEvent → Prop) (same : ∀ e, P e e)
    (changed : ∀ e ∈ db.outboxEvents, e.id = id → (f e).stateCheck → P e (f e)) :
    (∀ e ∈ db.outboxEvents, ∃ e' ∈ db'.outboxEvents, P e e') ∧
      (∀ e' ∈ db'.outboxEvents, ∃ e ∈ db.outboxEvents, P e e') := by
  obtain ⟨e, mem, rfl, check, rfl⟩ := updateEvent_eq_ok h
  refine ⟨fun x hx => ?_, fun x hx => ?_⟩
  · by_cases hid : x.id = e.id
    · obtain rfl := Table.eq_of_key_eq hx mem hid
      exact ⟨f x, Table.mem_put_self _ _, changed x mem rfl check⟩
    · exact ⟨x, Table.mem_put_of_ne hx fun h => hid (h.trans (keeps e)), same x⟩
  · rcases Table.mem_put.mp hx with rfl | ⟨hx, _⟩
    · exact ⟨e, mem, changed e mem rfl check⟩
    · exact ⟨x, hx, same x⟩

theorem publish_of_split {before after : List Publisher} {e e₀ : OutboxEvent} {es : List OutboxEvent}
    (now : Time) (h : c.publishers = before ++ ⟨.recording, e₀ :: es⟩ :: after) (hid : e.id = e₀.id) :
    EventStep c e (published now e) :=
  .publish now ⟨⟨.recording, e₀ :: es⟩, by simp [h], rfl, e₀, rfl, hid.symm⟩

/-- Everything a step can do to the event table. -/
theorem Step.events (h : Step c c') :
    (∀ e ∈ c.db.outboxEvents, ∃ e' ∈ c'.db.outboxEvents, EventStep c e e') ∧
      (∀ e' ∈ c'.db.outboxEvents,
        (e'.status = .pending ∧ e'.lockedAt = none ∧ e'.publishedAt = none ∧
          ∀ e ∈ c.db.outboxEvents, e.id ≠ e'.id) ∨
        ∃ e ∈ c.db.outboxEvents, EventStep c e e') := by
  have unchanged : ∀ {db : Db}, db.outboxEvents = c.db.outboxEvents →
      (∀ e ∈ c.db.outboxEvents, ∃ e' ∈ db.outboxEvents, EventStep c e e') ∧
      (∀ e' ∈ db.outboxEvents, (e'.status = .pending ∧ e'.lockedAt = none ∧ e'.publishedAt = none ∧
        ∀ e ∈ c.db.outboxEvents, e.id ≠ e'.id) ∨ ∃ e ∈ c.db.outboxEvents, EventStep c e e') := by
    intro db hdb
    rw [hdb]
    exact ⟨fun e he => ⟨e, he, .same⟩, fun e he => .inr ⟨e, he, .same⟩⟩
  cases h with
  | emit e fresh pending unlocked unpublished =>
      refine ⟨fun x hx => ⟨x, Table.mem_put_of_ne hx (fresh x hx), .same⟩, fun x hx => ?_⟩
      rcases Table.mem_put.mp hx with rfl | ⟨hx, _⟩
      · exact .inl ⟨pending, unlocked, unpublished, fresh⟩
      · exact .inr ⟨x, hx, .same⟩
  | claim now locked =>
      have step : ∀ e ∈ c.db.outboxEvents, EventStep c e
          (if e.id ∈ (candidates c.db now locked).map OutboxEvent.id then
            AsyncWorkerService.claim now e else e) := by
        intro e he
        split
        · rename_i listed
          obtain ⟨e₀, h₀, hid⟩ := List.mem_map.mp listed
          obtain ⟨mem, able⟩ := mem_candidates h₀
          obtain rfl := Table.eq_of_key_eq mem he hid
          exact .claim now able
        · exact .same
      refine ⟨fun e he => ⟨_, ?_, step e he⟩, fun e' he' => ?_⟩
      · rw [Table.mem_def, claimBatch_rows]
        exact List.mem_map_of_mem he
      · rw [Table.mem_def, claimBatch_rows] at he'
        obtain ⟨e, he, rfl⟩ := List.mem_map.mp he'
        exact .inr ⟨e, he, step e he⟩
  | add _ => exact unchanged rfl
  | addFails _ _ _ => exact unchanged rfl
  | record now split ok =>
      have both := update_events ok (fun _ => rfl) (EventStep c) (fun _ => .same) fun e _ hid _ =>
        publish_of_split now split hid
      exact ⟨both.1, fun e' he' => .inr (both.2 e' he')⟩
  | recordFails error now split applied =>
      rcases applied with rfl | ok
      · exact unchanged rfl
      · have both := update_events ok (fun _ => rfl) (EventStep c) (fun _ => .same) fun e _ hid _ =>
          publish_of_split now split hid
        exact ⟨both.1, fun e' he' => .inr (both.2 e' he')⟩
  | @release before after e es db error now split ok =>
      have both := update_events ok (fun _ => rfl) (EventStep c) (fun _ => .same) fun x _ _ check =>
        .release e now error check
      exact ⟨both.1, fun e' he' => .inr (both.2 e' he')⟩
  | stop _ => exact unchanged rfl
  | execute _ _ => exact unchanged rfl
  | complete id _ ok =>
      refine unchanged ?_
      unfold persistForEvent at ok
      split at ok
      · cases ok
        rfl
      · simp only [bind_eq_ok, pure, Except.pure, Except.ok.injEq] at ok
        obtain ⟨_, _, rfl⟩ := ok
        rfl

/-! ## What a step does to the notifications -/

/-- The notification type of the same name. -/
def notificationType : OutboxEventType → NotificationType
  | .paymentSucceeded => .paymentSucceeded
  | .paymentFailed => .paymentFailed
  | .transferCompleted => .transferCompleted
  | .transferReversed => .transferReversed

theorem content_type (type : OutboxEventType) (id : Uuid) : (content type id).1 = notificationType type := by
  cases type <;> rfl

/-- The notification is about the event: to its actor and of its type. -/
def About (n : Notification) (e : OutboxEvent) : Prop :=
  n.outboxEventId = e.id ∧ n.userId = e.actorUserId ∧ n.type = notificationType e.type

theorem persistForEvent_eq_ok {db db' : Db} {e : OutboxEvent} {id : Uuid}
    (h : persistForEvent db e id = .ok db') :
    (db' = db ∧ ∃ n ∈ db.notifications, n.outboxEventId = e.id) ∨
      ∃ new, About new e ∧ (∀ n ∈ db.notifications, n.outboxEventId ≠ e.id ∧ n.id ≠ new.id) ∧
        db' = { db with notifications := db.notifications.put new } := by
  unfold persistForEvent at h
  cases found : db.notifications.rows.find? (fun n => n.outboxEventId = e.id) with
  | some n =>
      simp only [found, Except.ok.injEq] at h
      exact .inl ⟨h.symm, n, List.mem_of_find?_eq_some found, by simpa using List.find?_some found⟩
  | none =>
      simp only [found, bind_eq_ok, pure, Except.pure, Except.ok.injEq] at h
      obtain ⟨_, inserted, rfl⟩ := h
      refine .inr ⟨_, ⟨rfl, rfl, content_type e.type e.aggregateId⟩, fun n hn => ⟨?_, ?_⟩, rfl⟩
      · simpa using List.find?_eq_none.mp found n hn
      · exact fun same => @Db.insert_fresh _ _ _ _ inserted (.notification n) hn (congrArg (Key.row .notification) same)

theorem Step.notifications (h : Step c c') :
    (c'.db.notifications = c.db.notifications ∧ (c'.completed = c.completed ∨
      ∃ e ∈ c.executing, c'.completed = c.completed ++ [e.id] ∧
        ∃ n ∈ c.db.notifications, n.outboxEventId = e.id)) ∨
      ∃ e ∈ c.executing, ∃ new, About new e ∧
        (∀ n ∈ c.db.notifications, n.outboxEventId ≠ e.id ∧ n.id ≠ new.id) ∧
        c'.db.notifications = c.db.notifications.put new ∧ c'.completed = c.completed ++ [e.id] := by
  cases h with
  | complete id mem ok =>
      rcases persistForEvent_eq_ok ok with ⟨rfl, known⟩ | ⟨new, about, fresh, rfl⟩
      · exact .inl ⟨rfl, .inr ⟨_, mem, rfl, known⟩⟩
      · exact .inr ⟨_, mem, new, about, fresh, rfl, rfl⟩
  | record _ _ ok =>
      obtain ⟨_, _, _, _, rfl⟩ := updateEvent_eq_ok ok
      exact .inl ⟨rfl, .inl rfl⟩
  | recordFails _ _ _ applied =>
      rcases applied with rfl | ok
      · exact .inl ⟨rfl, .inl rfl⟩
      · obtain ⟨_, _, _, _, rfl⟩ := updateEvent_eq_ok ok
        exact .inl ⟨rfl, .inl rfl⟩
  | release _ _ ok =>
      obtain ⟨_, _, _, _, rfl⟩ := updateEvent_eq_ok ok
      exact .inl ⟨rfl, .inl rfl⟩
  | _ => exact .inl ⟨rfl, .inl rfl⟩

/-! ## The invariant -/

structure Invariant (c : Config) : Prop where
  checked : ∀ e ∈ c.db.outboxEvents, e.stateCheck
  recording : ∀ p ∈ c.publishers, p.stage = .recording → ∀ e ∈ p.events.head?, e.id ∈ c.added
  published : ∀ e ∈ c.db.outboxEvents, e.status = .published → e.id ∈ c.added
  known : ∀ x ∈ c.executing, ∃ e ∈ c.db.outboxEvents,
    e.id = x.id ∧ e.type = x.type ∧ e.actorUserId = x.actorUserId
  addressed : ∀ n ∈ c.db.notifications, ∃ e ∈ c.db.outboxEvents, About n e
  once : ∀ n ∈ c.db.notifications, ∀ n' ∈ c.db.notifications, n.outboxEventId = n'.outboxEventId → n = n'
  notified : ∀ id ∈ c.completed, ∃ n ∈ c.db.notifications, n.outboxEventId = id

theorem Invariant.start (h : Start c) : Invariant c := by
  obtain ⟨new, none, publishers, added, jobs, executing, completed⟩ := h
  exact {
    checked := fun e he => by simp [OutboxEvent.stateCheck, new e he]
    recording := by simp [publishers]
    published := fun e he status => by simp [new e he] at status
    known := by simp [executing]
    addressed := by simp [none]
    once := by simp [none]
    notified := by simp [completed] }

theorem Step.added (h : Step c c') : c.added ⊆ c'.added := by
  cases h with
  | add _ => exact List.subset_append_left _ _
  | _ => exact List.Subset.refl _

/-- Whoever is recording after a step was recording before it, or has just added its event. -/
theorem Step.recording (h : Step c c') (inv : Invariant c) :
    ∀ p ∈ c'.publishers, p.stage = .recording → ∀ e ∈ p.events.head?, e.id ∈ c'.added := by
  have others : ∀ {before after : List Publisher} {p q : Publisher}, c.publishers = before ++ p :: after →
      q ∈ before ∨ q ∈ after → q.stage = .recording → ∀ e ∈ q.events.head?, e.id ∈ c.added := by
    intro before after p q split mem
    refine inv.recording q ?_
    rw [split, List.mem_append, List.mem_cons]
    exact mem.imp_right .inr
  intro p hp stage e he
  cases h with
  | claim now locked =>
      rcases List.mem_append.mp hp with hp | hp
      · exact inv.recording p hp stage e he
      · obtain rfl := List.mem_singleton.mp hp
        cases stage
  | add split =>
      rcases List.mem_append.mp hp with hp | hp
      · exact List.mem_append_left _ (others split (.inl hp) stage e he)
      · rcases List.mem_cons.mp hp with rfl | hp
        · cases he
          exact List.mem_append_right _ (List.mem_singleton.mpr rfl)
        · exact List.mem_append_left _ (others split (.inr hp) stage e he)
  | stop split => exact others split (List.mem_append.mp hp) stage e he
  | emit _ _ _ _ _ => exact inv.recording p hp stage e he
  | execute _ _ => exact inv.recording p hp stage e he
  | complete _ _ _ => exact inv.recording p hp stage e he
  | addFails _ _ split | record _ split _ | recordFails _ _ split _ | release _ split _ =>
      rcases List.mem_append.mp hp with hp | hp
      · exact others split (.inl hp) stage e he
      · rcases List.mem_cons.mp hp with rfl | hp
        · cases stage
        · exact others split (.inr hp) stage e he

theorem Step.executing (h : Step c c') : ∀ x ∈ c'.executing, x ∈ c.executing ∨ x ∈ c.db.outboxEvents := by
  cases h with
  | execute _ found =>
      intro x hx
      rcases List.mem_append.mp hx with hx | hx
      · exact .inl hx
      · rw [List.mem_singleton.mp hx]
        exact .inr (Table.find?_eq_some.mp found).1
  | _ => exact fun x hx => .inl hx

theorem Invariant.step (inv : Invariant c) (h : Step c c') : Invariant c' := by
  obtain ⟨forward, back⟩ := h.events
  have kept : ∀ e ∈ c.db.outboxEvents, ∃ e' ∈ c'.db.outboxEvents,
      e'.id = e.id ∧ e'.type = e.type ∧ e'.actorUserId = e.actorUserId := by
    intro e he
    obtain ⟨e', he', step⟩ := forward e he
    exact ⟨e', he', step.identity⟩
  have known : ∀ x ∈ c'.executing, ∃ e ∈ c'.db.outboxEvents,
      e.id = x.id ∧ e.type = x.type ∧ e.actorUserId = x.actorUserId := by
    intro x hx
    rcases h.executing x hx with hx | hx
    · obtain ⟨e, he, id, type, actor⟩ := inv.known x hx
      obtain ⟨e', he', id', type', actor'⟩ := kept e he
      exact ⟨e', he', id'.trans id, type'.trans type, actor'.trans actor⟩
    · exact kept x hx
  have addressed : ∀ n, (∃ e ∈ c.db.outboxEvents, About n e) → ∃ e ∈ c'.db.outboxEvents, About n e := by
    rintro n ⟨e, he, id, user, type⟩
    obtain ⟨e', he', id', type', actor'⟩ := kept e he
    exact ⟨e', he', id.trans id'.symm, user.trans actor'.symm, type' ▸ type⟩
  refine { checked := ?_, recording := h.recording inv, published := ?_, known, addressed := ?_, once := ?_, notified := ?_ }
  · intro e' he'
    rcases back e' he' with ⟨pending, unlocked, unpublished, _⟩ | ⟨e, he, step⟩
    · simp [OutboxEvent.stateCheck, pending, unlocked, unpublished]
    · exact step.stateCheck (inv.checked e he)
  · intro e' he' status
    rcases back e' he' with ⟨pending, _⟩ | ⟨e, he, step⟩
    · simp [pending] at status
    · cases step with
      | same => exact h.added (inv.published _ he status)
      | claim _ _ => cases status
      | publish _ recorded =>
          obtain ⟨p, hp, stage, e₀, head, id⟩ := recorded
          exact h.added (id ▸ inv.recording p hp stage e₀ head)
      | release _ _ _ _ => cases status
  · intro n hn
    rcases h.notifications with ⟨same, _⟩ | ⟨x, hx, new, about, _, put, _⟩
    · exact addressed n (inv.addressed n (same ▸ hn))
    · rw [put] at hn
      rcases Table.mem_put.mp hn with rfl | ⟨hn, _⟩
      · obtain ⟨e, he, id, type, actor⟩ := inv.known x hx
        exact addressed n ⟨e, he, about.1.trans id.symm, about.2.1.trans actor.symm, type ▸ about.2.2⟩
      · exact addressed n (inv.addressed n hn)
  · intro n hn n' hn' same
    rcases h.notifications with ⟨unchanged, _⟩ | ⟨x, hx, new, about, fresh, put, _⟩
    · exact inv.once n (unchanged ▸ hn) n' (unchanged ▸ hn') same
    · rw [put] at hn hn'
      rcases Table.mem_put.mp hn with e | ⟨hn, _⟩ <;> rcases Table.mem_put.mp hn' with e' | ⟨hn', _⟩
      · rw [e, e']
      · exact absurd (same.symm.trans (e ▸ about.1)) (fresh n' hn').1
      · exact absurd (same.trans (e' ▸ about.1)) (fresh n hn).1
      · exact inv.once n hn n' hn' same
  · intro id hid
    rcases h.notifications with ⟨same, completed | ⟨x, _, completed, n, hn, about⟩⟩ |
      ⟨x, _, new, about, fresh, put, completed⟩
    · rw [same]
      exact inv.notified id (completed ▸ hid)
    · rw [same]
      rcases List.mem_append.mp (completed ▸ hid) with hid | hid
      · exact inv.notified id hid
      · exact ⟨n, hn, about.trans (List.mem_singleton.mp hid).symm⟩
    · rw [put]
      rcases List.mem_append.mp (completed ▸ hid) with hid | hid
      · obtain ⟨n, hn, about'⟩ := inv.notified id hid
        exact ⟨n, Table.mem_put_of_ne hn (fresh n hn).2, about'⟩
      · exact ⟨new, Table.mem_put_self _ _, about.1.trans (List.mem_singleton.mp hid).symm⟩

theorem Reachable.inv (h : Reachable c) : Invariant c := by
  refine Transition.Reachable.invariant ?_ ?_ h
  · exact fun _ => Invariant.start
  · exact fun _ _ inv step => inv.step step

/-! ## Main result -/

def Published (id : Uuid) (c : Config) : Prop := ∃ e ∈ c.db.outboxEvents, e.id = id ∧ e.status = .published

theorem Published.step {id : Uuid} (reach : Reachable c) (step : Step c c') (h : Published id c) :
    Published id c' := by
  obtain ⟨e, he, hid, status⟩ := h
  obtain ⟨e', he', changed⟩ := step.events.1 e he
  exact ⟨e', he', changed.identity.1.trans hid, changed.published (reach.inv.checked e he) status⟩

/-- For every event of a reachable state: a published one was added to the queue and stays
published; any other is pending or processing and can be claimed once its `availableAt`, or five
minutes after its `lockedAt`, has passed; its columns satisfy the state check. It has at most one
notification, to its actor and of its type, and exactly one once an execution of its job has completed. -/
theorem outbox_safe (h : Reachable c) :
    (∀ e ∈ c.db.outboxEvents, e.status = .published → e.id ∈ c.added ∧
      ∀ c', ReflTransGen Step c c' → Published e.id c') ∧
    (∀ e ∈ c.db.outboxEvents, e.status ≠ .published →
      (e.status = .pending ∧ ∀ now, e.availableAt ≤ now → claimable now e) ∨
      (e.status = .processing ∧ ∃ lockedAt, e.lockedAt = some lockedAt ∧
        ∀ now, lockedAt + 5 * 60 * 1000 < now → claimable now e)) ∧
    (∀ e ∈ c.db.outboxEvents, e.stateCheck) ∧
    (∀ n ∈ c.db.notifications, ∃ e ∈ c.db.outboxEvents, About n e) ∧
    (∀ n ∈ c.db.notifications, ∀ n' ∈ c.db.notifications, n.outboxEventId = n'.outboxEventId → n = n') ∧
    (∀ id ∈ c.completed, ∃! n, n ∈ c.db.notifications ∧ n.outboxEventId = id) := by
  have inv := h.inv
  refine ⟨fun e he status => ⟨inv.published e he status, fun c' run => ?_⟩, ?_, inv.checked,
    inv.addressed, inv.once, fun id hid => ?_⟩
  · exact Transition.Reachable.stable (fun _ _ reach step => Published.step reach step) h run
      ⟨e, he, rfl, status⟩
  · intro e he unpublished
    have check := inv.checked e he
    cases status : e.status with
    | published => exact absurd status unpublished
    | pending => exact .inl ⟨rfl, fun now due => by simp [claimable, status, due]⟩
    | processing =>
        simp only [OutboxEvent.stateCheck, status, Bool.and_eq_true] at check
        obtain ⟨lockedAt, locked⟩ := Option.isSome_iff_exists.mp check.1
        refine .inr ⟨rfl, lockedAt, locked, fun now due => ?_⟩
        have : lockedAt < now - 300000 := Int.lt_sub_right_of_add_lt due
        simp [claimable, status, locked, this]
  · obtain ⟨n, hn, about⟩ := inv.notified id hid
    exact ⟨n, ⟨hn, about⟩, fun n' hn' => inv.once n' hn'.1 n hn (hn'.2.trans about.symm)⟩

/-! A run in which one event is claimed, added, published and notified. -/

def sampleUser : User where
  id := ⟨"00000000-0000-4000-8000-0000000000a1", by decide +kernel⟩
  email := "ada@example.com"
  passwordHash := "hash"
  firstName := "Ada"
  lastName := "Obi"
  createdAt := 0
  updatedAt := 0

def sampleEvent : OutboxEvent where
  id := ⟨"00000000-0000-4000-8000-0000000000b1", by decide +kernel⟩
  type := .transferCompleted
  aggregateType := "Transfer"
  aggregateId := ⟨"00000000-0000-4000-8000-0000000000c1", by decide +kernel⟩
  actorUserId := sampleUser.id
  payload := []
  availableAt := 0
  createdAt := 0

def sampleStart : Config where
  db := { users := Table.empty.put sampleUser, outboxEvents := Table.empty.put sampleEvent }
  publishers := []
  added := []
  jobs := []
  executing := []
  completed := []

theorem sampleStart_start : Start sampleStart := by
  refine ⟨?_, rfl, rfl, rfl, rfl, rfl, rfl⟩
  intro e he
  rcases Table.mem_put.mp he with rfl | ⟨he, _⟩
  · exact ⟨rfl, rfl, rfl⟩
  · simp at he

theorem sample_claim : claimBatch sampleStart.db 5 (fun _ => false) =
    ({ sampleStart.db with outboxEvents := Table.empty.put (claim 5 sampleEvent) }, [claim 5 sampleEvent]) := by
  have rows : sampleStart.db.outboxEvents.rows = [sampleEvent] := by decide
  have due : candidates sampleStart.db 5 (fun _ => false) = [sampleEvent] := by
    simp [candidates, rows, claimable, sampleEvent]
  rw [claimBatch, due]
  have put : (sampleStart.db.outboxEvents.putAll [claim 5 sampleEvent]) = Table.empty.put (claim 5 sampleEvent) :=
    Table.ext (by decide)
  simp only [List.map_cons, List.map_nil, put]

theorem outbox_safe_sample : ∃ c, Reachable c ∧ c.completed = [sampleEvent.id] ∧
    ∃! n, n ∈ c.db.notifications ∧ n.outboxEventId = sampleEvent.id := by
  have reach₁ := (Transition.Reachable.start sampleStart_start).step (Step.claim 5 fun _ => false)
  rw [sample_claim] at reach₁
  have reach₂ := reach₁.step (@Step.add _ [] [] (claim 5 sampleEvent) [] rfl)
  have reach₃ := reach₂.step (@Step.execute _ sampleEvent.id (claim 5 sampleEvent)
    (by simp [claim]) (by decide))
  have reach₄ := reach₃.step (@Step.record _ [] [] (claim 5 sampleEvent) [] _ 9 rfl
    (eq_ok_getD (by decide) sampleStart.db))
  have reach₅ := reach₄.step (@Step.complete _ (claim 5 sampleEvent) _
    ⟨"00000000-0000-4000-8000-0000000000d1", by decide +kernel⟩ (by simp)
    (eq_ok_getD (by decide) sampleStart.db))
  obtain ⟨_, _, _, _, _, notified⟩ := outbox_safe reach₅
  exact ⟨_, reach₅, rfl, notified _ (by simp [claim])⟩

end Fintech.Outbox
