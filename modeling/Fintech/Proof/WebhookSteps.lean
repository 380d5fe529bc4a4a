import Fintech.Model.WebhookDelivery

/-!
# What a transaction does to a delivery

The history of a delivery is the list of its attempts, each as number and status. `RowStep` says
once what any step does to a delivery row and its history; the invariants of the leases and of the
history are read off its cases.
-/

namespace Fintech.Webhooks
open Relational Relation WebhookDeliveryService WebhooksService

abbrev History := List (Nat × WebhookAttemptStatus)

def history (db : Db) (deliveryId : Uuid) : History :=
  (attemptsOf db deliveryId).map fun a => (a.number, a.status)

def mark (which : Nat × WebhookAttemptStatus → Bool) (status : WebhookAttemptStatus)
    (x : Nat × WebhookAttemptStatus) : Nat × WebhookAttemptStatus :=
  if which x then (x.1, status) else x

def isOpenEntry (x : Nat × WebhookAttemptStatus) : Bool := x.2 == .queued || x.2 == .sending

/-- Every open attempt gets the status. -/
def closeOpen (status : WebhookAttemptStatus) (h : History) : History := h.map (mark isOpenEntry status)

/-- The attempt with this number and status gets the new status. -/
def setCurrent (number : Nat) (old new : WebhookAttemptStatus) (h : History) : History :=
  h.map (mark (fun x => x.1 == number && x.2 == old) new)

/-- The delivery leaves its lease. -/
def release (status : WebhookDeliveryStatus) (r : WebhookDelivery) : WebhookDelivery :=
  { r with status := status, leaseToken := none, leaseUntil := none }

theorem mem_setCurrent {n : Nat} {old new : WebhookAttemptStatus} {h : History}
    {x : Nat × WebhookAttemptStatus} (hx : x ∈ setCurrent n old new h) :
    (x ∈ h ∧ x ≠ (n, old)) ∨ (x = (n, new) ∧ (n, old) ∈ h) := by
  obtain ⟨y, hy, rfl⟩ := List.mem_map.mp hx
  unfold mark
  split
  · rename_i hit
    simp only [Bool.and_eq_true, beq_iff_eq] at hit
    obtain ⟨rfl, rfl⟩ := hit
    exact .inr ⟨rfl, hy⟩
  · rename_i miss
    refine .inl ⟨hy, ?_⟩
    rintro rfl
    simp at miss

theorem mem_closeOpen {status : WebhookAttemptStatus} {h : History} {x : Nat × WebhookAttemptStatus}
    (hx : x ∈ closeOpen status h) :
    (x ∈ h ∧ isOpenEntry x = false) ∨ (x.2 = status ∧ ∃ s, (x.1, s) ∈ h ∧ isOpenEntry (x.1, s)) := by
  obtain ⟨y, hy, rfl⟩ := List.mem_map.mp hx
  unfold mark
  split
  · rename_i hit
    exact .inr ⟨rfl, y.2, hy, hit⟩
  · rename_i miss
    exact .inl ⟨hy, by simpa using miss⟩

theorem mark_fst (which : Nat × WebhookAttemptStatus → Bool) (status : WebhookAttemptStatus)
    (x : Nat × WebhookAttemptStatus) : (mark which status x).1 = x.1 := by
  unfold mark
  split <;> rfl

theorem numbers_map_mark (which : Nat × WebhookAttemptStatus → Bool) (status : WebhookAttemptStatus)
    (h : History) : (h.map (mark which status)).map Prod.fst = h.map Prod.fst := by
  rw [List.map_map]
  exact List.map_congr_left fun x _ => mark_fst which status x

@[simp] theorem numbers_closeOpen (status : WebhookAttemptStatus) (h : History) :
    (closeOpen status h).map Prod.fst = h.map Prod.fst := numbers_map_mark _ _ h

@[simp] theorem numbers_setCurrent (n : Nat) (old new : WebhookAttemptStatus) (h : History) :
    (setCurrent n old new h).map Prod.fst = h.map Prod.fst := numbers_map_mark _ _ h

/-! ## Histories under the updates -/

section History

/-- The update keeps what identifies an attempt and gives it the status. -/
def Sets (f : WebhookAttempt → WebhookAttempt) (status : WebhookAttemptStatus) : Prop :=
  ∀ a, (f a).deliveryId = a.deliveryId ∧ (f a).number = a.number ∧ (f a).status = status

variable {db : Db} {which : WebhookAttempt → Bool} {f : WebhookAttempt → WebhookAttempt}
  {keepsId : ∀ a, (f a).id = a.id} {status : WebhookAttemptStatus}

theorem history_updateAttempts (sets : Sets f status) (id : Uuid) (w : Nat × WebhookAttemptStatus → Bool)
    (agrees : ∀ a, a.deliveryId = id → which a = w (a.number, a.status)) :
    history (updateAttempts db which f keepsId) id = (history db id).map (mark w status) := by
  have same : ∀ a : WebhookAttempt, (if which a then f a else a).deliveryId = a.deliveryId := by
    intro a
    split
    · exact (sets a).1
    · rfl
  have filtered : attemptsOf (updateAttempts db which f keepsId) id =
      (attemptsOf db id).map fun a => if which a then f a else a := by
    simp [attemptsOf, updateAttempts, Table.modify, List.filter_map, Function.comp_def, same]
  simp only [history, filtered, List.map_map]
  apply List.map_congr_left
  intro a ha
  have hid : a.deliveryId = id := by simpa using List.of_mem_filter ha
  simp only [Function.comp_apply, mark, ← agrees a hid]
  split
  · rw [(sets a).2.1, (sets a).2.2]
  · rfl

theorem history_updateAttempts_of_ne (sets : Sets f status) {id : Uuid}
    (miss : ∀ a, a.deliveryId = id → which a = false) :
    history (updateAttempts db which f keepsId) id = history db id := by
  have unmarked : mark (fun _ => false) status = fun x => x := by
    funext x
    simp [mark]
  rw [history_updateAttempts sets id (fun _ => false) miss, unmarked, List.map_id']

theorem history_closeOpen (sets : Sets f status) {id : Uuid}
    (agrees : ∀ a, a.deliveryId = id → which a = isOpen a) :
    history (updateAttempts db which f keepsId) id = closeOpen status (history db id) :=
  history_updateAttempts sets id isOpenEntry agrees

/-- Of the current attempt of `row`. -/
theorem history_setCurrent (sets : Sets f status) (row : WebhookDelivery) (old : WebhookAttemptStatus)
    (id : Uuid) : history (updateAttempts db (isCurrent row old) f keepsId) id =
      if id = row.id then setCurrent row.attemptCount old status (history db row.id) else history db id := by
  split
  · rename_i h
    subst h
    refine history_updateAttempts sets row.id _ fun a ha => ?_
    simp [isCurrent, ha]
  · rename_i h
    refine history_updateAttempts_of_ne sets fun a ha => ?_
    simp [isCurrent, ha, h]

theorem history_put_fresh {a : WebhookAttempt} (fresh : ∀ b ∈ db.webhookAttempts, b.id ≠ a.id) (id : Uuid) :
    history { db with webhookAttempts := db.webhookAttempts.put a } id =
      if id = a.deliveryId then history db id ++ [(a.number, a.status)] else history db id := by
  simp only [history, attemptsOf, Table.rows_put_of_fresh fresh, List.filter_append, List.map_append]
  split
  · rename_i h
    simp [h]
  · rename_i h
    simp [Ne.symm h]

theorem history_congr {db' : Db} (h : db'.webhookAttempts = db.webhookAttempts) (id : Uuid) :
    history db' id = history db id := by
  rw [history, history, attemptsOf, attemptsOf, h]

theorem mem_history_of_any {row : WebhookDelivery} {status : WebhookAttemptStatus}
    (h : db.webhookAttempts.rows.any (isCurrent row status)) :
    (row.attemptCount, status) ∈ history db row.id := by
  obtain ⟨a, ha, hit⟩ := List.any_eq_true.mp h
  simp only [isCurrent, Bool.and_eq_true, beq_iff_eq] at hit
  obtain ⟨⟨hid, number⟩, hstatus⟩ := hit
  refine List.mem_map.mpr ⟨a, List.mem_filter.mpr ⟨ha, by simp [hid]⟩, ?_⟩
  rw [number, hstatus]

end History

/-! ## The functions, from a successful run back -/

theorem updateDelivery_eq_ok {db db' : Db} {id : Uuid} {f : WebhookDelivery → WebhookDelivery}
    (h : updateDelivery db id f = .ok db') : ∃ row ∈ db.webhookDeliveries, row.id = id ∧
      (f row).attemptCount ≤ 5 ∧ db' = { db with webhookDeliveries := db.webhookDeliveries.put (f row) } := by
  unfold updateDelivery at h
  cases found : db.webhookDeliveries.find? id with
  | none => simp [found] at h
  | some row =>
      simp only [found, bind_eq_ok, pure, Except.pure, Except.ok.injEq] at h
      obtain ⟨_, updated, rfl⟩ := h
      obtain ⟨mem, rfl⟩ := Table.find?_eq_some.mp found
      refine ⟨row, mem, rfl, ?_, rfl⟩
      have check := (Row.accept_eq_ok.mp (Db.update_eq_ok.mp updated).2.1).2
      simpa using check ("WebhookDelivery_attemptCount_check", (f row).attemptCount ≤ 5) (by simp [Row.checks])

theorem locked_eq_some {db : Db} {job : Job} {now now' : Time} {row : WebhookDelivery}
    (h : locked db job now now' = some row) : row ∈ db.webhookDeliveries ∧ row.id = job.deliveryId ∧
      row.status = .processing ∧ row.leaseToken = some job.leaseToken ∧ ∃ t, row.leaseUntil = some t ∧ now' < t := by
  unfold locked at h
  cases found : db.webhookDeliveries.find? job.deliveryId with
  | none => simp [found] at h
  | some r =>
      simp only [found, Option.ite_none_right_eq_some, Option.some.injEq] at h
      obtain ⟨⟨status, token, _⟩, unexpired, rfl⟩ := h
      obtain ⟨mem, id⟩ := Table.find?_eq_some.mp found
      cases until' : r.leaseUntil with
      | none => simp [until'] at unexpired
      | some t => exact ⟨mem, id, status, token, t, rfl, by simpa [until'] using unexpired⟩

/-- The row after a claim. -/
def claimed (draw : Draw) (r : WebhookDelivery) : WebhookDelivery :=
  { r with
    status := .processing
    attemptCount := r.attemptCount + 1
    leaseToken := some draw.leaseToken
    leaseUntil := some (draw.clock + 30000) }

/-- Of a transaction on one delivery: the row it leaves, its history, and nothing else. -/
structure Touches (db db' : Db) (row row' : WebhookDelivery) (h : History) : Prop where
  deliveries : db'.webhookDeliveries = db.webhookDeliveries.put row'
  history : ∀ id, history db' id = if id = row.id then h else history db id
  events : db'.outboxEvents = db.outboxEvents

theorem Touches.mem {db db' : Db} {row row' : WebhookDelivery} {h : History}
    (touches : Touches db db' row row' h) : row' ∈ db'.webhookDeliveries := by
  rw [touches.deliveries]
  exact Table.mem_put_self _ _

theorem claimRow_eq_ok {db db' : Db} {row : WebhookDelivery} {draw : Draw} {job : Option Job}
    (mem : row ∈ db.webhookDeliveries) (h : claimRow db row draw = .ok (db', job)) :
    (job = none ∧ ∃ status, (status = .failed ∨ status = .cancelled) ∧
      Touches db db' row (release status row) (closeOpen .abandoned (history db row.id))) ∨
    (job = some ⟨row.id, draw.leaseToken⟩ ∧ row.attemptCount < 5 ∧ Touches db db' row (claimed draw row)
      (closeOpen .abandoned (history db row.id) ++ [(row.attemptCount + 1, .queued)])) := by
  have abandoned : ∀ id, history (updateAttempts db (fun a => a.deliveryId = row.id && isOpen a) (fun a =>
      { a with status := .abandoned, completedAt := some draw.date, errorCode := some "LEASE_EXPIRED" })
        fun _ => rfl) id =
      if id = row.id then closeOpen .abandoned (history db row.id) else history db id := by
    intro id
    split
    · rename_i hid
      subst hid
      refine history_closeOpen ?_ fun a ha => ?_
      · exact fun _ => ⟨rfl, rfl, rfl⟩
      · simp [ha]
    · rename_i hid
      have sets : Sets (fun a => { a with
          status := .abandoned, completedAt := some draw.date, errorCode := some "LEASE_EXPIRED" }) .abandoned :=
        fun _ => ⟨rfl, rfl, rfl⟩
      exact history_updateAttempts_of_ne sets fun a ha => by simp [ha, hid]
  unfold claimRow at h
  cases hs : db.webhookSubscriptions.find? row.subscriptionId with
  | none => simp [updateAttempts, hs] at h
  | some subscription =>
      simp only [updateAttempts, hs] at h abandoned
      split at h
      · simp only [bind_eq_ok, pure, Except.pure, Except.ok.injEq, Prod.mk.injEq] at h
        obtain ⟨_, updated, rfl, rfl⟩ := h
        obtain ⟨r, hr, hid, _, rfl⟩ := updateDelivery_eq_ok updated
        obtain rfl := Table.eq_of_key_eq hr mem hid
        refine .inl ⟨rfl, _, ?_, rfl, fun id => (history_congr rfl id).trans (abandoned id), rfl⟩
        split <;> simp
      · simp only [bind_eq_ok, pure, Except.pure, Except.ok.injEq, Prod.mk.injEq] at h
        obtain ⟨_, updated, _, inserted, rfl, rfl⟩ := h
        obtain ⟨r, hr, hid, count, rfl⟩ := updateDelivery_eq_ok updated
        obtain rfl := Table.eq_of_key_eq hr mem hid
        refine .inr ⟨rfl, Nat.lt_of_succ_le count, rfl, fun id => ?_, rfl⟩
        have before := (history_congr rfl id).trans (abandoned id)
        rw [history_put_fresh fun b hb same =>
          @Db.insert_fresh _ _ _ _ inserted (.webhookAttempt b) hb (congrArg (Key.row .webhookAttempt) same)]
        split
        · rename_i hid
          rw [if_pos hid] at before
          exact congrArg (· ++ _) before
        · rename_i hid
          rwa [if_neg hid] at before

/-- The subscription of the delivery is disabled. -/
def Disabled (db : Db) (row : WebhookDelivery) : Prop :=
  ∃ s, db.webhookSubscriptions.find? row.subscriptionId = some s ∧ s.enabled = false

theorem start_eq_ok {db db' : Db} {job : Job} {now now' date : Time} {g : Option Granted}
    (h : start db job now now' date = .ok (db', g)) :
    (db' = db ∧ g = none ∧ ∀ row, locked db job now now' = some row → ¬ Disabled db row) ∨
    ∃ row, locked db job now now' = some row ∧
      ((g = none ∧ Disabled db row ∧ Touches db db' row (release .cancelled row)
          (setCurrent row.attemptCount .queued .cancelled (history db row.id))) ∨
      (¬ Disabled db row ∧ ∃ subscription event, g = some ⟨row, subscription, event⟩ ∧ event ∈ db.outboxEvents ∧
        event.id = row.outboxEventId ∧ (row.attemptCount, .queued) ∈ history db row.id ∧
        Touches db db' row row (setCurrent row.attemptCount .queued .sending (history db row.id)))) := by
  unfold start at h
  cases hl : locked db job now now' with
  | none =>
      simp only [hl, pure, Except.pure, Except.ok.injEq, Prod.mk.injEq] at h
      exact .inl ⟨h.1.symm, h.2.symm, by simp⟩
  | some row =>
      have mem := (locked_eq_some hl).1
      simp only [hl] at h
      cases hs : db.webhookSubscriptions.find? row.subscriptionId with
      | none => simp [hs] at h
      | some subscription =>
          simp only [hs] at h
          split at h
          · rename_i disabled
            simp only [bind_eq_ok, pure, Except.pure, Except.ok.injEq, Prod.mk.injEq] at h
            obtain ⟨_, updated, rfl, rfl⟩ := h
            obtain ⟨r, hr, hid, _, rfl⟩ := updateDelivery_eq_ok updated
            obtain rfl := Table.eq_of_key_eq hr mem hid
            refine .inr ⟨r, rfl, .inl ⟨rfl, ⟨subscription, hs, by simpa using disabled⟩, rfl, fun id => ?_, rfl⟩⟩
            refine (history_setCurrent ?_ r .queued id).trans rfl
            exact fun _ => ⟨rfl, rfl, rfl⟩
          · rename_i enabled
            have enabled : ¬ Disabled db row := by
              rintro ⟨s, found, disabled⟩
              obtain rfl := Option.some.inj (hs.symm.trans found)
              exact enabled (by simp [disabled])
            split at h
            · simp only [pure, Except.pure, Except.ok.injEq, Prod.mk.injEq] at h
              refine .inl ⟨h.1.symm, h.2.symm, ?_⟩
              rintro _ ⟨⟩
              exact enabled
            · rename_i queued
              cases he : (updateAttempts db (isCurrent row .queued) (fun a => { a with status := .sending })
                  fun _ => rfl).outboxEvents.find? row.outboxEventId with
              | none => simp [he] at h
              | some event =>
                  simp only [he, pure, Except.pure, Except.ok.injEq, Prod.mk.injEq] at h
                  obtain ⟨rfl, rfl⟩ := h
                  obtain ⟨hevent, hid⟩ := Table.find?_eq_some.mp he
                  refine .inr ⟨row, rfl, .inr ⟨enabled, subscription, event, rfl, hevent, hid,
                    mem_history_of_any (by simpa using queued), ?_, fun id => ?_, rfl⟩⟩
                  · exact (Table.put_eq_self mem).symm
                  · refine history_setCurrent ?_ row .queued id
                    exact fun _ => ⟨rfl, rfl, rfl⟩

/-- How `finish` closes the attempt and what it makes of the delivery. -/
inductive Closes : WebhookAttemptStatus → WebhookDeliveryStatus → Prop
  | cancelled : Closes .cancelled .cancelled
  | delivered : Closes .succeeded .delivered
  | retried : Closes .failed .pending
  | failed : Closes .failed .failed

theorem finish_eq_ok {db db' : Db} {job : Job} {outcome : Outcome} {expected : WebhookAttemptStatus}
    {now now' date : Time} (h : finish db job outcome expected now now' date = .ok db') :
    db' = db ∨ ∃ row status closed availableAt, locked db job now now' = some row ∧ Closes closed status ∧
      (row.attemptCount, expected) ∈ history db row.id ∧
      Touches db db' row { release status row with availableAt := availableAt }
        (setCurrent row.attemptCount expected closed (history db row.id)) := by
  unfold finish at h
  cases hl : locked db job now now' with
  | none =>
      simp only [hl, pure, Except.pure, Except.ok.injEq] at h
      exact .inl h.symm
  | some row =>
      have mem := (locked_eq_some hl).1
      simp only [hl] at h
      cases hs : db.webhookSubscriptions.find? row.subscriptionId with
      | none => simp [hs] at h
      | some subscription =>
          simp only [hs] at h
          split at h
          · simp only [pure, Except.pure, Except.ok.injEq] at h
            exact .inl h.symm
          · rename_i present
            obtain ⟨r, hr, hid, _, rfl⟩ := updateDelivery_eq_ok h
            obtain rfl := Table.eq_of_key_eq hr mem hid
            let closed : WebhookAttemptStatus :=
              if !subscription.enabled then .cancelled else if outcome.success then .succeeded else .failed
            refine .inr ⟨r, _, closed, _, rfl, ?_, mem_history_of_any (by simpa using present), rfl,
              fun id => ?_, rfl⟩
            · -- the attempt's status and the delivery's follow from the same flags
              cases enabled : subscription.enabled with
              | false =>
                  simp only [closed, enabled]
                  exact .cancelled
              | true =>
                  cases success : outcome.success with
                  | true =>
                      simp only [closed, enabled, success]
                      exact .delivered
                  | false =>
                      simp only [closed, enabled, success, Bool.not_true, Bool.false_eq_true, if_false]
                      split
                      · exact .retried
                      · exact .failed
            · let f (a : WebhookAttempt) : WebhookAttempt := { a with
                status := closed, httpStatus := outcome.httpStatus <|> a.httpStatus,
                errorCode := outcome.errorCode <|> a.errorCode, completedAt := some date }
              have sets : Sets f closed := fun _ => ⟨rfl, rfl, rfl⟩
              exact (history_congr rfl id).trans (@history_setCurrent db f (fun _ => rfl) closed sets r expected id)

/-- The row after its subscription is disabled. -/
def cancelled (r : WebhookDelivery) : WebhookDelivery :=
  if r.status = .pending ∨ r.status = .processing then release .cancelled r else r

theorem disable_eq_ok {db db' : Db} {userId id : Uuid} {date : Time}
    (h : disable db userId id date = .ok db') :
    db'.webhookDeliveries.rows =
        db.webhookDeliveries.rows.map (fun r => if r.subscriptionId = id then cancelled r else r) ∧
      (∀ r ∈ db.webhookDeliveries, history db' r.id =
        if r.subscriptionId = id then closeOpen .cancelled (history db r.id) else history db r.id) ∧
      (∀ d, (∀ r ∈ db.webhookDeliveries, r.id ≠ d) → history db' d = history db d) ∧
      db'.outboxEvents = db.outboxEvents := by
  unfold disable at h
  cases hs : db.webhookSubscriptions.find? id with
  | none => simp [hs] at h
  | some subscription =>
      simp only [hs] at h
      split at h
      · simp [bind, Except.bind] at h
      · simp only [pure, Except.pure, Except.ok.injEq] at h
        subst h
        let f (a : WebhookAttempt) : WebhookAttempt := { a with status := .cancelled, completedAt := some date }
        have sets : Sets f .cancelled := fun _ => ⟨rfl, rfl, rfl⟩
        refine ⟨?_, fun r hr => ?_, fun d absent => ?_, rfl⟩
        · refine List.map_congr_left fun r _ => ?_
          unfold cancelled release
          by_cases target : r.subscriptionId = id <;> by_cases live : r.status = .pending ∨ r.status = .processing <;>
            simp [target, live]
        · split
          · rename_i target
            refine @history_closeOpen _ _ f (fun _ => rfl) _ sets _ fun a ha => ?_
            have : db.webhookDeliveries.find? a.deliveryId = some r := ha ▸ Table.find?_key hr
            simp [this, target]
          · rename_i target
            refine @history_updateAttempts_of_ne _ _ f (fun _ => rfl) _ sets _ fun a ha => ?_
            have : db.webhookDeliveries.find? a.deliveryId = some r := ha ▸ Table.find?_key hr
            simp [this, target]
        · refine @history_updateAttempts_of_ne _ _ f (fun _ => rfl) _ sets _ fun a ha => ?_
          have : db.webhookDeliveries.find? a.deliveryId = none :=
            Table.find?_eq_none.mpr fun r hr same => absent r hr (same.trans ha)
          simp [this]

/-! ## What a step does to a delivery -/

def Config.leasesOf (c : Config) (deliveryId : Uuid) : List Lease :=
  c.leases.filter fun l => l.deliveryId = deliveryId

/-- From the row before a step to the row after it, with what becomes of its attempts and leases. -/
inductive RowStep (c : Config) (a : Action) (c' : Config) (r : WebhookDelivery) : WebhookDelivery → Prop
  | same : history c'.db r.id = history c.db r.id → c'.leasesOf r.id = c.leasesOf r.id → RowStep c a c' r r
  | expire {now status} : claimable now r → now ≤ c'.clock → status = .failed ∨ status = .cancelled →
      history c'.db r.id = closeOpen .abandoned (history c.db r.id) →
      c'.leasesOf r.id = c.leasesOf r.id → RowStep c a c' r (release status r)
  | claim {now draw} : claimable now r → now ≤ c'.clock → r.attemptCount < 5 →
      history c'.db r.id =
        closeOpen .abandoned (history c.db r.id) ++ [(r.attemptCount + 1, .queued)] →
      c'.leasesOf r.id = c.leasesOf r.id ++ [⟨r.id, draw.leaseToken, draw.clock + 30000⟩] →
      draw.leaseToken ∉ c.leases.map Lease.leaseToken → RowStep c a c' r (claimed draw r)
  | cancel {job now now' date} : a = .start job now now' date → locked c.db job now now' = some r →
      Disabled c.db r →
      history c'.db r.id = setCurrent r.attemptCount .queued .cancelled (history c.db r.id) →
      c'.leasesOf r.id = c.leasesOf r.id → job.leaseToken ∈ c'.returned → RowStep c a c' r (release .cancelled r)
  | send {job now now'} : locked c.db job now now' = some r →
      (r.attemptCount, .queued) ∈ history c.db r.id →
      history c'.db r.id = setCurrent r.attemptCount .queued .sending (history c.db r.id) →
      c'.leasesOf r.id = c.leasesOf r.id → RowStep c a c' r r
  | finish {job now now' expected closed status availableAt} : locked c.db job now now' = some r →
      expected = .queued ∨ expected = .sending → Closes closed status →
      (r.attemptCount, expected) ∈ history c.db r.id →
      history c'.db r.id = setCurrent r.attemptCount expected closed (history c.db r.id) →
      c'.leasesOf r.id = c.leasesOf r.id → job.leaseToken ∈ c'.returned →
      RowStep c a c' r { release status r with availableAt := availableAt }
  | disable : history c'.db r.id = closeOpen .cancelled (history c.db r.id) →
      c'.leasesOf r.id = c.leasesOf r.id →
      (r.status = .pending ∨ r.status = .processing → ∀ token, r.leaseToken = some token → token ∈ c'.returned) →
      RowStep c a c' r (cancelled r)

/-- A delivery that a step has fanned out. -/
structure New (c c' : Config) (r : WebhookDelivery) : Prop where
  status : r.status = .pending
  attemptCount : r.attemptCount = 0
  leaseToken : r.leaseToken = none
  leaseUntil : r.leaseUntil = none
  fresh : ∀ r₀ ∈ c.db.webhookDeliveries, r₀.id ≠ r.id
  history : history c'.db r.id = history c.db r.id
  leases : c'.leasesOf r.id = c.leasesOf r.id

/-- Everything a step does to the deliveries. -/
structure Frame (c : Config) (a : Action) (c' : Config) : Prop where
  forward : ∀ r ∈ c.db.webhookDeliveries, ∃ r' ∈ c'.db.webhookDeliveries, RowStep c a c' r r'
  back : ∀ r' ∈ c'.db.webhookDeliveries, New c c' r' ∨ ∃ r ∈ c.db.webhookDeliveries, RowStep c a c' r r'
  elsewhere : ∀ d, (∀ r ∈ c'.db.webhookDeliveries, r.id ≠ d) →
    history c'.db d = history c.db d ∧ c'.leasesOf d = c.leasesOf d
  clock : c.clock ≤ c'.clock
  returned : c.returned ⊆ c'.returned

variable {c c' : Config} {a : Action}

theorem RowStep.identity {r r' : WebhookDelivery} (h : RowStep c a c' r r') :
    r'.id = r.id ∧ r'.subscriptionId = r.subscriptionId ∧ r'.outboxEventId = r.outboxEventId := by
  cases h with
  | disable _ _ _ =>
      unfold cancelled release
      split <;> exact ⟨rfl, rfl, rfl⟩
  | _ => exact ⟨rfl, rfl, rfl⟩

/-- A step that leaves deliveries, attempts and leases alone. -/
theorem Frame.of_same (deliveries : c'.db.webhookDeliveries = c.db.webhookDeliveries)
    (attempts : c'.db.webhookAttempts = c.db.webhookAttempts) (leases : c'.leases = c.leases)
    (clock : c.clock ≤ c'.clock) (returned : c.returned ⊆ c'.returned) : Frame c a c' := by
  have history (d : Uuid) : history c'.db d = history c.db d := history_congr attempts d
  have leasesOf (d : Uuid) : c'.leasesOf d = c.leasesOf d := by rw [Config.leasesOf, Config.leasesOf, leases]
  refine ⟨fun r hr => ⟨r, deliveries ▸ hr, .same (history _) (leasesOf _)⟩, fun r hr =>
    .inr ⟨r, deliveries ▸ hr, .same (history _) (leasesOf _)⟩, fun d _ => ⟨history d, leasesOf d⟩, clock, returned⟩

/-- A step that touches one delivery. -/
theorem Touches.frame {row row' : WebhookDelivery} {h : History} (touches : Touches c.db c'.db row row' h)
    (mem : row ∈ c.db.webhookDeliveries) (step : RowStep c a c' row row')
    (leases : ∀ d ≠ row.id, c'.leasesOf d = c.leasesOf d)
    (clock : c.clock ≤ c'.clock) (returned : c.returned ⊆ c'.returned) : Frame c a c' := by
  have same (r : WebhookDelivery) (ne : r.id ≠ row.id) : RowStep c a c' r r :=
    .same (by rw [touches.history, if_neg ne]) (leases _ ne)
  refine ⟨fun r hr => ?_, fun r hr => .inr ?_, fun d absent => ?_, clock, returned⟩
  · by_cases hid : r.id = row.id
    · obtain rfl := Table.eq_of_key_eq hr mem hid
      exact ⟨row', touches.mem, step⟩
    · refine ⟨r, ?_, same r hid⟩
      rw [touches.deliveries]
      exact Table.mem_put_of_ne hr fun e => hid (e.trans step.identity.1)
  · rw [touches.deliveries] at hr
    rcases Table.mem_put.mp hr with rfl | ⟨hr, ne⟩
    · exact ⟨row, mem, step⟩
    · exact ⟨r, hr, same r fun e => ne (e.trans step.identity.1.symm)⟩
  · have ne : d ≠ row.id := by
      rintro rfl
      exact absent row' touches.mem step.identity.1
    exact ⟨by rw [touches.history, if_neg ne], leases d ne⟩

/-! ## Steps and claims -/

/-- What the body of a send is made of. -/
def SameBody (e e' : OutboxEvent) : Prop :=
  e'.id = e.id ∧ e'.type = e.type ∧ e'.createdAt = e.createdAt ∧ e'.payload = e.payload

/-- A step, or one turn of the loop of a claim. -/
structure Micro (a : Action) (c c' : Config) : Prop extends Frame c a c' where
  tokens : c'.leases = c.leases ∨ ∃ l, c'.leases = c.leases ++ [l] ∧ l.leaseToken ∉ c.leases.map Lease.leaseToken
  events : ∀ e ∈ c.db.outboxEvents, ∃ e' ∈ c'.db.outboxEvents, SameBody e e'
  sends : (c'.granted = c.granted ∧ (c'.waiting ++ c'.sent).Subperm (c.waiting ++ c.sent)) ∨
    ∃ job g now now', c'.granted = c.granted ++ [(job, g)] ∧ c'.waiting = c.waiting ++ [(job, g)] ∧
      c'.sent = c.sent ∧ locked c.db job now now' = some g.row ∧ g.event ∈ c.db.outboxEvents ∧
      g.event.id = g.row.outboxEventId ∧ (g.row.attemptCount, .queued) ∈ history c.db g.row.id ∧
      (g.row.attemptCount, .queued) ∉ history c'.db g.row.id

theorem SameBody.refl (e : OutboxEvent) : SameBody e e := ⟨rfl, rfl, rfl, rfl⟩

theorem same_events (h : c'.db.outboxEvents = c.db.outboxEvents) :
    ∀ e ∈ c.db.outboxEvents, ∃ e' ∈ c'.db.outboxEvents, SameBody e e' :=
  fun e he => ⟨e, h ▸ he, .refl e⟩

theorem leasesOf_of_eq (h : c'.leases = c.leases) (d : Uuid) : c'.leasesOf d = c.leasesOf d := by
  rw [Config.leasesOf, Config.leasesOf, h]

/-- A token that a transaction takes off a delivery is returned. -/
theorem mem_dropped {db db' : Db} {r r' : WebhookDelivery} {token : Uuid} (mem : r ∈ db.webhookDeliveries)
    (holds : r.leaseToken = some token) (mem' : r' ∈ db'.webhookDeliveries) (hid : r'.id = r.id)
    (gone : r'.leaseToken ≠ r.leaseToken) : token ∈ dropped db db' := by
  refine List.mem_filterMap.mpr ⟨r, mem, ?_⟩
  have found : db'.webhookDeliveries.find? r.id = some r' := hid ▸ Table.find?_key mem'
  have gone' : r'.leaseToken ≠ some token := holds ▸ gone
  simp [found, holds, gone']

theorem not_mem_setCurrent {n : Nat} {old new : WebhookAttemptStatus} {h : History} (ne : new ≠ old) :
    (n, old) ∉ setCurrent n old new h := by
  intro mem
  rcases mem_setCurrent mem with ⟨_, miss⟩ | ⟨hit, _⟩
  · exact miss rfl
  · simp only [Prod.mk.injEq, true_and] at hit
    exact ne hit.symm

theorem start_micro {job : Job} {now now' date : Time} {db : Db} {g : Option Granted}
    (h : start c.db job now now' date = .ok (db, g)) (le : c.clock ≤ now') :
    Micro (.start job now now' date) c { c with
      db := db
      clock := now'
      returned := c.returned ++ dropped c.db db
      granted := c.granted ++ (g.map fun g => (job, g)).toList
      waiting := c.waiting ++ (g.map fun g => (job, g)).toList } := by
  rcases start_eq_ok h with ⟨rfl, rfl, _⟩ | ⟨row, hl, ⟨rfl, disabled, touches⟩ |
    ⟨_, s, e, rfl, he, hid, queued, touches⟩⟩
  · refine ⟨.of_same rfl rfl rfl le (List.subset_append_left _ _), .inl rfl, same_events rfl, .inl ⟨?_, ?_⟩⟩
    · simp
    · simpa using List.Subperm.refl _
  · obtain ⟨mem, _, _, token, _⟩ := locked_eq_some hl
    refine ⟨touches.frame mem (.cancel rfl hl disabled ?_ rfl ?_) (fun _ _ => rfl) le
      (List.subset_append_left _ _), .inl rfl, same_events touches.events, .inl ⟨?_, ?_⟩⟩
    · rw [touches.history, if_pos rfl]
    · refine List.mem_append_right _ (mem_dropped mem token touches.mem rfl ?_)
      simp [release, token]
    · simp
    · simpa using List.Subperm.refl _
  · obtain ⟨mem, _⟩ := locked_eq_some hl
    refine ⟨touches.frame mem (.send hl queued ?_ rfl) (fun _ _ => rfl) le (List.subset_append_left _ _),
      .inl rfl, same_events touches.events,
      .inr ⟨job, _, now, now', rfl, rfl, rfl, hl, he, hid, queued, ?_⟩⟩
    · rw [touches.history, if_pos rfl]
    · rw [touches.history, if_pos rfl]
      exact not_mem_setCurrent (by simp)

theorem finish_micro {job : Job} {outcome : Outcome} {expected : WebhookAttemptStatus}
    {now now' date : Time} {db : Db} (h : finish c.db job outcome expected now now' date = .ok db)
    (open' : expected = .queued ∨ expected = .sending) (le : c.clock ≤ now') :
    Micro a c { c with db := db, clock := now', returned := c.returned ++ dropped c.db db } := by
  rcases finish_eq_ok h with rfl | ⟨row, status, closed, availableAt, hl, closes, present, touches⟩
  · exact ⟨.of_same rfl rfl rfl le (List.subset_append_left _ _), .inl rfl, same_events rfl,
      .inl ⟨rfl, .refl _⟩⟩
  · obtain ⟨mem, _, _, token, _⟩ := locked_eq_some hl
    refine ⟨touches.frame mem (.finish hl open' closes present ?_ rfl ?_) (fun _ _ => rfl) le
      (List.subset_append_left _ _), .inl rfl, same_events touches.events, .inl ⟨rfl, .refl _⟩⟩
    · rw [touches.history, if_pos rfl]
    · refine List.mem_append_right _ (mem_dropped mem token touches.mem rfl ?_)
      simp [release, token]

theorem disable_micro {userId id : Uuid} {date : Time} {db : Db}
    (h : disable c.db userId id date = .ok db) :
    Micro a c { c with db := db, returned := c.returned ++ dropped c.db db } := by
  obtain ⟨rows, own, others, events⟩ := disable_eq_ok h
  have step : ∀ r ∈ c.db.webhookDeliveries, RowStep c a
      { c with db := db, returned := c.returned ++ dropped c.db db }
      r (if r.subscriptionId = id then cancelled r else r) := by
    intro r hr
    have now : (if r.subscriptionId = id then cancelled r else r) ∈ db.webhookDeliveries := by
      rw [Table.mem_def, rows]
      exact List.mem_map_of_mem hr
    have before := own r hr
    split at now
    · rename_i target
      rw [if_pos target] at before ⊢
      refine .disable before rfl fun live token holds => ?_
      refine List.mem_append_right _ (mem_dropped hr holds now ?_ ?_) <;>
        simp [cancelled, live, release, holds]
    · rename_i target
      rw [if_neg target] at before ⊢
      exact .same before rfl
  refine ⟨⟨fun r hr => ⟨_, ?_, step r hr⟩, fun r' hr' => .inr ?_, fun d absent => ⟨others d ?_, rfl⟩, le_rfl,
    List.subset_append_left _ _⟩, .inl rfl, same_events events, .inl ⟨rfl, .refl _⟩⟩
  · rw [Table.mem_def, rows]
    exact List.mem_map_of_mem hr
  · rw [Table.mem_def, rows] at hr'
    obtain ⟨r, hr, rfl⟩ := List.mem_map.mp hr'
    exact ⟨r, hr, step r hr⟩
  · intro r hr same
    have now : (if r.subscriptionId = id then cancelled r else r) ∈ db.webhookDeliveries := by
      rw [Table.mem_def, rows]
      exact List.mem_map_of_mem hr
    exact absent _ now ((step r hr).identity.1.trans same)

theorem fanOut_micro {seen : Db} {event : OutboxEvent} {delivery : Uuid → Uuid} {now : Time} {s : Settings}
    (h : c.db.insertAll {} (seen.eventRows event delivery now) = .ok s) :
    Micro a c { c with db := Transactional.applyAll c.db (seen.eventRows event delivery now) } := by
  obtain ⟨mem, fresh⟩ := Db.mem_insertAll h
  have attempts : ∀ (ds : List WebhookDelivery) (db : Db),
      (Transactional.applyAll db (ds.map Row.webhookDelivery)).webhookAttempts = db.webhookAttempts := by
    intro ds
    induction ds with
    | nil => exact fun _ => rfl
    | cons d ds ih => exact fun db => ih _
  have history (d : Uuid) : history (Transactional.applyAll c.db (seen.eventRows event delivery now)) d =
      history c.db d := history_congr (attempts _ _) d
  have old (r : WebhookDelivery) (hr : r ∈ c.db.webhookDeliveries) :=
    (mem (.webhookDelivery r)).mpr (.inl hr)
  refine ⟨⟨fun r hr => ⟨r, old r hr, .same (history _) rfl⟩, fun r hr => ?_, fun d _ => ⟨history d, rfl⟩, le_rfl,
    List.Subset.refl _⟩, .inl rfl, fun e he => ⟨e, (mem (.outboxEvent e)).mpr (.inl he), .refl e⟩, .inl ⟨rfl, .refl _⟩⟩
  rcases (mem (.webhookDelivery r)).mp hr with hr | hr
  · exact .inr ⟨r, hr, .same (history _) rfl⟩
  · have new : ∀ r₀ ∈ c.db.webhookDeliveries, r₀.id ≠ r.id := by
      intro r₀ h₀ same
      exact fresh _ hr (.webhookDelivery r₀) h₀ (congrArg (Key.row .webhookDelivery) same)
    simp only [Db.eventRows, List.mem_cons, reduceCtorEq, List.mem_map, Row.webhookDelivery.injEq,
      exists_eq_right, false_or, Db.fanOut] at hr
    obtain ⟨_, _, rfl⟩ := hr
    exact .inl ⟨rfl, rfl, rfl, rfl, new, history _, rfl⟩

/-! ## The loop of a claim -/

theorem claimRow_others {db db' : Db} {row : WebhookDelivery} {draw : Draw} {job : Option Job}
    (mem : row ∈ db.webhookDeliveries) (h : claimRow db row draw = .ok (db', job)) :
    ∀ r ∈ db.webhookDeliveries, r.id ≠ row.id → r ∈ db'.webhookDeliveries := by
  intro r hr ne
  rcases claimRow_eq_ok mem h with ⟨_, status, _, touches⟩ | ⟨_, _, touches⟩
  · rw [touches.deliveries]
    exact Table.mem_put_of_ne hr ne
  · rw [touches.deliveries]
    exact Table.mem_put_of_ne hr ne

theorem claimRow_micro {row : WebhookDelivery} {draws : Uuid → Draw} {now : Time} {db : Db} {job : Option Job}
    (mem : row ∈ c.db.webhookDeliveries) (able : claimable now row) (le : now ≤ c.clock)
    (fresh : (draws row.id).leaseToken ∉ c.leases.map Lease.leaseToken)
    (h : claimRow c.db row (draws row.id) = .ok (db, job)) :
    Micro a c { c with db := db, leases := c.leases ++ job.toList.map (lease draws) } := by
  rcases claimRow_eq_ok mem h with ⟨rfl, status, terminal, touches⟩ | ⟨rfl, count, touches⟩
  · have leases (d : Uuid) : Config.leasesOf { c with db := db, leases := c.leases ++ [] } d = c.leasesOf d :=
      leasesOf_of_eq (List.append_nil _) d
    refine ⟨touches.frame mem (.expire able le terminal ?_ (leases _)) (fun d _ => leases d) le_rfl
      (List.Subset.refl _), .inl (List.append_nil _), same_events touches.events, .inl ⟨rfl, .refl _⟩⟩
    rw [touches.history, if_pos rfl]
  · refine ⟨touches.frame mem (.claim able le count ?_ ?_ fresh) (fun d ne => ?_) le_rfl (List.Subset.refl _),
      .inr ⟨_, rfl, fresh⟩, same_events touches.events, .inl ⟨rfl, .refl _⟩⟩
    · rw [touches.history, if_pos rfl]
    · simp [Config.leasesOf, lease]
    · simp [Config.leasesOf, lease, Ne.symm ne]

theorem claimRows_micro {draws : Uuid → Draw} {now : Time} {rows : List WebhookDelivery} {db : Db} {jobs : List Job}
    (mem : ∀ row ∈ rows, row ∈ c.db.webhookDeliveries) (ids : (rows.map WebhookDelivery.id).Nodup)
    (able : ∀ row ∈ rows, claimable now row) (le : now ≤ c.clock)
    (tokens : (rows.map fun row => (draws row.id).leaseToken).Nodup)
    (fresh : ∀ row ∈ rows, (draws row.id).leaseToken ∉ c.leases.map Lease.leaseToken)
    (h : claimRows draws c.db rows = .ok (db, jobs)) :
    ReflTransGen (Micro a) c { c with db := db, leases := c.leases ++ jobs.map (lease draws) } := by
  induction rows generalizing c jobs with
  | nil =>
      simp only [claimRows, Except.ok.injEq, Prod.mk.injEq] at h
      obtain ⟨rfl, rfl⟩ := h
      simpa using ReflTransGen.refl
  | cons row rows ih =>
      simp only [claimRows, bind_eq_ok, pure, Except.pure, Except.ok.injEq, Prod.mk.injEq, Prod.exists] at h
      obtain ⟨db₁, job, first, _, jobs', rest, rfl, rfl⟩ := h
      simp only [List.map_cons, List.nodup_cons] at ids tokens
      have micro := claimRow_micro (a := a) (mem row (by simp)) (able row (by simp)) le (fresh row (by simp)) first
      have kept := claimRow_others (mem row (by simp)) first
      have next := @ih { c with db := db₁, leases := c.leases ++ job.toList.map (lease draws) } jobs'
        (fun r hr => kept r (mem r (by simp [hr])) fun same => ids.1 (List.mem_map.mpr ⟨r, hr, same⟩)) ids.2
        (fun r hr => able r (by simp [hr])) le tokens.2 (fun r hr => ?_) rest
      · refine .head micro ?_
        simpa [List.append_assoc] using next
      · -- the token of this turn is not among those of the later turns
        have later := fresh r (by simp [hr])
        have ne : (draws row.id).leaseToken ≠ (draws r.id).leaseToken :=
          fun same => tokens.1 (List.mem_map.mpr ⟨r, hr, same.symm⟩)
        rcases claimRow_eq_ok (mem row (by simp)) first with ⟨rfl, _⟩ | ⟨rfl, _⟩
        · simpa using later
        · simpa [lease, ne.symm] using later

theorem selectBatch_sublist (db : Db) (now : Time) (skipped : Uuid → Bool) :
    ∃ rows : List WebhookDelivery, (selectBatch db now skipped).Sublist rows ∧
      rows.Perm (db.webhookDeliveries.rows.filter fun row => claimable now row && !skipped row.id) :=
  ⟨_, List.take_sublist _ _, List.mergeSort_perm _ _⟩

theorem mem_selectBatch {db : Db} {now : Time} {skipped : Uuid → Bool} {row : WebhookDelivery}
    (h : row ∈ selectBatch db now skipped) : row ∈ db.webhookDeliveries ∧ claimable now row := by
  obtain ⟨rows, sub, perm⟩ := selectBatch_sublist db now skipped
  have mem := perm.mem_iff.mp (sub.mem h)
  simp only [List.mem_filter, Bool.and_eq_true] at mem
  exact ⟨mem.1, mem.2.1⟩

theorem selectBatch_nodup (db : Db) (now : Time) (skipped : Uuid → Bool) :
    ((selectBatch db now skipped).map WebhookDelivery.id).Nodup := by
  obtain ⟨rows, sub, perm⟩ := selectBatch_sublist db now skipped
  have all : ((db.webhookDeliveries.rows.filter fun row => claimable now row && !skipped row.id).map
      WebhookDelivery.id).Nodup :=
    db.webhookDeliveries.unique.sublist (List.filter_sublist.map _)
  exact ((perm.map _).nodup_iff.mpr all).sublist (sub.map _)

/-- A step is a run of micro steps; only a claim takes more than one. -/
theorem Step.micro (h : Step c a c') :
    Micro a c c' ∨ (∃ now skipped draws done, a = .claimBatch now skipped draws done) ∧ ReflTransGen (Micro a) c c' := by
  have quiet {c' : Config} (deliveries : c'.db.webhookDeliveries = c.db.webhookDeliveries)
      (attempts : c'.db.webhookAttempts = c.db.webhookAttempts) (leases : c'.leases = c.leases)
      (clock : c.clock ≤ c'.clock) (returned : c.returned = c'.returned)
      (events : ∀ e ∈ c.db.outboxEvents, ∃ e' ∈ c'.db.outboxEvents, SameBody e e')
      (granted : c'.granted = c.granted) (sends : (c'.waiting ++ c'.sent).Subperm (c.waiting ++ c.sent)) :
      Micro a c c' :=
    ⟨.of_same deliveries attempts leases clock (returned ▸ List.Subset.refl _), .inl leases, events,
      .inl ⟨granted, sends⟩⟩
  cases h with
  | tick le => exact .inl (quiet rfl rfl rfl le rfl (same_events rfl) rfl (.refl _))
  | fanOut ok => exact .inl (fanOut_micro ok)
  | @claimBatch now skipped draws done db jobs ok tokens fresh le le' =>
      refine .inr ⟨⟨now, skipped, draws, done, rfl⟩, ?_⟩
      have ticked : Micro (.claimBatch now skipped draws done) c { c with clock := done } :=
        quiet rfl rfl rfl (le.trans le') rfl (same_events rfl) rfl (.refl _)
      refine .head ticked ?_
      exact @claimRows_micro { c with clock := done } _ draws now _ _ _ (fun row hr => (mem_selectBatch hr).1)
        (selectBatch_nodup _ _ _) (fun row hr => (mem_selectBatch hr).2) le' tokens fresh ok
  | start ok le le' => exact .inl (start_micro ok (le.trans le'))
  | send split =>
      refine .inl (quiet rfl rfl rfl le_rfl rfl (same_events rfl) rfl (List.Perm.subperm ?_))
      rw [split]
      simp only [List.append_assoc, List.cons_append]
      refine List.Perm.append_left _ ?_
      rw [← List.append_assoc]
      exact List.perm_append_singleton _ _
  | drop split =>
      refine .inl (quiet rfl rfl rfl le_rfl rfl (same_events rfl) rfl (List.Sublist.subperm ?_))
      rw [split]
      exact ((List.sublist_cons_self _ _).append_left _).append_right _
  | finish ok expected le le' => exact .inl (finish_micro ok expected (le.trans le'))
  | publicationFailed ok le le' => exact .inl (finish_micro ok (.inl rfl) (le.trans le'))
  | disable ok => exact .inl (disable_micro ok)
  | disabledElsewhere _ => exact .inl (quiet rfl rfl rfl le_rfl rfl (same_events rfl) rfl (.refl _))
  | subscribe _ => exact .inl (quiet rfl rfl rfl le_rfl rfl (same_events rfl) rfl (.refl _))
  | @updateOutbox e event mem same =>
      refine .inl (quiet rfl rfl rfl le_rfl rfl (fun x hx => ?_) rfl (.refl _))
      have body : SameBody e event := by
        rw [same]
        exact ⟨rfl, rfl, rfl, rfl⟩
      by_cases hid : x.id = e.id
      · obtain rfl := Table.eq_of_key_eq hx mem hid
        exact ⟨event, Table.mem_put_self _ _, body⟩
      · exact ⟨x, Table.mem_put_of_ne hx fun h => hid (h.trans body.1), .refl x⟩

end Fintech.Webhooks
