import Fintech.Proof.WebhookLeases

/-!
# Attempt history and delivery status

Every operation but one closes the open attempt when it takes a delivery out of `PROCESSING`. A
`start` that finds the subscription disabled cancels the delivery and closes its attempt only if
that is still `QUEUED`; executed again while the attempt is `SENDING`, it leaves the attempt open.
-/

namespace Fintech.Webhooks
open Relational Relation WebhookDeliveryService WebhooksService

variable {c c' : Config} {a : Action}

/-- The attempts of a delivery fit its row. -/
structure Matches (db : Db) (r : WebhookDelivery) : Prop where
  numbered : (history db r.id).map Prod.fst = List.range' 1 r.attemptCount
  opened : ∀ x ∈ history db r.id, isOpenEntry x → x.1 = r.attemptCount ∧ r.status = .processing
  opened_once : ((history db r.id).filter isOpenEntry).length ≤ 1
  succeeded_once : ((history db r.id).filter fun x => x.2 = .succeeded).length ≤ 1
  succeeded_iff : (∃ x ∈ history db r.id, x.2 = .succeeded) ↔ r.status = .delivered
  leaseToken : r.leaseToken.isSome ↔ r.status = .processing
  leaseUntil : r.leaseUntil.isSome ↔ r.status = .processing

/-- What is proved by induction: `h` is the history of `r`. -/
structure Coherent (r : WebhookDelivery) (h : History) : Prop where
  numbered : h.map Prod.fst = List.range' 1 r.attemptCount
  opened : ∀ x ∈ h, isOpenEntry x → x.1 = r.attemptCount ∧ r.status = .processing
  succeeded : ∀ x ∈ h, x.2 = .succeeded → x.1 = r.attemptCount ∧ r.status = .delivered
  delivered : r.status = .delivered → ∃ x ∈ h, x.2 = .succeeded

theorem Coherent.eq_of_number {r : WebhookDelivery} {h : History} (inv : Coherent r h) {x y : Nat × WebhookAttemptStatus}
    (hx : x ∈ h) (hy : y ∈ h) (same : x.1 = y.1) : x = y := by
  have nodup : (h.map Prod.fst).Nodup := inv.numbered ▸ List.nodup_range'
  exact List.inj_on_of_nodup_map nodup hx hy same

/-- Of the attempts with one number there is at most one. -/
theorem Coherent.length_filter_le {r : WebhookDelivery} {h : History} (inv : Coherent r h)
    (which : Nat × WebhookAttemptStatus → Bool) (number : ∀ x ∈ h, which x → x.1 = r.attemptCount) :
    (h.filter which).length ≤ 1 := by
  have nodup : ((h.filter which).map Prod.fst).Nodup := by
    have all : (h.map Prod.fst).Nodup := inv.numbered ▸ List.nodup_range'
    exact all.sublist (List.filter_sublist.map _)
  have same : (h.filter which).map Prod.fst = List.replicate (h.filter which).length r.attemptCount := by
    refine List.eq_replicate_iff.mpr ⟨List.length_map _, fun n hn => ?_⟩
    obtain ⟨x, hx, rfl⟩ := List.mem_map.mp hn
    have mem := List.mem_filter.mp hx
    exact number x mem.1 mem.2
  exact List.nodup_replicate.mp (same ▸ nodup)

theorem Coherent.matches {db : Db} {r : WebhookDelivery} (inv : Coherent r (history db r.id))
    (check : r.leaseCheck) : Matches db r where
  numbered := inv.numbered
  opened := inv.opened
  opened_once := inv.length_filter_le _ fun x hx h => (inv.opened x hx h).1
  succeeded_once := inv.length_filter_le _ fun x hx h => (inv.succeeded x hx (by simpa using h)).1
  succeeded_iff := ⟨fun ⟨x, hx, h⟩ => (inv.succeeded x hx h).2, inv.delivered⟩
  leaseToken := by
    unfold WebhookDelivery.leaseCheck at check
    split at check <;> simp_all
  leaseUntil := by
    unfold WebhookDelivery.leaseCheck at check
    split at check <;> simp_all

/-! ## What a step keeps -/

theorem succeeded_of_closeOpen {status : WebhookAttemptStatus} {h : History} {x : Nat × WebhookAttemptStatus}
    (ne : status ≠ .succeeded) (mem : x ∈ closeOpen status h) (succeeded : x.2 = .succeeded) : x ∈ h := by
  rcases mem_closeOpen mem with ⟨mem, _⟩ | ⟨same, _⟩
  · exact mem
  · exact absurd (same.symm.trans succeeded) ne

theorem not_open_of_closeOpen {status : WebhookAttemptStatus} {h : History} {x : Nat × WebhookAttemptStatus}
    (closed : status ≠ .queued ∧ status ≠ .sending) (mem : x ∈ closeOpen status h) : isOpenEntry x = false := by
  rcases mem_closeOpen mem with ⟨_, shut⟩ | ⟨same, _⟩
  · exact shut
  · simp [isOpenEntry, same, closed.1, closed.2]

/-- Closing every open attempt, whatever becomes of the row short of a new attempt. -/
theorem Coherent.closeOpen {r r' : WebhookDelivery} {h : History} (inv : Coherent r h) {status : WebhookAttemptStatus}
    (closed : status ≠ .queued ∧ status ≠ .sending ∧ status ≠ .succeeded) (count : r'.attemptCount = r.attemptCount)
    (delivered : r'.status = .delivered ↔ r.status = .delivered) : Coherent r' (closeOpen status h) where
  numbered := by rw [numbers_closeOpen, inv.numbered, count]
  opened := by
    intro x hx shown
    simp [not_open_of_closeOpen ⟨closed.1, closed.2.1⟩ hx] at shown
  succeeded := by
    intro x hx succeeded
    obtain ⟨number, was⟩ := inv.succeeded x (succeeded_of_closeOpen closed.2.2 hx succeeded) succeeded
    exact ⟨number.trans count.symm, delivered.mpr was⟩
  delivered := by
    intro now
    obtain ⟨x, hx, succeeded⟩ := inv.delivered (delivered.mp now)
    refine ⟨x, List.mem_map.mpr ⟨x, hx, ?_⟩, succeeded⟩
    simp [mark, isOpenEntry, succeeded]

/-- The current attempt of a processing row goes from `old` to `new`, and the row to `r'`. -/
theorem Coherent.setCurrent {r r' : WebhookDelivery} {h : History} (inv : Coherent r h)
    (processing : r.status = .processing) {old new : WebhookAttemptStatus}
    (count : r'.attemptCount = r.attemptCount)
    (opened : ∀ status, (r.attemptCount, status) ∈ setCurrent r.attemptCount old new h →
      isOpenEntry (r.attemptCount, status) → r'.status = .processing)
    (delivered : r'.status = .delivered ↔ new = .succeeded) (present : new = .succeeded → (r.attemptCount, old) ∈ h) :
    Coherent r' (setCurrent r.attemptCount old new h) where
  numbered := by rw [numbers_setCurrent, inv.numbered, count]
  opened := by
    intro x hx shown
    have number : x.1 = r.attemptCount := by
      rcases mem_setCurrent hx with ⟨hx, _⟩ | ⟨rfl, _⟩
      · exact (inv.opened x hx shown).1
      · rfl
    obtain ⟨n, status⟩ := x
    obtain rfl : n = r.attemptCount := number
    exact ⟨count.symm, opened status hx shown⟩
  succeeded := by
    intro x hx succeeded
    rcases mem_setCurrent hx with ⟨hx, _⟩ | ⟨rfl, _⟩
    · have was := (inv.succeeded x hx succeeded).2
      rw [processing] at was
      cases was
    · exact ⟨count.symm, delivered.mpr succeeded⟩
  delivered := by
    intro now
    have new_eq := delivered.mp now
    refine ⟨(r.attemptCount, new), List.mem_map.mpr ⟨_, present new_eq, by simp [mark]⟩, new_eq⟩

/-- What the step must not find: the subscription of the job's delivery disabled while the attempt
is being sent. -/
def Meets (c : Config) (a : Action) : Prop :=
  ∀ job now now' date, a = .start job now now' date → ∀ row, locked c.db job now now' = some row →
    Disabled c.db row → (row.attemptCount, .sending) ∉ history c.db row.id

theorem Coherent.step {r r' : WebhookDelivery} (inv : Coherent r (history c.db r.id))
    (step : RowStep c a c' r r') (meets : Meets c a) : Coherent r' (history c'.db r'.id) := by
  rw [step.identity.1]
  have processing {job : Job} {now now' : Time} (hl : locked c.db job now now' = some r) := (locked_eq_some hl).2.2.1
  -- another open attempt would carry the same number
  have sole {x : Nat × WebhookAttemptStatus} {status : WebhookAttemptStatus} (present : (r.attemptCount, status) ∈ history c.db r.id)
      (hx : x ∈ history c.db r.id) (shown : isOpenEntry x) : x = (r.attemptCount, status) :=
    inv.eq_of_number hx present (inv.opened x hx shown).1
  cases step with
  | same hist _ => exact hist ▸ inv
  | @expire now status able _ terminal hist _ =>
      have idle : r.status ≠ .delivered := by
        intro h
        simp [claimable, h] at able
      rw [hist]
      refine inv.closeOpen (by simp) rfl ⟨fun h => ?_, fun h => absurd h idle⟩
      change status = .delivered at h
      rcases terminal with rfl | rfl <;> cases h
  | @claim now draw able _ _ hist _ _ =>
      have idle : r.status ≠ .delivered := by
        intro h
        simp [claimable, h] at able
      rw [hist]
      refine ⟨?_, fun x hx shown => ?_, fun x hx succeeded => ?_, fun h => by cases h⟩
      · rw [List.map_append, numbers_closeOpen, inv.numbered, show (claimed draw r).attemptCount = r.attemptCount + 1 from rfl,
          List.range'_concat]
        simp [Nat.add_comm]
      · rcases List.mem_append.mp hx with hx | hx
        · simp [not_open_of_closeOpen (by simp) hx] at shown
        · rw [List.mem_singleton.mp hx]
          exact ⟨rfl, rfl⟩
      · rcases List.mem_append.mp hx with hx | hx
        · exact absurd (inv.succeeded x (succeeded_of_closeOpen (by simp) hx succeeded) succeeded).2 idle
        · rw [List.mem_singleton.mp hx] at succeeded
          cases succeeded
  | cancel act hl disabled hist _ _ =>
      rw [hist]
      refine inv.setCurrent (processing hl) rfl (fun status mem shown => ?_) (by simp [release]) (by simp)
      -- the attempt is not sending, so the update closes it if it is open
      have unsent := meets _ _ _ _ act r hl disabled
      rcases mem_setCurrent mem with ⟨mem, other⟩ | ⟨same, _⟩
      · cases status <;> simp_all [isOpenEntry]
      · simp only [Prod.mk.injEq, true_and] at same
        simp [isOpenEntry, same] at shown
  | send hl _ hist _ =>
      rw [hist]
      refine inv.setCurrent (processing hl) rfl (fun _ _ _ => processing hl) ?_ (by simp)
      simp [processing hl]
  | @finish job now now' expected closed status availableAt hl expects closes present hist _ _ =>
      rw [hist]
      refine inv.setCurrent (processing hl) rfl (fun s mem shown => ?_) ?_ (fun _ => present)
      · rcases mem_setCurrent mem with ⟨mem, other⟩ | ⟨same, _⟩
        · exact absurd (sole present mem shown) other
        · simp only [Prod.mk.injEq, true_and] at same
          subst same
          cases closes <;> simp [isOpenEntry] at shown
      · change status = .delivered ↔ closed = .succeeded
        cases closes <;> simp
  | disable hist _ _ =>
      rw [hist]
      rcases cancelled_cases r with ⟨live, e⟩ | ⟨_, e⟩ <;> rw [e]
      · refine inv.closeOpen (by simp) rfl ⟨(by rintro ⟨⟩), fun h => ?_⟩
        simp [h] at live
      · exact inv.closeOpen (by simp) rfl Iff.rfl

structure HistoryInv (c : Config) : Prop where
  rows : ∀ r ∈ c.db.webhookDeliveries, Coherent r (history c.db r.id)
  rooted : ∀ d, (∀ r ∈ c.db.webhookDeliveries, r.id ≠ d) → history c.db d = []

theorem HistoryInv.start (h : Start c) : HistoryInv c := by
  obtain ⟨deliveries, attempts, _⟩ := h
  refine ⟨by simp [deliveries], fun d _ => ?_⟩
  simp [history, attemptsOf, attempts, Table.empty]

theorem HistoryInv.step (inv : HistoryInv c) (h : Micro a c c') (meets : Meets c a) : HistoryInv c' := by
  refine ⟨fun r' hr' => ?_, fun d absent => ?_⟩
  · rcases h.back r' hr' with new | ⟨r, hr, step⟩
    · have none : history c'.db r'.id = [] := new.history.trans (inv.rooted _ new.fresh)
      rw [none]
      exact ⟨by simp [new.attemptCount], by simp, by simp, by simp [new.status]⟩
    · exact (inv.rows r hr).step step meets
  · rw [(h.elsewhere d absent).1]
    refine inv.rooted d fun r hr same => ?_
    obtain ⟨r', hr', step⟩ := h.forward r hr
    exact absent r' hr' (step.identity.1.trans same)

theorem HistoryInv.run (inv : HistoryInv c) (h : ReflTransGen (Micro a) c c') (meets : ∀ c, Meets c a) :
    HistoryInv c' := by
  induction h with
  | refl => exact inv
  | tail _ step ih => exact ih.step step (meets _)

theorem HistoryInv.whole_step (inv : HistoryInv c) (h : Step c a c') (meets : Meets c a) : HistoryInv c' := by
  rcases h.micro with micro | ⟨⟨now, skipped, draws, done, rfl⟩, run⟩
  · exact inv.step micro meets
  · refine inv.run run fun c job now now' date e => ?_
    cases e

/-! ## Main result -/

/-- Runs in which no start finds its subscription disabled while the attempt is being sent. -/
abbrev MeetingReachable : Config → Prop := Transition.Reachable Start fun c c' => ∃ a, Step c a c' ∧ Meets c a

theorem MeetingReachable.historyInv (h : MeetingReachable c) : HistoryInv c := by
  refine Transition.Reachable.invariant ?_ ?_ h
  · exact fun _ => HistoryInv.start
  · exact fun _ _ inv ⟨_, step, meets⟩ => inv.whole_step step meets

theorem MeetingReachable.reachable (h : MeetingReachable c) : Reachable c := by
  obtain ⟨c₀, first, run⟩ := h
  exact ⟨c₀, first, ReflTransGen.mono (fun _ _ ⟨a, step, _⟩ => ⟨a, step⟩) _ _ run⟩

/-- A start that finds the subscription disabled while the attempt is being sent leaves the attempt
open on a cancelled delivery. -/
theorem Step.not_matches (step : Step c a c') (fails : ¬ Meets c a) :
    ∃ r ∈ c'.db.webhookDeliveries, ¬ Matches c'.db r := by
  unfold Meets at fails
  push Not at fails
  obtain ⟨job, now, now', date, rfl, row, hl, disabled, sending⟩ := fails
  cases step with
  | start ok _ _ =>
      rcases start_eq_ok ok with ⟨_, _, enabled⟩ | ⟨row', hl', ⟨_, _, touches⟩ | ⟨enabled, _⟩⟩
      · exact absurd disabled (enabled row hl)
      · obtain rfl := Option.some.inj (hl.symm.trans hl')
        refine ⟨release .cancelled row, touches.mem, fun fits => ?_⟩
        have still : (row.attemptCount, .sending) ∈ setCurrent row.attemptCount .queued .cancelled (history _ row.id) :=
          List.mem_map.mpr ⟨_, sending, by simp [mark]⟩
        have own := (touches.history row.id).trans (if_pos rfl)
        rw [← own] at still
        cases (fits.opened _ still rfl).2
      · obtain rfl := Option.some.inj (hl.symm.trans hl')
        exact absurd disabled enabled

/-- In every state of a run whose steps all meet the condition the attempts of every delivery fit
its row, and the first step that does not meet it ends that. -/
theorem history_matches (h : MeetingReachable c) :
    (∀ r ∈ c.db.webhookDeliveries, Matches c.db r) ∧
      ∀ a c', Step c a c' → ¬ Meets c a → ∃ r ∈ c'.db.webhookDeliveries, ¬ Matches c'.db r := by
  have check (r : WebhookDelivery) (hr : r ∈ c.db.webhookDeliveries) := (h.reachable.leaseInv.rows r hr).check
  exact ⟨fun r hr => (h.historyInv.rows r hr).matches (check r hr), fun a c' step fails => step.not_matches fails⟩

theorem history_matches_sample : ∃ c, MeetingReachable c ∧ c.db.webhookDeliveries.rows.length = 1 ∧
    ∀ r ∈ c.db.webhookDeliveries, Matches c.db r := by
  have start : MeetingReachable sampleStart := Transition.Reachable.start sampleStart_start
  have reach := (start.step ⟨_, sampleFanned_step, by rintro _ _ _ _ ⟨⟩⟩).step ⟨_, sampleClaimed_step, by rintro _ _ _ _ ⟨⟩⟩
  exact ⟨sampleClaimed, reach, by decide, (history_matches reach).1⟩

/-! The attempt is being sent, the subscription is disabled without the delivery, and the job is
executed once more. -/

def sampleDisabled : Config :=
  { sampleStarted with db := { sampleStarted.db with
      webhookSubscriptions := sampleStarted.db.webhookSubscriptions.put { sampleSubscription with enabled := false } } }

def sampleRestart : Db × Option Granted :=
  (start sampleDisabled.db sampleJob 7 7 7).toOption.getD (sampleDisabled.db, none)

theorem history_mismatch : ∃ c, Reachable c ∧ ∃ r ∈ c.db.webhookDeliveries, ¬ Matches c.db r := by
  have disabled : Step sampleStarted (.disabledElsewhere sampleSubscription.id) sampleDisabled :=
    .disabledElsewhere (by decide)
  have restarted := @Step.start sampleDisabled sampleJob 7 7 7 sampleRestart.1 sampleRestart.2
    (eq_ok_getD (by decide) (sampleDisabled.db, none)) (by decide) le_rfl
  refine ⟨_, (sampleStarted_reachable.step ⟨_, disabled⟩).step ⟨_, restarted⟩, ?_⟩
  obtain ⟨r, hr, cancelled⟩ : ∃ r ∈ sampleRestart.1.webhookDeliveries.rows,
      r.id = sampleDelivery.id ∧ r.status = .cancelled := by decide
  refine ⟨r, hr, fun fits => ?_⟩
  have sending : (1, .sending) ∈ history sampleRestart.1 sampleDelivery.id := by decide
  cases cancelled.2.symm.trans (fits.opened (1, .sending) (cancelled.1 ▸ sending) rfl).2

end Fintech.Webhooks
