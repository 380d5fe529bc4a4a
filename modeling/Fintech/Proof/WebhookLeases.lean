import Fintech.Proof.Outbox
import Fintech.Proof.WebhookSteps

/-!
# Leases fence sends

A delivery has issued as many leases as it counts attempts. Every lease that its row no longer
carries was returned or has run out, so at most one is live. A start takes the attempt out of
`QUEUED`, which no step undoes under the same token, so a token is granted at most one send.
-/

namespace Fintech.Webhooks
open Relational Relation WebhookDeliveryService WebhooksService

variable {c c' : Config} {a : Action}

def Config.tokens (c : Config) : List Uuid := c.leases.map Lease.leaseToken

/-! ## The invariant of one delivery -/

structure RowInv (c : Config) (r : WebhookDelivery) : Prop where
  check : r.leaseCheck
  count : r.attemptCount ≤ 5
  leases : (c.leasesOf r.id).length = r.attemptCount
  current : ∀ token, r.leaseToken = some token → ∃ t, r.leaseUntil = some t ∧ ⟨r.id, token, t⟩ ∈ c.leases
  superseded : ∀ l ∈ c.leasesOf r.id,
    r.leaseToken = some l.leaseToken ∨ l.leaseToken ∈ c.returned ∨ l.leaseUntil ≤ c.clock
  granted : ∀ p ∈ c.granted, r.leaseToken = some p.1.leaseToken → (r.attemptCount, .queued) ∉ history c.db r.id

theorem lease_ext {leases : List Lease} (tokens : (leases.map Lease.leaseToken).Nodup) {l l' : Lease}
    (h : l ∈ leases) (h' : l' ∈ leases) (same : l.leaseToken = l'.leaseToken) : l = l' :=
  List.inj_on_of_nodup_map tokens h h' same

theorem mem_leasesOf {l : Lease} {d : Uuid} : l ∈ c.leasesOf d ↔ l ∈ c.leases ∧ l.deliveryId = d := by
  simp [Config.leasesOf]

theorem leaseCheck_of_token {r : WebhookDelivery} {token : Uuid} (h : r.leaseCheck)
    (holds : r.leaseToken = some token) : r.status = .processing := by
  by_contra other
  simp [WebhookDelivery.leaseCheck, other, holds] at h

theorem leaseCheck_release {status : WebhookDeliveryStatus} {r : WebhookDelivery} (h : status ≠ .processing)
    (availableAt : Time) : WebhookDelivery.leaseCheck { release status r with availableAt := availableAt } := by
  simp [WebhookDelivery.leaseCheck, release, h]

theorem Closes.ne_processing {closed : WebhookAttemptStatus} {status : WebhookDeliveryStatus}
    (h : Closes closed status) : status ≠ .processing := by
  cases h <;> simp

theorem queued_of_closeOpen {status : WebhookAttemptStatus} {h : History} {n : Nat} (ne : status ≠ .queued)
    (mem : (n, .queued) ∈ closeOpen status h) : (n, .queued) ∈ h := by
  rcases mem_closeOpen mem with ⟨mem, _⟩ | ⟨same, _⟩
  · exact mem
  · exact absurd same.symm ne

theorem queued_of_setCurrent {old new : WebhookAttemptStatus} {h : History} {m n : Nat} (ne : new ≠ .queued)
    (mem : (n, .queued) ∈ setCurrent m old new h) : (n, .queued) ∈ h := by
  rcases mem_setCurrent mem with ⟨mem, _⟩ | ⟨same, _⟩
  · exact mem
  · simp only [Prod.mk.injEq] at same
    exact absurd same.2.symm ne

theorem cancelled_cases (r : WebhookDelivery) :
    (r.status = .pending ∨ r.status = .processing) ∧ cancelled r = release .cancelled r ∨
      ¬ (r.status = .pending ∨ r.status = .processing) ∧ cancelled r = r := by
  unfold cancelled
  by_cases live : r.status = .pending ∨ r.status = .processing
  · exact .inl ⟨live, if_pos live⟩
  · exact .inr ⟨live, if_neg live⟩

/-- A token on the row after a step was there before, on the same attempt, unless a claim has just
issued it. -/
theorem RowStep.token {r r' : WebhookDelivery} (step : RowStep c a c' r r') {token : Uuid}
    (holds : r'.leaseToken = some token) :
    (r.leaseToken = some token ∧ r'.attemptCount = r.attemptCount ∧
      ∀ n, (n, .queued) ∈ history c'.db r.id → (n, .queued) ∈ history c.db r.id) ∨ token ∉ c.tokens := by
  cases step with
  | same hist _ => exact .inl ⟨holds, rfl, fun n h => hist ▸ h⟩
  | expire _ _ _ _ _ => cases holds
  | claim _ _ _ _ _ fresh =>
      cases holds
      exact .inr fresh
  | cancel _ _ _ _ _ _ => cases holds
  | send _ _ hist _ => exact .inl ⟨holds, rfl, fun n h => queued_of_setCurrent (by simp) (hist ▸ h)⟩
  | finish _ _ _ _ _ _ _ => cases holds
  | disable hist _ _ =>
      rcases cancelled_cases r with ⟨_, e⟩ | ⟨_, e⟩ <;> rw [e] at holds ⊢
      · cases holds
      · exact .inl ⟨holds, rfl, fun n h => queued_of_closeOpen (by simp) (hist ▸ h)⟩

/-- A row that a claim can take carries no live lease. -/
theorem RowInv.claimable {r : WebhookDelivery} (inv : RowInv c r) (tokens : c.tokens.Nodup) {now : Time}
    (able : claimable now r) (frame : Frame c a c') (le : now ≤ c'.clock) :
    ∀ l ∈ c.leasesOf r.id, l.leaseToken ∈ c'.returned ∨ l.leaseUntil ≤ c'.clock := by
  intro l hl
  rcases inv.superseded l hl with holds | back | expired
  · obtain ⟨t, until', mem⟩ := inv.current _ holds
    have processing := leaseCheck_of_token inv.check holds
    simp only [WebhookDeliveryService.claimable, processing, reduceCtorEq, until', Bool.or_eq_true, Bool.and_eq_true,
      beq_iff_eq, false_and, false_or, true_and, Option.any_some, decide_eq_true_eq] at able
    have expiry : l.leaseUntil = t := congrArg Lease.leaseUntil (lease_ext tokens (mem_leasesOf.mp hl).1 mem rfl)
    exact .inr (expiry ▸ able.trans le)
  · exact .inl (frame.returned back)
  · exact .inr (expired.trans frame.clock)

/-- What a step keeps of a delivery, apart from the grants. -/
theorem RowInv.step {r r' : WebhookDelivery} (inv : RowInv c r) (tokens : c.tokens.Nodup)
    (frame : Frame c a c') (leases : c.leases ⊆ c'.leases) (step : RowStep c a c' r r')
    (granted : ∀ p ∈ c'.granted, r'.leaseToken = some p.1.leaseToken →
      (r'.attemptCount, .queued) ∉ history c'.db r'.id) : RowInv c' r' := by
  -- the leases of a row that has let its token go
  have released (returned : ∀ token, r.leaseToken = some token → token ∈ c'.returned) :
      ∀ l ∈ c.leasesOf r.id, l.leaseToken ∈ c'.returned ∨ l.leaseUntil ≤ c'.clock := by
    intro l hl
    rcases inv.superseded l hl with holds | back | expired
    · exact .inl (returned _ holds)
    · exact .inl (frame.returned back)
    · exact .inr (expired.trans frame.clock)
  have kept : ∀ l ∈ c.leasesOf r.id,
      r.leaseToken = some l.leaseToken ∨ l.leaseToken ∈ c'.returned ∨ l.leaseUntil ≤ c'.clock := by
    intro l hl
    exact (inv.superseded l hl).imp_right (Or.imp (fun h => frame.returned h) fun h => h.trans frame.clock)
  have current : ∀ token, r.leaseToken = some token → ∃ t, r.leaseUntil = some t ∧ ⟨r.id, token, t⟩ ∈ c'.leases := by
    intro token holds
    obtain ⟨t, until', mem⟩ := inv.current token holds
    exact ⟨t, until', leases mem⟩
  cases step with
  | same _ own =>
      exact ⟨inv.check, inv.count, own ▸ inv.leases, current, fun l hl => kept l (own ▸ hl), granted⟩
  | @expire now status able le terminal _ own =>
      have ne : status ≠ .processing := by
        rcases terminal with rfl | rfl <;> simp
      refine ⟨leaseCheck_release ne _, inv.count, own ▸ inv.leases, by simp [release], fun l hl => ?_, granted⟩
      exact .inr (inv.claimable tokens able frame le l (own ▸ hl))
  | @claim now draw able le count _ own fresh =>
      have mem : (⟨r.id, draw.leaseToken, draw.clock + 30000⟩ : Lease) ∈ c'.leases := by
        have : (⟨r.id, draw.leaseToken, draw.clock + 30000⟩ : Lease) ∈ c'.leasesOf r.id := by simp [own]
        exact (mem_leasesOf.mp this).1
      refine ⟨by simp [claimed, WebhookDelivery.leaseCheck], Nat.succ_le_of_lt count, ?_, ?_, fun l hl => ?_, granted⟩
      · change (c'.leasesOf r.id).length = r.attemptCount + 1
        rw [own, List.length_append, inv.leases]
        rfl
      · rintro token ⟨⟩
        exact ⟨_, rfl, mem⟩
      · rw [show (claimed draw r).id = r.id from rfl, own, List.mem_append, List.mem_singleton] at hl
        rcases hl with hl | rfl
        · exact .inr (inv.claimable tokens able frame le l hl)
        · exact .inl rfl
  | cancel _ hl _ _ own back =>
      refine ⟨leaseCheck_release (by simp) _, inv.count, own ▸ inv.leases, by simp [release], fun l h => .inr ?_, granted⟩
      refine released (fun token holds => ?_) l (own ▸ h)
      rw [(locked_eq_some hl).2.2.2.1] at holds
      cases holds
      exact back
  | send _ _ _ own =>
      exact ⟨inv.check, inv.count, own ▸ inv.leases, current, fun l hl => kept l (own ▸ hl), granted⟩
  | finish hl _ closes _ _ own back =>
      refine ⟨leaseCheck_release closes.ne_processing _, inv.count, own ▸ inv.leases, by simp [release],
        fun l h => .inr ?_, granted⟩
      refine released (fun token holds => ?_) l (own ▸ h)
      rw [(locked_eq_some hl).2.2.2.1] at holds
      cases holds
      exact back
  | disable _ own back =>
      rcases cancelled_cases r with ⟨live, e⟩ | ⟨_, e⟩ <;> rw [e] at granted ⊢
      · refine ⟨leaseCheck_release (by simp) _, inv.count, own ▸ inv.leases, by simp [release],
          fun l h => .inr ?_, granted⟩
        exact released (back live) l (own ▸ h)
      · exact ⟨inv.check, inv.count, own ▸ inv.leases, current, fun l hl => kept l (own ▸ hl), granted⟩

/-! ## The invariant -/

structure LeaseInv (c : Config) : Prop where
  tokens : c.tokens.Nodup
  rows : ∀ r ∈ c.db.webhookDeliveries, RowInv c r
  rooted : ∀ d, (∀ r ∈ c.db.webhookDeliveries, r.id ≠ d) → c.leasesOf d = []
  once : (c.granted.map fun p => p.1.leaseToken).Nodup
  leased : ∀ p ∈ c.granted, ∃ l ∈ c.leases, l.deliveryId = p.1.deliveryId ∧ l.leaseToken = p.1.leaseToken
  content : ∀ p ∈ c.granted, p.2.row.id = p.1.deliveryId ∧ ∃ r ∈ c.db.webhookDeliveries, r.id = p.2.row.id ∧
    ∃ e ∈ c.db.outboxEvents, e.id = r.outboxEventId ∧ SameBody p.2.event e
  sends : (c.waiting ++ c.sent).Subperm c.granted

theorem LeaseInv.start (h : Start c) : LeaseInv c := by
  obtain ⟨deliveries, _, leases, _, granted, waiting, sent⟩ := h
  exact {
    tokens := by simp [Config.tokens, leases]
    rows := by simp [deliveries]
    rooted := by simp [Config.leasesOf, leases]
    once := by simp [granted]
    leased := by simp [granted]
    content := by simp [granted]
    sends := by simp [granted, waiting, sent] }

theorem SameBody.trans {e e' e'' : OutboxEvent} (h : SameBody e e') (h' : SameBody e' e'') : SameBody e e'' :=
  ⟨h'.1.trans h.1, h'.2.1.trans h.2.1, h'.2.2.1.trans h.2.2.1, h'.2.2.2.trans h.2.2.2⟩

theorem Micro.leases_subset (h : Micro a c c') : c.leases ⊆ c'.leases := by
  rcases h.tokens with same | ⟨l, more, _⟩
  · exact same ▸ List.Subset.refl _
  · exact more ▸ List.subset_append_left _ _

/-- The row that carries a token is the delivery of its lease. -/
theorem LeaseInv.row_of_token (inv : LeaseInv c) {r : WebhookDelivery} (mem : r ∈ c.db.webhookDeliveries) {l : Lease}
    (hl : l ∈ c.leases) (holds : r.leaseToken = some l.leaseToken) : l.deliveryId = r.id := by
  obtain ⟨t, _, own⟩ := (inv.rows r mem).current _ holds
  rw [lease_ext inv.tokens hl own rfl]

/-- The token of a new grant has not been granted before. -/
theorem LeaseInv.not_granted (inv : LeaseInv c) {job : Job} {now now' : Time} {row : WebhookDelivery}
    (hl : locked c.db job now now' = some row) (queued : (row.attemptCount, .queued) ∈ history c.db row.id) :
    job.leaseToken ∉ c.granted.map fun p => p.1.leaseToken := by
  intro listed
  obtain ⟨p, hp, same⟩ := List.mem_map.mp listed
  obtain ⟨mem, _, _, token, _⟩ := locked_eq_some hl
  exact (inv.rows row mem).granted p hp (token.trans (congrArg some same.symm)) queued

theorem LeaseInv.granted_step (inv : LeaseInv c) (h : Micro a c c') {r r' : WebhookDelivery}
    (mem : r ∈ c.db.webhookDeliveries) (step : RowStep c a c' r r') {p : Job × Granted} (hp : p ∈ c'.granted)
    (holds : r'.leaseToken = some p.1.leaseToken) : (r'.attemptCount, .queued) ∉ history c'.db r'.id := by
  intro queued
  rw [step.identity.1] at queued
  -- every granted token is that of an old lease, so the row has carried it since before the step
  have old (known : p.1.leaseToken ∈ c.tokens) :
      r.leaseToken = some p.1.leaseToken ∧ r'.attemptCount = r.attemptCount ∧
        ∀ n, (n, .queued) ∈ history c'.db r.id → (n, .queued) ∈ history c.db r.id :=
    (step.token holds).resolve_right fun new => new known
  have before (hp : p ∈ c.granted) : False := by
    obtain ⟨l, hl, _, same⟩ := inv.leased p hp
    obtain ⟨token, count, queued'⟩ := old (same ▸ List.mem_map_of_mem hl)
    exact (inv.rows r mem).granted p hp token (queued' _ (count ▸ queued))
  rcases h.sends with ⟨same, _⟩ | ⟨job, g, now, now', more, _, _, hl, _, _, _, started⟩
  · exact before (same ▸ hp)
  · rcases List.mem_append.mp (more ▸ hp) with hp | hp
    · exact before hp
    · obtain rfl := List.mem_singleton.mp hp
      obtain ⟨row, _, _, token, _⟩ := locked_eq_some hl
      obtain ⟨t, _, lease⟩ := (inv.rows _ row).current _ token
      obtain ⟨token', count, _⟩ := old (List.mem_map_of_mem lease)
      have id : g.row.id = r.id := inv.row_of_token mem lease token'
      obtain rfl := Table.eq_of_key_eq row mem id
      exact started (count ▸ queued)

theorem LeaseInv.step (inv : LeaseInv c) (h : Micro a c c') : LeaseInv c' := by
  have sub := h.leases_subset
  refine { tokens := ?_, rows := ?_, rooted := ?_, once := ?_, leased := ?_, content := ?_, sends := ?_ }
  · rcases h.tokens with same | ⟨l, more, fresh⟩
    · rw [Config.tokens, same]
      exact inv.tokens
    · rw [Config.tokens, more, List.map_append, List.map_singleton]
      exact List.nodup_append.mpr ⟨inv.tokens, List.nodup_singleton _,
        fun x hx y hy e => fresh (List.mem_singleton.mp hy ▸ e ▸ hx)⟩
  · intro r' hr'
    rcases h.back r' hr' with new | ⟨r, hr, step⟩
    · have none : c'.leasesOf r'.id = [] := new.leases.trans (inv.rooted _ new.fresh)
      exact {
        check := by simp [WebhookDelivery.leaseCheck, new.status, new.leaseToken, new.leaseUntil]
        count := by simp [new.attemptCount]
        leases := by simp [none, new.attemptCount]
        current := by simp [new.leaseToken]
        superseded := by simp [none]
        granted := by simp [new.leaseToken] }
    · exact (inv.rows r hr).step inv.tokens h.toFrame sub step fun p hp holds => inv.granted_step h hr step hp holds
  · intro d absent
    rw [(h.elsewhere d absent).2]
    refine inv.rooted d fun r hr same => ?_
    obtain ⟨r', hr', step⟩ := h.forward r hr
    exact absent r' hr' (step.identity.1.trans same)
  · rcases h.sends with ⟨same, _⟩ | ⟨job, g, now, now', more, _, _, hl, _, _, queued, _⟩
    · exact same ▸ inv.once
    · rw [more, List.map_append, List.map_singleton]
      exact List.nodup_append.mpr ⟨inv.once, List.nodup_singleton _,
        fun x hx y hy e => inv.not_granted hl queued (List.mem_singleton.mp hy ▸ e ▸ hx)⟩
  · intro p hp
    have old (hp : p ∈ c.granted) := inv.leased p hp
    rcases h.sends with ⟨same, _⟩ | ⟨job, g, now, now', more, _, _, hl, _⟩
    · obtain ⟨l, hl, both⟩ := old (same ▸ hp)
      exact ⟨l, sub hl, both⟩
    · rcases List.mem_append.mp (more ▸ hp) with hp | hp
      · obtain ⟨l, hl, both⟩ := old hp
        exact ⟨l, sub hl, both⟩
      · obtain rfl := List.mem_singleton.mp hp
        obtain ⟨row, id, _, token, _⟩ := locked_eq_some hl
        obtain ⟨t, _, lease⟩ := (inv.rows _ row).current _ token
        exact ⟨_, sub lease, id, rfl⟩
  · intro p hp
    have now : p.2.row.id = p.1.deliveryId ∧ ∃ r ∈ c.db.webhookDeliveries, r.id = p.2.row.id ∧
        ∃ e ∈ c.db.outboxEvents, e.id = r.outboxEventId ∧ SameBody p.2.event e := by
      rcases h.sends with ⟨same, _⟩ | ⟨job, g, _, _, more, _, _, hl, event, id, _⟩
      · exact inv.content p (same ▸ hp)
      · rcases List.mem_append.mp (more ▸ hp) with hp | hp
        · exact inv.content p hp
        · obtain rfl := List.mem_singleton.mp hp
          obtain ⟨row, delivery, _⟩ := locked_eq_some hl
          exact ⟨delivery, _, row, rfl, _, event, id, .refl _⟩
    obtain ⟨delivery, r, hr, id, e, he, event, body⟩ := now
    obtain ⟨r', hr', step⟩ := h.forward r hr
    obtain ⟨e', he', same⟩ := h.events e he
    refine ⟨delivery, r', hr', step.identity.1.trans id, e', he', ?_, body.trans same⟩
    rw [same.1, event, step.identity.2.2]
  · rcases h.sends with ⟨same, sub⟩ | ⟨job, g, _, _, more, waiting, sent, _⟩
    · exact same ▸ sub.trans inv.sends
    · rw [more, waiting, sent, List.append_assoc]
      refine List.Subperm.trans (List.Perm.subperm ?_) ((List.subperm_append_right [(job, g)]).mpr inv.sends)
      rw [List.append_assoc]
      exact List.Perm.append_left _ List.perm_append_comm

theorem LeaseInv.run (inv : LeaseInv c) (h : ReflTransGen (Micro a) c c') : LeaseInv c' := by
  induction h with
  | refl => exact inv
  | tail _ step ih => exact ih.step step

theorem LeaseInv.whole_step (inv : LeaseInv c) (h : Step c a c') : LeaseInv c' := by
  rcases h.micro with micro | ⟨_, run⟩
  · exact inv.step micro
  · exact inv.run run

theorem Reachable.leaseInv (h : Reachable c) : LeaseInv c := by
  refine Transition.Reachable.invariant ?_ ?_ h
  · exact fun _ => LeaseInv.start
  · exact fun _ _ inv ⟨_, step⟩ => inv.whole_step step

/-! ## Claims of a spent delivery -/

theorem claimRows_others {draws : Uuid → Draw} {db db' : Db} {rows : List WebhookDelivery} {jobs : List Job}
    (mem : ∀ row ∈ rows, row ∈ db.webhookDeliveries) (ids : (rows.map WebhookDelivery.id).Nodup)
    (h : claimRows draws db rows = .ok (db', jobs)) {x : WebhookDelivery} (hx : x ∈ db.webhookDeliveries)
    (other : x.id ∉ rows.map WebhookDelivery.id) : x ∈ db'.webhookDeliveries := by
  induction rows generalizing db jobs with
  | nil =>
      simp only [claimRows, Except.ok.injEq, Prod.mk.injEq] at h
      exact h.1 ▸ hx
  | cons row rows ih =>
      simp only [claimRows, bind_eq_ok, pure, Except.pure, Except.ok.injEq, Prod.mk.injEq, Prod.exists] at h
      obtain ⟨db₁, job, first, _, jobs', rest, rfl, rfl⟩ := h
      simp only [List.map_cons, List.nodup_cons, List.mem_cons, not_or] at ids other
      have kept := claimRow_others (mem row (by simp)) first
      exact ih (fun r hr => kept r (mem r (by simp [hr])) fun same => ids.1 (List.mem_map.mpr ⟨r, hr, same⟩))
        ids.2 rest (kept x hx other.1) other.2

/-- A selected delivery that has spent its attempts leaves the loop of the claim terminal. -/
theorem claimRows_spent {draws : Uuid → Draw} {db db' : Db} {rows : List WebhookDelivery} {jobs : List Job}
    (mem : ∀ row ∈ rows, row ∈ db.webhookDeliveries) (ids : (rows.map WebhookDelivery.id).Nodup)
    (h : claimRows draws db rows = .ok (db', jobs)) {r : WebhookDelivery} (hr : r ∈ rows) (spent : maxAttempts ≤ r.attemptCount) :
    ∃ r' ∈ db'.webhookDeliveries, r'.id = r.id ∧ (r'.status = .failed ∨ r'.status = .cancelled) := by
  induction rows generalizing db jobs with
  | nil => simp at hr
  | cons row rows ih =>
      simp only [claimRows, bind_eq_ok, pure, Except.pure, Except.ok.injEq, Prod.mk.injEq, Prod.exists] at h
      obtain ⟨db₁, job, first, _, jobs', rest, rfl, rfl⟩ := h
      simp only [List.map_cons, List.nodup_cons] at ids
      have kept := claimRow_others (mem row (by simp)) first
      have mem' : ∀ x ∈ rows, x ∈ db₁.webhookDeliveries :=
        fun x hx => kept x (mem x (by simp [hx])) fun same => ids.1 (List.mem_map.mpr ⟨x, hx, same⟩)
      rcases List.mem_cons.mp hr with rfl | hr
      · rcases claimRow_eq_ok (mem r (by simp)) first with ⟨_, status, terminal, touches⟩ | ⟨_, count, _⟩
        · exact ⟨release status r, claimRows_others mem' ids.2 rest touches.mem ids.1, rfl, terminal⟩
        · exact absurd spent (Nat.not_le_of_lt count)
      · exact ih mem' ids.2 rest hr

/-! ## Main result -/

/-- The token of the job is the row's, and has not expired. -/
def Current (db : Db) (job : Job) (now : Time) : Prop :=
  ∃ r ∈ db.webhookDeliveries, r.id = job.deliveryId ∧ r.leaseToken = some job.leaseToken ∧
    ∃ t, r.leaseUntil = some t ∧ now < t

def Terminal (r : WebhookDelivery) : Prop := r.status = .delivered ∨ r.status = .failed ∨ r.status = .cancelled

/-- A lease that its holder has not given back and that has not run out. -/
structure Config.Live (c : Config) (l : Lease) : Prop where
  issued : l ∈ c.leases
  held : l.leaseToken ∉ c.returned
  unexpired : c.clock < l.leaseUntil

theorem locked_eq_none {db : Db} {job : Job} {now now' : Time} (h : ¬ Current db job now') :
    locked db job now now' = none := by
  cases hl : locked db job now now' with
  | none => rfl
  | some row =>
      obtain ⟨mem, id, _, token, until'⟩ := locked_eq_some hl
      exact absurd ⟨row, mem, id, token, until'⟩ h

theorem RowStep.terminal {r r' : WebhookDelivery} (step : RowStep c a c' r r') (h : Terminal r) : r' = r := by
  have idle : r.status ≠ .processing ∧ r.status ≠ .pending := by
    rcases h with h | h | h <;> simp [h]
  have unclaimable (now : Time) : ¬ claimable now r := by simp [claimable, idle.1, idle.2]
  cases step with
  | same _ _ => rfl
  | expire able _ _ _ _ => exact absurd able (unclaimable _)
  | claim able _ _ _ _ _ => exact absurd able (unclaimable _)
  | cancel _ hl _ _ _ _ => exact absurd (locked_eq_some hl).2.2.1 idle.1
  | send _ _ _ _ => rfl
  | finish hl _ _ _ _ _ _ => exact absurd (locked_eq_some hl).2.2.1 idle.1
  | disable _ _ _ => simp [cancelled, idle.1, idle.2]

theorem Micro.terminal (h : ReflTransGen (Micro a) c c') {r : WebhookDelivery} (terminal : Terminal r)
    (mem : r ∈ c.db.webhookDeliveries) : r ∈ c'.db.webhookDeliveries := by
  induction h with
  | refl => exact mem
  | tail _ step ih =>
      obtain ⟨r', hr', rowStep⟩ := step.forward r ih
      exact rowStep.terminal terminal ▸ hr'

theorem LeaseInv.live (inv : LeaseInv c) {l l' : Lease} (h : c.Live l) (h' : c.Live l')
    (same : l.deliveryId = l'.deliveryId) : l = l' := by
  have mem : l ∈ c.leasesOf l'.deliveryId := mem_leasesOf.mpr ⟨h.issued, same⟩
  have mem' : l' ∈ c.leasesOf l'.deliveryId := mem_leasesOf.mpr ⟨h'.issued, rfl⟩
  obtain ⟨r, hr, id⟩ : ∃ r ∈ c.db.webhookDeliveries, r.id = l'.deliveryId := by
    by_contra absent
    push Not at absent
    simp [inv.rooted _ absent] at mem'
  have holds {x : Lease} (hx : x ∈ c.leasesOf l'.deliveryId) (live : c.Live x) : r.leaseToken = some x.leaseToken := by
    rcases (inv.rows r hr).superseded x (id ▸ hx) with holds | back | expired
    · exact holds
    · exact absurd back live.held
    · exact absurd live.unexpired (Int.not_lt.mpr expired)
  have token := (holds mem h).symm.trans (holds mem' h')
  exact lease_ext inv.tokens h.issued h'.issued (Option.some.inj token)

theorem LeaseInv.leasesOf_le (inv : LeaseInv c) (d : Uuid) : (c.leasesOf d).length ≤ 5 := by
  by_cases present : ∃ r ∈ c.db.webhookDeliveries, r.id = d
  · obtain ⟨r, hr, rfl⟩ := present
    exact (inv.rows r hr).leases ▸ (inv.rows r hr).count
  · push Not at present
    simp [inv.rooted d present]

/-- The grants of a delivery carry distinct tokens, each of one of its leases. -/
theorem LeaseInv.granted_le (inv : LeaseInv c) (d : Uuid) :
    (c.granted.filter fun p => p.1.deliveryId = d).length ≤ 5 := by
  have tokens : ((c.granted.filter fun p => p.1.deliveryId = d).map fun p => p.1.leaseToken).Subperm
      ((c.leasesOf d).map Lease.leaseToken) := by
    refine List.subperm_of_subset (inv.once.sublist (List.filter_sublist.map _)) fun token h => ?_
    obtain ⟨p, hp, rfl⟩ := List.mem_map.mp h
    simp only [List.mem_filter, decide_eq_true_eq] at hp
    obtain ⟨l, hl, delivery, same⟩ := inv.leased p hp.1
    exact List.mem_map.mpr ⟨l, mem_leasesOf.mpr ⟨hl, delivery.trans hp.2⟩, same⟩
  have := tokens.length_le
  rw [List.length_map, List.length_map] at this
  exact this.trans (inv.leasesOf_le d)

/-- What a send carries is determined by its delivery. -/
theorem LeaseInv.request_eq (inv : LeaseInv c) {p p' : Job × Granted} (hp : p ∈ c.granted) (hp' : p' ∈ c.granted)
    (same : p.1.deliveryId = p'.1.deliveryId) : request p.2 = request p'.2 := by
  obtain ⟨delivery, r, hr, id, e, he, event, body⟩ := inv.content p hp
  obtain ⟨delivery', r', hr', id', e', he', event', body'⟩ := inv.content p' hp'
  have row : p.2.row.id = p'.2.row.id := delivery.trans (same.trans delivery'.symm)
  obtain rfl := Table.eq_of_key_eq hr hr' (id.trans (row.trans id'.symm))
  obtain rfl := Table.eq_of_key_eq he he' (event.trans event'.symm)
  simp only [request, row, ← body.1, ← body.2.1, ← body.2.2.1, ← body.2.2.2, body'.1, body'.2.1, body'.2.2.1, body'.2.2.2]

/-- In every reachable state: a token is granted one send, a delivery at most five, all alike; a
job whose token is not current and unexpired changes nothing; a terminal delivery stays as it is;
and a delivery has at most five leases, at most one of them live, and leaves the claim that finds
them spent terminal. -/
theorem leases_fence_sends (h : Reachable c) :
    (c.granted.map fun p => p.1.leaseToken).Nodup ∧ (c.waiting ++ c.sent).Subperm c.granted ∧
    (∀ d, (c.sent.filter fun p => p.1.deliveryId = d).length ≤ 5) ∧
    (∀ p ∈ c.sent, (request p.2).webhookId = p.1.deliveryId ∧
      ∀ p' ∈ c.sent, p.1.deliveryId = p'.1.deliveryId → request p.2 = request p'.2) ∧
    (∀ job now now' date, ¬ Current c.db job now' → start c.db job now now' date = .ok (c.db, none) ∧
      (∀ outcome expected, finish c.db job outcome expected now now' date = .ok c.db) ∧
      publicationFailed c.db job now now' date = .ok c.db) ∧
    (∀ r ∈ c.db.webhookDeliveries, Terminal r →
      ∀ c', ReflTransGen (fun c c' => ∃ a, Step c a c') c c' → r ∈ c'.db.webhookDeliveries) ∧
    (∀ r ∈ c.db.webhookDeliveries, r.attemptCount ≤ 5) ∧
    (∀ l l', c.Live l → c.Live l' → l.deliveryId = l'.deliveryId → l = l') ∧
    (∀ d, (c.leasesOf d).length ≤ 5) ∧
    (∀ r now skipped draws done c', Step c (.claimBatch now skipped draws done) c' →
      r ∈ selectBatch c.db now skipped → r.attemptCount = 5 →
      ∃ r' ∈ c'.db.webhookDeliveries, r'.id = r.id ∧ Terminal r') := by
  have inv := h.leaseInv
  have sent : c.sent.Subperm c.granted := (List.sublist_append_right _ _).subperm.trans inv.sends
  refine ⟨inv.once, inv.sends, fun d => ?_, fun p hp => ⟨(inv.content p (sent.subset hp)).1, fun p' hp' same => ?_⟩,
    fun job now now' date stale => ?_, fun r hr terminal c' run => ?_, fun r hr => (inv.rows r hr).count,
    fun l l' => inv.live, inv.leasesOf_le, fun r now skipped draws done c' step hr spent => ?_⟩
  · exact (sent.filter _).length_le.trans (inv.granted_le d)
  · exact inv.request_eq (sent.subset hp) (sent.subset hp') same
  · have none : locked c.db job now now' = none := locked_eq_none stale
    simp [start, publicationFailed, finish, none, pure, Except.pure]
  · induction run with
    | refl => exact hr
    | tail _ step ih =>
        obtain ⟨a, step⟩ := step
        rcases step.micro with micro | ⟨_, micros⟩
        · exact Micro.terminal (.single micro) terminal ih
        · exact Micro.terminal micros terminal ih
  · cases step with
    | claimBatch ok _ _ _ _ =>
        obtain ⟨r', hr', id, terminal⟩ := claimRows_spent (fun row h => (mem_selectBatch h).1)
          (selectBatch_nodup _ _ _) ok hr spent.ge
        exact ⟨r', hr', id, terminal.elim (fun h => .inr (.inl h)) fun h => .inr (.inr h)⟩

/-! A run in which a delivery is fanned out, claimed and sent; its lease expires, and it is claimed and sent again. -/

def sampleSubscription : WebhookSubscription where
  id := ⟨"00000000-0000-4000-8000-0000000000a2", by decide +kernel⟩
  userId := Outbox.sampleUser.id
  url := "https://hooks.example.com/"
  encryptedSecret := "secret"
  createdAt := 0

def sampleDelivery : WebhookDelivery where
  id := ⟨"00000000-0000-4000-8000-0000000000d1", by decide +kernel⟩
  subscriptionId := sampleSubscription.id
  outboxEventId := Outbox.sampleEvent.id
  availableAt := 0
  createdAt := 0

def sampleDraw : Draw where
  leaseToken := ⟨"00000000-0000-4000-8000-0000000000e1", by decide +kernel⟩
  attempt := ⟨"00000000-0000-4000-8000-0000000000f1", by decide +kernel⟩
  clock := 5
  date := 5

def sampleJob : Job := ⟨sampleDelivery.id, sampleDraw.leaseToken⟩

def sampleStart : Config where
  db := { users := Table.empty.put Outbox.sampleUser, webhookSubscriptions := Table.empty.put sampleSubscription }
  clock := 0
  leases := []
  returned := []
  granted := []
  waiting := []
  sent := []

def sampleRows : List Row := sampleStart.db.eventRows Outbox.sampleEvent (fun _ => sampleDelivery.id) 0

def sampleFanned : Config :=
  { sampleStart with db := Transactional.applyAll sampleStart.db sampleRows }

theorem sampleFanned_selected : selectBatch sampleFanned.db 5 (fun _ => false) = [sampleDelivery] := by
  have rows : sampleFanned.db.webhookDeliveries.rows = [sampleDelivery] := by decide
  simp [selectBatch, rows, claimable, sampleDelivery]

def sampleClaim : Db × List Job :=
  (claimRows (fun _ => sampleDraw) sampleFanned.db [sampleDelivery]).toOption.getD (sampleFanned.db, [])

def sampleClaimed : Config :=
  { sampleFanned with db := sampleClaim.1, clock := 5, leases := sampleClaim.2.map (lease fun _ => sampleDraw) }

def sampleGrant : Db × Option Granted :=
  (start sampleClaimed.db sampleJob 6 6 6).toOption.getD (sampleClaimed.db, none)

def sampleStarted : Config :=
  { sampleClaimed with
    db := sampleGrant.1
    clock := 6
    returned := sampleClaimed.returned ++ dropped sampleClaimed.db sampleGrant.1
    granted := (sampleGrant.2.map fun g => (sampleJob, g)).toList
    waiting := (sampleGrant.2.map fun g => (sampleJob, g)).toList }

theorem sampleStart_start : Start sampleStart := ⟨rfl, rfl, rfl, rfl, rfl, rfl, rfl⟩

theorem sampleFanned_step :
    Step sampleStart (.fanOut sampleStart.db Outbox.sampleEvent (fun _ => sampleDelivery.id) 0) sampleFanned :=
  .fanOut (eq_ok_getD (by decide) {})

theorem sampleClaimed_step : Step sampleFanned (.claimBatch 5 (fun _ => false) (fun _ => sampleDraw) 5) sampleClaimed := by
  refine @Step.claimBatch sampleFanned 5 (fun _ => false) (fun _ => sampleDraw) 5 sampleClaim.1 sampleClaim.2
    ?_ ?_ ?_ (by decide) le_rfl
  · rw [claimBatch, sampleFanned_selected]
    exact eq_ok_getD (by decide) (sampleFanned.db, [])
  · simp [sampleFanned_selected]
  · simp [sampleFanned, sampleStart]

/-- The delivery is fanned out, claimed and started. -/
theorem sampleStarted_reachable : Reachable sampleStarted := by
  have start : Reachable sampleStart := Transition.Reachable.start sampleStart_start
  have started : Step sampleClaimed (.start sampleJob 6 6 6) sampleStarted :=
    @Step.start sampleClaimed sampleJob 6 6 6 sampleGrant.1 sampleGrant.2
      (eq_ok_getD (by decide) (sampleClaimed.db, none)) (by decide) le_rfl
  exact ((start.step ⟨_, sampleFanned_step⟩).step ⟨_, sampleClaimed_step⟩).step ⟨_, started⟩

def sampleSent : Config := { sampleStarted with waiting := [], sent := sampleStarted.waiting }

theorem sampleSent_reachable : Reachable sampleSent := by
  obtain ⟨g, waiting⟩ : ∃ g, sampleStarted.waiting = [(sampleJob, g)] := by
    cases found : sampleGrant.2 with
    | none => exact absurd found (Option.ne_none_iff_isSome.mpr (by decide))
    | some g => exact ⟨g, by simp [sampleStarted, found]⟩
  have reach := sampleStarted_reachable.step ⟨_, @Step.send _ sampleJob g [] [] waiting⟩
  rwa [sampleSent, waiting]

/-- What the claim draws that finds the lease expired. -/
def sampleRedraw : Draw where
  leaseToken := ⟨"00000000-0000-4000-8000-0000000000e2", by decide +kernel⟩
  attempt := ⟨"00000000-0000-4000-8000-0000000000f2", by decide +kernel⟩
  clock := 40000
  date := 40000

def sampleRejob : Job := ⟨sampleDelivery.id, sampleRedraw.leaseToken⟩

def sampleRenewal : Db × List Job :=
  (claimRows (fun _ => sampleRedraw) sampleSent.db sampleSent.db.webhookDeliveries.rows).toOption.getD (sampleSent.db, [])

def sampleRenewed : Config :=
  { sampleSent with
    db := sampleRenewal.1
    clock := 40000
    leases := sampleSent.leases ++ sampleRenewal.2.map (lease fun _ => sampleRedraw) }

theorem sampleSent_selected : selectBatch sampleSent.db 40000 (fun _ => false) = sampleSent.db.webhookDeliveries.rows := by
  have rows : sampleSent.db.webhookDeliveries.rows = [{ sampleDelivery with
      status := .processing, attemptCount := 1, leaseToken := some sampleDraw.leaseToken, leaseUntil := some 30005 }] := by
    decide
  simp [selectBatch, rows, claimable]

theorem sampleRenewed_reachable : Reachable sampleRenewed := by
  refine sampleSent_reachable.step ⟨.claimBatch 40000 (fun _ => false) (fun _ => sampleRedraw) 40000, ?_⟩
  refine @Step.claimBatch sampleSent 40000 (fun _ => false) (fun _ => sampleRedraw) 40000 sampleRenewal.1 sampleRenewal.2
    ?_ ?_ ?_ (by decide) le_rfl
  · rw [claimBatch, sampleSent_selected]
    exact eq_ok_getD (by decide) (sampleSent.db, [])
  · rw [sampleSent_selected]
    decide
  · rw [sampleSent_selected]
    decide

def sampleRegrant : Db × Option Granted :=
  (start sampleRenewed.db sampleRejob 40001 40001 40001).toOption.getD (sampleRenewed.db, none)

def sampleResent : Config :=
  { sampleRenewed with
    db := sampleRegrant.1
    clock := 40001
    returned := sampleRenewed.returned ++ dropped sampleRenewed.db sampleRegrant.1
    granted := sampleRenewed.granted ++ (sampleRegrant.2.map fun g => (sampleRejob, g)).toList
    sent := sampleRenewed.sent ++ (sampleRegrant.2.map fun g => (sampleRejob, g)).toList }

theorem sampleResent_reachable : Reachable sampleResent := by
  have started := sampleRenewed_reachable.step ⟨_, @Step.start sampleRenewed sampleRejob 40001 40001 40001 sampleRegrant.1
    sampleRegrant.2 (eq_ok_getD (by decide) (sampleRenewed.db, none)) (by decide) le_rfl⟩
  cases found : sampleRegrant.2 with
  | none => exact absurd found (Option.ne_none_iff_isSome.mpr (by decide))
  | some g =>
      rw [found] at started
      have sent := started.step ⟨_, @Step.send _ sampleRejob g [] [] rfl⟩
      rwa [sampleResent, found]

def sampleFinish : Db :=
  (finish sampleResent.db sampleRejob { success := true, retry := false } .sending 40002 40002 40002).toOption.getD sampleResent.db

/-- Both sends are alike; the first job no longer starts, and what the second job delivers stays delivered. -/
theorem leases_fence_sends_sample : sampleResent.leases.length = 2 ∧ sampleResent.sent.length = 2 ∧
    (∀ p ∈ sampleResent.sent, ∀ p' ∈ sampleResent.sent, p.1.deliveryId = p'.1.deliveryId → request p.2 = request p'.2) ∧
    start sampleResent.db sampleJob 40002 40002 40002 = .ok (sampleResent.db, none) ∧
    ∃ c r, Reachable c ∧ r ∈ c.db.webhookDeliveries ∧ r.status = .delivered ∧
      ∀ c', ReflTransGen (fun c c' => ∃ a, Step c a c') c c' → r ∈ c'.db.webhookDeliveries := by
  obtain ⟨_, _, _, alike, stale, _⟩ := leases_fence_sends sampleResent_reachable
  refine ⟨by decide, by decide, fun p hp => (alike p hp).2, ?_, ?_⟩
  · have superseded : ∀ r ∈ sampleResent.db.webhookDeliveries.rows, r.leaseToken ≠ some sampleJob.leaseToken := by
      decide
    exact (stale sampleJob 40002 40002 40002 fun ⟨r, hr, _, holds, _⟩ => superseded r hr holds).1
  · have reach := sampleResent_reachable.step ⟨_, @Step.finish sampleResent sampleRejob { success := true, retry := false }
      .sending 40002 40002 40002 sampleFinish (eq_ok_getD (by decide) sampleResent.db) (.inr rfl) (by decide) le_rfl⟩
    obtain ⟨r, mem, status⟩ : ∃ r ∈ sampleFinish.webhookDeliveries.rows, r.status = .delivered := by decide
    obtain ⟨_, _, _, _, _, kept, _⟩ := leases_fence_sends reach
    exact ⟨_, r, reach, mem, status, kept r mem (.inl status)⟩

end Fintech.Webhooks
