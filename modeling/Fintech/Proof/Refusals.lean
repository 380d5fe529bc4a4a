import Fintech.Proof.Books

/-!
# Refused requests

A transfer or a reversal that fails with a client error commits nothing but the record of that failure, and one
that fails for any other reason commits nothing at all.
-/

namespace Fintech
open Relational Transactional

def Request.IsKeyed : Request → Prop
  | .createTransfer .. | .createReversal .. => True
  | _ => False

/-- A failure that is not the client's. -/
def Failure.IsServer : Failure → Prop
  | .http e => 500 ≤ e.status
  | .database _ => True

/-- The rows written leave one record of the failure, and change nothing else. -/
structure Refused (before : Db) (e : HttpException) (rows : List Row) (record : IdempotencyRecord) : Prop where
  client : 400 ≤ e.status ∧ e.status < 500
  status : record.responseStatus = some e.status
  message : record.errorMessage = some e.message
  fresh : ∀ r ∈ before.idempotencyRecords, r.id ≠ record.id
  only : ∀ r, r ∈ applyAll before rows ↔ r = .idempotencyRecord record ∨ r ∈ before

/-! ## One commit -/

section
variable {ρ : Type} {scope : Scope ρ} {seen now : Db} {claim record : IdempotencyRecord} {Does : ρ → List Write → Prop}
  {Fails : HttpException → Prop} {outcome : AttemptOutcome} {ws : List Write}

theorem refused_of_accepts {e : HttpException} (client : 400 ≤ e.status ∧ e.status < 500)
    (accepts : Accepts now [.insert (.idempotencyRecord claim),
      .update (.idempotencyRecord claim) (.idempotencyRecord (Scope.refusal claim e))]) :
    Refused now ⟨e.status, jsTake 255 e.message⟩ [.idempotencyRecord claim, .idempotencyRecord (Scope.refusal claim e)]
      (Scope.refusal claim e) := by
  have fresh : ∀ r ∈ now, r.pk ≠ .row .idempotencyRecord claim.id := by
    intro r mem same
    have free := accepts.1.fresh (.row .idempotencyRecord claim.id) (Row.pk_mem_keys (.idempotencyRecord claim))
    exact Db.not_taken_iff.mp free r mem (same ▸ r.pk_mem_keys)
  constructor
  · exact client
  · rfl
  · rfl
  · exact fun r mem same => fresh (.idempotencyRecord r) mem (congrArg (Key.row _) same)
  · intro r
    rw [applyAll_cons, applyAll_cons, applyAll_nil, store_apply, store_apply, Db.mem_put, Db.mem_put]
    constructor
    · rintro (rfl | ⟨rfl | ⟨mem, _⟩, other⟩)
      · exact .inl rfl
      · exact absurd rfl other
      · exact .inr mem
    · rintro (rfl | mem)
      · exact .inl rfl
      · exact .inr ⟨.inr ⟨mem, fresh r mem⟩, fresh r mem⟩

/-- A record that is failed is the record of a refusal. -/
theorem Scope.Attempted.refusal_of_failed (completes : ∀ r record, (scope.complete r record).status = .completed)
    {work : Tx ρ} (works : Works seen claim work Does Fails) (begun : claim.status = .inProgress)
    (h : scope.Attempted seen claim Does Fails outcome ws) (accepts : Accepts now ws)
    (mem : .idempotencyRecord record ∈ ws.map Write.row) (failed : record.status = .failed) :
    ∃ e, outcome = .error e ∧ Refused now e (ws.map Write.row) record := by
  cases h with
  | replayed existing _ _ _ => cases mem
  | completed r ws _ does =>
      simp only [List.map_cons, List.map_append, Write.row_insert, Write.row_update, List.map_nil, List.mem_cons, List.mem_append,
        Row.idempotencyRecord.injEq, List.not_mem_nil, or_false] at mem
      rcases mem with rfl | mem | rfl
      · cases begun.symm.trans failed
      · obtain ⟨w, hw, row⟩ := List.mem_map.mp mem
        have written : record ∈ Slice.idempotencyRecords.written ws :=
          List.mem_filterMap.mpr ⟨w, hw, row ▸ Slice.idempotencyRecords.of_row record⟩
        rw [works.clear r ws does] at written
        cases written
      · cases (completes r claim).symm.trans failed
  | refused e _ _ lower upper =>
      simp only [List.map_cons, Write.row_insert, Write.row_update, List.map_nil, List.mem_cons, Row.idempotencyRecord.injEq,
        List.not_mem_nil, or_false] at mem
      rcases mem with rfl | rfl
      · cases begun.symm.trans failed
      · exact ⟨_, rfl, refused_of_accepts ⟨lower, upper⟩ accepts⟩

theorem Scope.Attempted.server (h : scope.Attempted seen claim Does Fails outcome ws) {e : HttpException}
    (failed : outcome = .error e) (server : 500 ≤ e.status) : ws = [] := by
  cases h with
  | replayed existing _ _ _ => rfl
  | completed r ws _ does => cases failed
  | refused e' _ _ _ upper =>
      cases failed
      exact absurd upper (not_lt.mpr server)

end

/-! ## One call -/

/-- A caller that returns what its transaction hands it. -/
def Returns : Call → Prop
  | .done _ => True
  | .query q => ∀ s, Returns (q s)
  | .transaction _ _ next => (∀ outcome, next (.committed outcome) = .done (unwrapOutcome outcome)) ∧ ∀ e, Returns (next e)

theorem Returns.leads {x x' : Call} (h : Returns x) (leads : x.Leads x') : Returns x' := by
  induction leads with
  | refl => exact h
  | query s _ ih => exact ih s
  | transaction e _ ih => exact ih.2 e

theorem returns_replay {ρ : Type} (scope : Scope ρ) (userId : Uuid) (key hash : String) (tries : Nat) :
    Returns (scope.replayAfterIdempotencyRace userId key hash tries) := by
  induction tries with
  | zero => trivial
  | succ tries ih =>
      intro db
      dsimp only
      split
      · split <;> trivial
      · exact ih

theorem returns_create {ρ : Type} (scope : Scope ρ) (draws : Draws) (userId : Uuid) (key hash : String) (work : Tx ρ) :
    Returns (scope.create draws userId key hash work) := by
  refine ⟨fun outcome => rfl, fun e => ?_⟩
  cases e with
  | committed outcome => trivial
  | thrown e => trivial
  | aborted d =>
      dsimp only
      split
      · exact returns_replay scope userId key hash 5
      · trivial

section
variable {sha256Hex : String → String}

theorem program_returns {i : Request} (keyed : i.IsKeyed) : Returns (program sha256Hex i) := by
  cases i with
  | createTransfer draws senderUserId header input =>
      change Returns (TransfersService.create sha256Hex draws senderUserId header input)
      unfold TransfersService.create
      dsimp only
      split
      · trivial
      · exact returns_create _ _ _ _ _ _
  | createReversal draws actorUserId transferId header input =>
      change Returns (ReversalsService.create sha256Hex draws actorUserId transferId header input)
      unfold ReversalsService.create
      split
      · trivial
      · exact returns_create _ _ _ _ _ _
  | _ => exact keyed.elim

/-- What the commit of a keyed request does, by its outcome. -/
structure Settlement (now : Db) (outcome : AttemptOutcome) (rows : List Row) : Prop where
  refused : ∀ record : IdempotencyRecord, .idempotencyRecord record ∈ rows → record.status = .failed →
    ∃ e, outcome = .error e ∧ Refused now e rows record
  server : ∀ e, outcome = .error e → 500 ≤ e.status → rows = []

theorem Change.settlement {base : Nat → Db} {now : Db} {i : Request} {outcome : AttemptOutcome} {ws : List Write}
    (keyed : i.IsKeyed) (h : Change sha256Hex base now i outcome ws) (accepts : Accepts now ws) :
    Settlement now outcome (ws.map Write.row) := by
  cases h with
  | transfer _ _ attempted =>
      constructor
      · intro record mem failed
        exact attempted.refusal_of_failed (fun _ _ => rfl) (TransfersService.works _ _ _ _ _) rfl accepts mem failed
      · intro e same server
        rw [attempted.server same server, List.map_nil]
  | reversal _ attempted =>
      constructor
      · intro record mem failed
        exact attempted.refusal_of_failed (fun _ _ => rfl) (ReversalsService.works _ _ _ _ _) rfl accepts mem failed
      · intro e same server
        rw [attempted.server same server, List.map_nil]
  | _ => exact keyed.elim

/-- The commits of call `n`, which was made for `i` and is now at `x`: none so far, or the one that it returns. -/
structure Answers (log : List (Entry Request Row)) (n : Nat) (i : Request) (x : Call) : Prop where
  request : ∀ e ∈ log, e.call = n → e.request = i
  commits : i.IsKeyed → (∀ e ∈ log, e.call ≠ n) ∨ ∃ outcome now rows, x = .done (unwrapOutcome outcome) ∧
    Settlement now outcome rows ∧ ∀ e ∈ log, e.call = n → e.writes = rows

theorem Answers.next {log : List (Entry Request Row)} {n : Nat} {i : Request} {x x' : Call}
    (h : Answers log n i x) (running : ∀ r, x ≠ .done r) : Answers log n i x' where
  request := h.request
  commits := by
    intro keyed
    rcases h.commits keyed with none | ⟨outcome, _, _, done, _⟩
    · exact .inl none
    · exact absurd done (running _)

theorem answers_carried (initial : Db) : (system sha256Hex initial).Carries fun log n i _ x => Answers log n i x where
  spawn := by
    intro log n i _ fresh
    exact ⟨fun e he same => absurd same (fresh e he), fun _ => .inl fresh⟩
  other := by
    intro log n i b x e _ _ other h
    constructor
    · intro e' he' same
      rcases List.mem_append.mp he' with he' | he'
      · exact h.request e' he' same
      · rw [List.mem_singleton.mp he'] at same
        exact absurd same other
    · intro keyed
      rcases h.commits keyed with none | ⟨outcome, now, rows, done, settles, writes⟩
      · refine .inl fun e' he' => ?_
        rcases List.mem_append.mp he' with he' | he'
        · exact none e' he'
        · rw [List.mem_singleton.mp he']
          exact other
      · refine .inr ⟨outcome, now, rows, done, settles, fun e' he' same => ?_⟩
        rcases List.mem_append.mp he' with he' | he'
        · exact writes e' he' same
        · rw [List.mem_singleton.mp he'] at same
          exact absurd same other
  query := by
    intro log n i b q _ _ h
    exact h.next fun _ => nofun
  aborted := by
    intro log n i b isolation body next d _ h _
    exact h.next fun _ => nofun
  thrown := by
    intro log n i b isolation body next e view _ h _
    exact h.next fun _ => nofun
  committed := by
    intro log n i b isolation body next outcome view bases _ leads h committed
    constructor
    · intro e he same
      rcases List.mem_append.mp he with he | he
      · exact h.request e he same
      · rw [List.mem_singleton.mp he]
    · intro keyed
      rcases h.commits keyed with none | ⟨_, _, _, done, _⟩
      · obtain ⟨ws, rows, accepts, change⟩ := change_of_committed leads committed
        have settles := change.settlement keyed accepts
        refine .inr ⟨outcome, _, _, ((program_returns keyed).leads leads).1 outcome, rows ▸ settles, fun e he same => ?_⟩
        rcases List.mem_append.mp he with he | he
        · exact absurd same (none e he)
        · rw [List.mem_singleton.mp he]
      · cases done

end

/-! ## No client error after the first write -/

theorem client_error_before_writes {ρ : Type} {s : Db} {claim : IdempotencyRecord} {work : Tx ρ}
    {Does : ρ → List Write → Prop} {Fails : HttpException → Prop} (works : Scope.Works s claim work Does Fails) {e : HttpException}
    {view : View Settings Row Key} (client : e.status < 500)
    (ran : Prog.run (fun _ => s) (do Tx.create (.idempotencyRecord claim); work) { locals := {} } = .ok (.error e, view)) :
    view.writes = [.idempotencyRecord claim] := by
  have ensures : Tx.Ensures (fun _ => s) (do Tx.create (.idempotencyRecord claim); work)
      (fun r v => ∀ e, r = .error e → e.status < 500 → v.writes = [.idempotencyRecord claim]) { locals := {} } := by
    apply ensures_bind
    apply ensures_create (.start {})
    intro v created
    apply works.ensures created
    · intro v' e _ tracks e' same _
      cases same
      exact tracks.writes
    · intro v' r ws _ _ e same
      cases same
  exact Prog.wp_of_run ensures.wp ran e rfl client

/-- A request that is refused leaves only its record, and one that fails otherwise leaves nothing. -/
theorem refusals_commit_their_record {sha256Hex : String → String} {initial : Db}
    {c : Config Db Settings Row Key DbError HttpException AttemptOutcome Result Request}
    (h : (system sha256Hex initial).Reachable c) :
    (∀ j (lt : j < c.log.length), c.log[j].request.IsKeyed → ∀ record : IdempotencyRecord,
      .idempotencyRecord record ∈ c.log[j].writes → record.status = .failed →
      ∃ e, Refused (stateAt initial c.log j) e c.log[j].writes record ∧
        ∀ r ∈ c.results, r.call = c.log[j].call → r.result = failed e) ∧
    (∀ r ∈ c.results, r.request.IsKeyed → ∀ failure : Failure, r.result = .error failure → failure.IsServer →
      ∀ j (lt : j < c.log.length), c.log[j].call = r.call → stateAt initial c.log (j + 1) = stateAt initial c.log j) ∧
    (∀ db draws senderUserId request claim e view, e.status < 500 →
      Prog.run (fun _ => db) (do Tx.create (.idempotencyRecord claim); TransfersService.work draws senderUserId request)
        { locals := {} } = .ok (.error e, view) → view.writes = [.idempotencyRecord claim]) ∧
    ∀ db draws actorUserId request claim e view, e.status < 500 →
      Prog.run (fun _ => db) (do Tx.create (.idempotencyRecord claim); ReversalsService.work draws actorUserId request)
        { locals := {} } = .ok (.error e, view) → view.writes = [.idempotencyRecord claim] := by
  have answers := (h.carried (answers_carried initial)).results
  refine ⟨?refused, ?server, ?transfers, ?reversals⟩
  case refused =>
    intro j lt keyed record mem failed
    obtain ⟨_, bases, outcome, ws, _, rows, accepts, change⟩ := done_of_certified (h.certified lt)
    have settles := change.settlement keyed accepts
    rw [← rows] at settles
    obtain ⟨e, _, refused⟩ := settles.refused record mem failed
    refine ⟨e, refused, fun r hr same => ?_⟩
    obtain ⟨_, answered⟩ := answers r hr
    have request := answered.request _ (List.getElem_mem lt) same.symm
    rcases answered.commits (request ▸ keyed) with none | ⟨outcome', now, rows', done, settles', writes⟩
    · exact absurd same.symm (none _ (List.getElem_mem lt))
    · have written := writes _ (List.getElem_mem lt) same.symm
      obtain ⟨e', returned, refused'⟩ := settles'.refused record (written ▸ mem) failed
      have status := Option.some.inj (refused.status.symm.trans refused'.status)
      have message := Option.some.inj (refused.message.symm.trans refused'.message)
      have equal : e = e' := by
        cases e
        cases e'
        cases status
        cases message
        rfl
      rw [equal, Client.done.inj done, returned]
      rfl
  case server =>
    intro r hr keyed failure failed server j lt call
    obtain ⟨_, answered⟩ := answers r hr
    rcases answered.commits keyed with none | ⟨outcome, now, rows, done, settles, writes⟩
    · exact absurd call (none _ (List.getElem_mem lt))
    · have written := writes _ (List.getElem_mem lt) call
      have nothing : rows = [] := by
        cases outcome with
        | ok reply => cases failed.symm.trans (Client.done.inj done)
        | error e =>
            cases failed.symm.trans (Client.done.inj done)
            exact settles.server e rfl server
      rw [stateAt_succ lt, written, nothing]
      rfl
  case transfers =>
    intro db draws senderUserId request claim e view client ran
    exact client_error_before_writes (TransfersService.works db draws senderUserId request claim) client ran
  case reversals =>
    intro db draws actorUserId request claim e view client ran
    exact client_error_before_writes (ReversalsService.works db draws actorUserId request claim) client ran

/-- A user registers, and transfers to a wallet that does not exist. -/
def sampleRefused : List Request := [
  sampleUser 0 "ada@example.com",
  .createTransfer (sampleDraws 1) (sampleUuid 0 0) (some "transfer-1")
    { sourceWalletId := (sampleUuid 0 1).text, destinationWalletId := some (sampleUuid 1 1).text, amountMinor := "2500" }]

def sampleRefusedLog : List (Entry Request Row) := (system sampleHash migrated).performAll sampleRefused [] 0

theorem sampleRefused_writes : sampleRefusedLog.map (fun e => (e.request matches .createTransfer .., e.writes.filterMap fun r =>
    (Slice.idempotencyRecords.of r).map IdempotencyRecord.status)) = [(false, []), (true, [.inProgress, .failed])] := by
  decide +kernel

theorem refusals_commit_their_record_sample : ∃ (first second : Entry Request Row) (e : HttpException)
    (record : IdempotencyRecord), sampleRefusedLog = [first, second] ∧ record.status = .failed ∧
      Refused (stateAt migrated [first, second] 1) e second.writes record := by
  obtain ⟨c, reach, log⟩ := System.reachable_performAll (system sampleHash migrated) sampleRefused
  have writes := sampleRefused_writes
  rw [sampleRefusedLog, ← log] at writes
  obtain ⟨first, second, entries⟩ := List.length_eq_two.mp (by simpa using congrArg List.length writes)
  simp only [entries, List.map_cons, List.map_nil, List.cons.injEq, Prod.mk.injEq, and_true] at writes
  obtain ⟨_, transfer, statuses⟩ := writes
  have keyed : second.request.IsKeyed := by
    cases request : second.request with
    | createTransfer draws senderUserId header input => trivial
    | _ => simp [request] at transfer
  have failed : .failed ∈ second.writes.filterMap fun r => (Slice.idempotencyRecords.of r).map IdempotencyRecord.status := by
    rw [statuses]
    simp
  obtain ⟨row, mem, some⟩ := List.mem_filterMap.mp failed
  obtain ⟨record, found, status⟩ := Option.map_eq_some_iff.mp some
  cases Slice.idempotencyRecords.of_eq_some.mp found
  have commits := (refusals_commit_their_record reach).1
  simp only [entries] at commits
  obtain ⟨e, refused, _⟩ := commits 1 (Nat.lt_succ_self 1) keyed record mem status
  exact ⟨first, second, e, record, log.symm.trans entries, status, refused⟩

end Fintech
