import Fintech.Library.Answers
import Fintech.Proof.Backing
import Fintech.Proof.Consistency
import Fintech.Proof.Refusals

/-!
# Calls that carry one key

A key is claimed once. Every later call with it finds the record, in its transaction or after losing a race, and answers with what was
recorded.
-/

namespace Fintech
open Relational Transactional

/-- The request carries the key in its scope, for the user, and has the fingerprint. -/
inductive Request.Carries (sha256Hex : String → String) : Request → String → Uuid → String → String → Prop
  | transfer {draws senderUserId header input key request} : normalizeIdempotencyKey header = .ok key →
      TransfersService.normalizeTransferRequest input = .ok request →
      Carries sha256Hex (.createTransfer draws senderUserId header input) TransfersService.scope.name senderUserId key
        (TransfersService.hashRequest sha256Hex request)
  | reversal {draws actorUserId transferId header input key} : normalizeIdempotencyKey header = .ok key →
      Carries sha256Hex (.createReversal draws actorUserId transferId header input) ReversalsService.scope.name actorUserId key
        (ReversalsService.hashRequest sha256Hex (ReversalsService.normalizeRequest transferId input))

/-- What a record says that its request was answered with. -/
inductive Recorded (db : Db) (record : IdempotencyRecord) : Result → Prop
  | transfer (t : Transfer) : record.status = .completed → t ∈ db.transfers → record.transferId = some t.id →
      Recorded db record (.ok (.transfer (TransfersService.toTransferResponse t)))
  | reversal (v : TransferReversal) : record.status = .completed → v ∈ db.transferReversals → record.reversalId = some v.id →
      Recorded db record (.ok (.reversal (ReversalsService.toReversalResponse v)))
  | failed (status : Nat) (message : String) : record.status = .failed → record.responseStatus = some status →
      record.errorMessage = some message → Recorded db record (failed ⟨status, message⟩)

/-- A failure of the database that a call does not take for a race. -/
def Broken (result : Result) : Prop :=
  ∃ d, result = .error (.database d) ∧ d ≠ .uniqueViolation ∧ d ≠ .serializationFailure

/-! ## Records stay -/

theorem IdempotencyRecord.Concluded.terminal {r : IdempotencyRecord} (h : r.Concluded) : r.status ≠ .inProgress := by
  cases h with
  | completed status _ _ => rw [status]; decide
  | failed _ _ status _ _ _ _ => rw [status]; decide

theorem Row.fixed_of_concluded {r : IdempotencyRecord} (h : r.Concluded) : (Row.idempotencyRecord r).Fixed := by
  intro s new table allowed
  cases new <;> cases table
  obtain ⟨open_, _⟩ := bind_unit_eq_ok.mp allowed
  rw [failIf_eq_ok, not_or] at open_
  cases h with
  | completed status _ _ => exact open_.1 status
  | failed _ _ status _ _ _ _ => exact open_.2 status

/-- What replays rely on in a committed state. -/
structure Replayable (db : Db) : Prop where
  consistent : Consistent db
  completed : ∀ t ∈ db.transfers, t.status = .completed

section
variable {before after : Db} {record : IdempotencyRecord}

theorem Replayable.kept (h : Replayable before) (later : after.Extends before) (mem : record ∈ before.idempotencyRecords) :
    record ∈ after.idempotencyRecords :=
  later.frozen (r := .idempotencyRecord record) mem (Row.fixed_of_concluded (h.consistent.concluded record mem)).frozen

theorem Scope.findRecord_of_mem {ρ : Type} {scope : Scope ρ} (sound : before.Sound) (mem : record ∈ before.idempotencyRecords)
    (own : record.scope = scope.name) :
    scope.findRecord record.userId record.key before = some (record, scope.resource before record) := by
  unfold findRecord
  cases found : before.idempotencyRecords.rows.find? fun r =>
      decide (r.userId = record.userId ∧ r.scope = scope.name ∧ r.key = record.key) with
  | none => exact absurd own (by simpa using List.find?_eq_none.mp found record mem)
  | some r =>
      have named : r.userId = record.userId ∧ r.scope = scope.name ∧ r.key = record.key := by simpa using List.find?_some found
      have same : Row.idempotencyRecord r = .idempotencyRecord record :=
        sound.unique _ (List.mem_of_find?_eq_some found) _ mem (.idempotencyKey record.userId scope.name record.key)
          (by simp [Row.keys, Row.slots, named]) (by simp [Row.keys, Row.slots, own])
      cases same
      rfl

theorem TransfersService.resource_kept (h : Replayable before) (later : after.Extends before)
    (mem : record ∈ before.idempotencyRecords) : scope.resource after record = scope.resource before record := by
  change record.transferId.bind after.transfers.find? = record.transferId.bind before.transfers.find?
  cases named : record.transferId with
  | none => rfl
  | some id =>
      have reference : Key.row .transfer id ∈ (Row.idempotencyRecord record).references := by simp [Row.references, named]
      obtain ⟨t, ht, same⟩ := Slice.transfers.exists_of_reference h.consistent.sound (r := .idempotencyRecord record) mem reference
      have kept : t ∈ after.transfers := later.frozen (r := .transfer t) ht (Row.fixed_of_completed (h.completed t ht)).frozen
      have finds : before.transfers.find? id = some t := Table.find?_eq_some.mpr ⟨ht, same⟩
      have finds' : after.transfers.find? id = some t := Table.find?_eq_some.mpr ⟨kept, same⟩
      rw [Option.bind_some, Option.bind_some, finds, finds']

theorem ReversalsService.resource_kept (h : Replayable before) (later : after.Extends before)
    (mem : record ∈ before.idempotencyRecords) : scope.resource after record = scope.resource before record := by
  change record.reversalId.bind after.transferReversals.find? = record.reversalId.bind before.transferReversals.find?
  cases named : record.reversalId with
  | none => rfl
  | some id =>
      have reference : Key.row .transferReversal id ∈ (Row.idempotencyRecord record).references := by
        simp [Row.references, named]
      obtain ⟨v, hv, same⟩ :=
        Slice.transferReversals.exists_of_reference h.consistent.sound (r := .idempotencyRecord record) mem reference
      have kept : v ∈ after.transferReversals := later.frozen (r := .transferReversal v) hv (Row.fixed_of_isHistory rfl).frozen
      have finds : before.transferReversals.find? id = some v := Table.find?_eq_some.mpr ⟨hv, same⟩
      have finds' : after.transferReversals.find? id = some v := Table.find?_eq_some.mpr ⟨kept, same⟩
      rw [Option.bind_some, Option.bind_some, finds, finds']

end

/-! ## One call -/

namespace Scope
variable {ρ : Type} {scope : Scope ρ} {existing : IdempotencyRecord × Option ρ} {userId : Uuid} {key hash : String}

/-- What a call returns that finds the record. -/
def replayed (scope : Scope ρ) (existing : IdempotencyRecord × Option ρ) (hash : String) : Result :=
  match scope.resolveExistingIdempotency existing hash with
  | .ok outcome => unwrapOutcome outcome
  | .error e => failed e

theorem ensures_replay {s : Db} {draws : Draws} {work : Tx ρ} (found : scope.findRecord userId key s = some existing) :
    (Tx.committing (scope.attempt draws userId key hash work)).Ensures (fun _ => s) (fun r v =>
      r = scope.resolveExistingIdempotency existing hash ∧ v.writes = []) { locals := {} } := by
  refine ensures_bind (ensures_bind (ensures_read (.start {}) fun v tracks => ?_))
  rw [Db.write_nil, found]
  refine ensures_lift (fun e unresolved => ⟨unresolved.symm, tracks.writes⟩) fun outcome resolved => ?_
  refine ensures_bind (ensures_commit tracks fun v' tracks' => ensures_pure ⟨resolved.symm, tracks'.writes⟩)

/-- As long as its queries and transactions find the record, a call answers with it and writes nothing. -/
theorem create_replays {sys : System Db Settings Row Key DbError HttpException AttemptOutcome Result Request} {P : Db → Prop}
    {draws : Draws} {work : Tx ρ} (locals : sys.locals = {}) (found : ∀ s, P s → scope.findRecord userId key s = some existing) :
    (scope.create draws userId key hash work).Answers (sys.Ends P) P (fun made result =>
      (result = scope.replayed existing hash ∨ Broken result) ∧ ∀ ws ∈ made, ws = []) [] := by
  intro e ws ends
  cases ends with
  | @committed base outcome view seen fixed ran =>
      rw [fixed rfl, System.start, locals] at ran
      obtain ⟨resolved, nothing⟩ := Prog.wp_of_run (ensures_replay (found _ (seen 0))).wp ran
      refine ⟨.inl ?_, by simp [nothing]⟩
      rw [replayed, ← resolved]
  | @thrown base e view seen fixed ran =>
      rw [fixed rfl, System.start, locals] at ran
      obtain ⟨resolved, _⟩ := Prog.wp_of_run (ensures_replay (found _ (seen 0))).wp ran
      refine ⟨.inl ?_, by simp⟩
      rw [replayed, ← resolved]
  | aborted d =>
      dsimp only
      split
      · intro s seen
        dsimp only
        rw [found s seen]
        dsimp only
        cases resolved : scope.resolveExistingIdempotency existing hash with
        | ok outcome => exact ⟨.inl (by rw [replayed, resolved]), by simp⟩
        | error e => exact ⟨.inl (by rw [replayed, resolved]), by simp⟩
      · rename_i race
        rw [not_or] at race
        exact ⟨.inr ⟨d, rfl, race.1, by simpa [isSerializationConflict] using race.2⟩, by simp⟩

end Scope

theorem Scope.replayed_of_other {ρ : Type} {scope : Scope ρ} {existing : IdempotencyRecord × Option ρ} {hash : String}
    (other : existing.1.requestHash ≠ hash) : scope.replayed existing hash = failed (conflict scope.usedDifferently) := by
  have refused : scope.resolveExistingIdempotency existing hash = .error (conflict scope.usedDifferently) :=
    failIf_bind_eq_error.mpr (.inl ⟨other, rfl⟩)
  rw [replayed, refused]

/-- A concluded record is answered with its resource, or with its failure. -/
theorem Scope.replayed_of_same {ρ : Type} {scope : Scope ρ} {record : IdempotencyRecord} {resource : Option ρ}
    (concluded : record.Concluded) (there : record.status = .completed → resource.isSome) :
    (∃ r, record.status = .completed ∧ resource = some r ∧
      scope.replayed (record, resource) record.requestHash = .ok (scope.reply r)) ∨
    ∃ status message, record.status = .failed ∧ record.responseStatus = some status ∧ record.errorMessage = some message ∧
      scope.replayed (record, resource) record.requestHash = failed ⟨status, message⟩ := by
  cases concluded with
  | completed status _ _ =>
      obtain ⟨r, rfl⟩ := Option.isSome_iff_exists.mp (there status)
      have resolved : scope.resolveExistingIdempotency (record, some r) record.requestHash = .ok (.ok (scope.reply r)) := by
        refine bind_unit_eq_ok.mpr ⟨failIf_eq_ok.mpr (not_not.mpr rfl), ?_⟩
        simp only [status]
      exact .inl ⟨r, status, rfl, by rw [replayed, resolved]; rfl⟩
  | failed n m status response message nonzero nonempty =>
      have stored : record.responseStatus.filter (· ≠ 0) = some n := by simp [response, Option.filter_some, nonzero]
      have text : record.errorMessage.filter (· ≠ "") = some m := by simp [message, Option.filter_some, nonempty]
      have resolved : scope.resolveExistingIdempotency (record, resource) record.requestHash = .ok (.error ⟨n, m⟩) := by
        refine bind_unit_eq_ok.mpr ⟨failIf_eq_ok.mpr (not_not.mpr rfl), ?_⟩
        simp only [status, stored, text]
      exact .inr ⟨n, m, status, response, message, by rw [replayed, resolved]; rfl⟩

/-- What a call with the fingerprint `hash` returns once the record is there. -/
inductive Answered (db : Db) (record : IdempotencyRecord) (hash : String) (result : Result) : Prop
  | recorded : hash = record.requestHash → Recorded db record result → Answered db record hash result
  | refused (e : HttpException) : hash ≠ record.requestHash → e.status = 409 → result = failed e → Answered db record hash result
  | broken : Broken result → Answered db record hash result

section
variable {db : Db} {record : IdempotencyRecord} {hash : String} {result : Result}

theorem TransfersService.answered (h : Replayable db) (mem : record ∈ db.idempotencyRecords)
    (own : record.scope = scope.name)
    (replays : result = scope.replayed (record, scope.resource db record) hash ∨ Broken result) :
    Answered db record hash result := by
  rcases replays with rfl | broken
  · by_cases same : hash = record.requestHash
    · refine .recorded same ?_
      subst same
      have there (completed : record.status = .completed) : (scope.resource db record).isSome := by
        obtain ⟨t, _, _, found⟩ := h.consistent.transfer_resource mem own completed
        rw [found, Option.isSome_some]
      rcases @Scope.replayed_of_same _ scope _ _ (h.consistent.concluded _ mem) there with
        ⟨t, completed, found, result⟩ | ⟨status, message, failed, response, text, result⟩
      · obtain ⟨x, hx, named, known⟩ := h.consistent.transfer_resource mem own completed
        obtain rfl : t = x := Option.some.inj (found.symm.trans known)
        rw [result]
        exact .transfer t completed hx named
      · rw [result]
        exact .failed status message failed response text
    · exact .refused _ same rfl (Scope.replayed_of_other fun e => same e.symm)
  · exact .broken broken

theorem ReversalsService.answered (h : Replayable db) (mem : record ∈ db.idempotencyRecords)
    (own : record.scope = scope.name)
    (replays : result = scope.replayed (record, scope.resource db record) hash ∨ Broken result) :
    Answered db record hash result := by
  rcases replays with rfl | broken
  · by_cases same : hash = record.requestHash
    · refine .recorded same ?_
      subst same
      have there (completed : record.status = .completed) : (scope.resource db record).isSome := by
        obtain ⟨v, _, _, found⟩ := h.consistent.reversal_resource mem own completed
        rw [found, Option.isSome_some]
      rcases @Scope.replayed_of_same _ scope _ _ (h.consistent.concluded _ mem) there with
        ⟨v, completed, found, result⟩ | ⟨status, message, failed, response, text, result⟩
      · obtain ⟨x, hx, named, known⟩ := h.consistent.reversal_resource mem own completed
        obtain rfl : v = x := Option.some.inj (found.symm.trans known)
        rw [result]
        exact .reversal v completed hx named
      · rw [result]
        exact .failed status message failed response text
    · exact .refused _ same rfl (Scope.replayed_of_other fun e => same e.symm)
  · exact .broken broken

end

/-! ## Runs -/

section
variable {sha256Hex : String → String} {initial : Db} {i : Request} {name : String} {userId : Uuid} {key hash : String}

/-- A call that finds the record of its key answers with it, as it was in `db`, and writes nothing. -/
theorem Request.Carries.answers (carries : i.Carries sha256Hex name userId key hash) {db : Db} (h : Replayable db)
    {record : IdempotencyRecord} (mem : record ∈ db.idempotencyRecords) (own : record.userId = userId) (scope : record.scope = name)
    (keyed : record.key = key) :
    (program sha256Hex i).Answers ((system sha256Hex initial).Ends fun s => s.Sound ∧ s.Extends db)
      (fun s => s.Sound ∧ s.Extends db) (fun made result => Answered db record hash result ∧ ∀ ws ∈ made, ws = []) [] := by
  subst own keyed
  cases carries with
  | @transfer draws _ header input _ request hkey hrequest =>
      change (TransfersService.create sha256Hex draws record.userId header input).Answers _ _ _ _
      have normalized : (do return (← normalizeIdempotencyKey header, ← TransfersService.normalizeTransferRequest input) :
          Except HttpException _) = .ok (record.key, request) := by
        rw [hkey, hrequest]
        rfl
      unfold TransfersService.create
      rw [normalized]
      have finds (s : Db) (later : s.Sound ∧ s.Extends db) : TransfersService.scope.findRecord record.userId record.key s =
          some (record, TransfersService.scope.resource db record) := by
        rw [Scope.findRecord_of_mem later.1 (h.kept later.2 mem) scope, TransfersService.resource_kept h later.2 mem]
      exact (Scope.create_replays rfl finds).imp fun made result ⟨replays, nothing⟩ =>
        ⟨TransfersService.answered h mem scope replays, nothing⟩
  | @reversal draws _ transferId header input _ hkey =>
      change (ReversalsService.create sha256Hex draws record.userId transferId header input).Answers _ _ _ _
      unfold ReversalsService.create
      rw [hkey]
      have finds (s : Db) (later : s.Sound ∧ s.Extends db) : ReversalsService.scope.findRecord record.userId record.key s =
          some (record, ReversalsService.scope.resource db record) := by
        rw [Scope.findRecord_of_mem later.1 (h.kept later.2 mem) scope, ReversalsService.resource_kept h later.2 mem]
      exact (Scope.create_replays rfl finds).imp fun made result ⟨replays, nothing⟩ =>
        ⟨ReversalsService.answered h mem scope replays, nothing⟩

theorem reachable_replayable (opening : Opening initial)
    {c : Config Db Settings Row Key DbError HttpException AttemptOutcome Result Request}
    (h : (system sha256Hex initial).Reachable c) {j : Nat} (le : j ≤ c.log.length) : Replayable (stateAt initial c.log j) where
  consistent := reachable_consistent opening h le
  completed := by
    intro t ht
    have borne := ((@reachable_booked initial sha256Hex c opening h (fun _ => True) trivial fun _ _ _ _ _ _ => trivial).1 j le).2.2.1
    cases borne.backed (.transfer t) ht rfl with
    | transfer _ _ completed _ _ _ _ _ _ => exact completed

/-! ## One claim -/

/-- What a call commits that carries a key: nothing, or its claim, the work, and the record in the place of the claim. -/
theorem Change.claims {base : Nat → Db} {now : Db} {outcome : AttemptOutcome} {ws : List Write}
    (h : Change sha256Hex base now i outcome ws) (carries : i.Carries sha256Hex name userId key hash) :
    ws = [] ∨ ∃ claim record rest, ws = .insert (.idempotencyRecord claim) ::
        (rest ++ [.update (.idempotencyRecord claim) (.idempotencyRecord record)]) ∧
      (claim.userId = userId ∧ claim.scope = name ∧ claim.key = key) ∧
      record.userId = userId ∧ record.scope = name ∧ record.key = key := by
  cases carries with
  | transfer hkey hrequest =>
      cases h with
      | transfer hkey' _ attempted =>
          cases hkey.symm.trans hkey'
          cases attempted with
          | replayed _ _ _ _ => exact .inl rfl
          | completed t ws _ _ => exact .inr ⟨_, _, ws, rfl, ⟨rfl, rfl, rfl⟩, rfl, rfl, rfl⟩
          | refused e _ _ _ _ => exact .inr ⟨_, _, [], rfl, ⟨rfl, rfl, rfl⟩, rfl, rfl, rfl⟩
  | reversal hkey =>
      cases h with
      | reversal hkey' attempted =>
          cases hkey.symm.trans hkey'
          cases attempted with
          | replayed _ _ _ _ => exact .inl rfl
          | completed v ws _ _ => exact .inr ⟨_, _, ws, rfl, ⟨rfl, rfl, rfl⟩, rfl, rfl, rfl⟩
          | refused e _ _ _ _ => exact .inr ⟨_, _, [], rfl, ⟨rfl, rfl, rfl⟩, rfl, rfl, rfl⟩

/-- Of the calls that carry a key only one ever writes: the others find its record, or their claim is not unique. -/
theorem claimed_once (opening : Opening initial)
    {c : Config Db Settings Row Key DbError HttpException AttemptOutcome Result Request}
    (h : (system sha256Hex initial).Reachable c) {j k : Nat} (lt : j < k) (hk : k < c.log.length) {hash' : String}
    (first : c.log[j].request.Carries sha256Hex name userId key hash)
    (second : c.log[k].request.Carries sha256Hex name userId key hash') (wrote : c.log[j].writes ≠ []) :
    c.log[k].writes = [] := by
  obtain ⟨_, _, _, ws, _, rows, _, change⟩ := done_of_certified (h.certified (lt.trans hk))
  obtain ⟨_, _, _, ws', _, rows', accepts', change'⟩ := done_of_certified (h.certified hk)
  rcases change.claims first with rfl | ⟨claim, record, rest, rfl, _, user, scope, keyed⟩
  · exact absurd rows wrote
  rcases change'.claims second with rfl | ⟨claim', record', rest', rfl, ⟨user', scope', keyed'⟩, _⟩
  · exact rows'
  have left : record ∈ (stateAt initial c.log (j + 1)).idempotencyRecords := by
    rw [state_after (lt.trans hk) rows, ← List.cons_append, Db.write_append]
    exact Db.mem_put_self _ (.idempotencyRecord record)
  have later := (reachable_sound opening.sound h).2 (j + 1) k lt hk.le
  have there := (reachable_replayable opening h (Nat.succ_le_of_lt (lt.trans hk))).kept later left
  have free := accepts'.1.fresh (.idempotencyKey userId name key) (by simp [Row.keys, Row.slots, user', scope', keyed'])
  refine absurd ?_ (Db.not_taken_iff.mp free (.idempotencyRecord record) there)
  simp [Row.keys, Row.slots, user, scope, keyed]

/-! ## Races that are lost -/

/-- A failure that does not read as a lost race, even when it is cut to 255 characters. -/
def HttpException.NoRace (e : HttpException) : Prop := e.status ≠ 409 ∨ e.message.toList.head? ≠ some 'C'

theorem jsTake_head {n : Nat} (two : 2 ≤ n) (s : String) : (jsTake n s).toList.head? = s.toList.head? := by
  rw [jsTake, String.toList_ofList]
  cases s.toList with
  | nil => rfl
  | cons c cs =>
      have short : utf16Units c ≤ n := by
        unfold utf16Units
        split <;> omega
      rw [jsTake.go, if_pos short, List.head?_cons, List.head?_cons]

theorem HttpException.NoRace.recorded {e : HttpException} (h : e.NoRace) {message : String}
    (race : message.toList.head? = some 'C') : (⟨e.status, jsTake 255 e.message⟩ : HttpException) ≠ conflict message := by
  intro same
  obtain ⟨status, text⟩ := HttpException.mk.inj same
  rcases h with other | head
  · exact other status
  · rw [← jsTake_head (n := 255) (by omega), text] at head
    exact head race

/-- What the ledger answers when a posting conflicts with its account. -/
def LedgerService.conflicts : List String := [
  "Only active wallets can receive ledger postings", "Ledger posting would exceed the supported BIGINT range",
  "Insufficient funds for ledger posting"]

theorem LedgerService.Refusal.conflicts {db : Db} {currency : Currency} {posting : LedgerPostingInput} {e : HttpException}
    (h : Refusal db currency posting e) (status : e.status = 409) : e.message ∈ LedgerService.conflicts := by
  cases h with
  | missing _ => exact absurd status (by decide)
  | currency _ _ _ _ => exact absurd status (by decide)
  | inactive _ _ _ _ _ _ _ => simp [LedgerService.conflicts, conflict]
  | range _ _ _ _ _ => simp [LedgerService.conflicts, conflict]
  | funds _ _ _ _ _ _ => simp [LedgerService.conflicts, conflict]

theorem Invalid.status_ne {input : LedgerTransactionInput} {e : HttpException} (h : Invalid input e) : e.status ≠ 409 := by
  cases h with
  | range _ _ _ => decide
  | malformed mem =>
      have all : ∀ e ∈ malformedInputs, e.status ≠ 409 := by simp [malformedInputs, badRequest]
      exact all e mem

theorem PostFailure.conflicts {db : Db} {input : LedgerTransactionInput} {e : HttpException} (paired : Paired db)
    (h : PostFailure db input e) (status : e.status = 409) : e.message ∈ LedgerService.conflicts := by
  cases h with
  | invalid invalid => exact absurd status (invalid_of_normalize invalid).status_ne
  | missing => exact absurd status (by decide)
  | refused mem refused =>
      have mem := List.mem_map_of_mem (f := LedgerPostingInput.accountId) mem
      exact (LedgerService.refusal_of_nextBalance paired mem refused).conflicts status

theorem PostFailure.noRace {db : Db} {input : LedgerTransactionInput} {e : HttpException} (paired : Paired db)
    (h : PostFailure db input e) : e.NoRace := by
  have heads : ∀ m ∈ LedgerService.conflicts, m.toList.head? ≠ some 'C' := by simp [LedgerService.conflicts]
  by_cases status : e.status = 409
  · exact .inr (heads e.message (h.conflicts paired status))
  · exact .inl status

theorem TransfersService.WorkFailure.noRace {seen : Db} {draws : Draws} {senderUserId : Uuid}
    {request : NormalizedTransferRequest} {e : HttpException} (paired : Paired seen)
    (h : WorkFailure seen draws senderUserId request e) : e.NoRace := by
  cases h with
  | refused mem =>
      have all : ∀ e ∈ refusals, e.NoRace := by
        simp [refusals, HttpException.NoRace, notFound, conflict, badRequest]
      exact all e mem
  | unresolved _ _ => exact .inl (by decide)
  | unposted _ _ _ _ _ _ _ _ unposted => exact unposted.noRace paired

theorem ReversalsService.WorkFailure.noRace {seen : Db} {draws : Draws} {actorUserId : Uuid}
    {request : NormalizedReversalRequest} {e : HttpException} (paired : Paired seen)
    (h : WorkFailure seen draws actorUserId request e) : e.NoRace := by
  cases h with
  | refused mem =>
      have all : ∀ e ∈ refusals, e.NoRace := by simp [refusals, HttpException.NoRace, notFound, conflict]
      exact all e mem
  | unposted _ _ _ _ _ _ _ _ _ _ _ unposted => exact unposted.noRace paired

/-- What a call answers, by how its attempt ends and by what it finds after losing a race. -/
theorem Scope.create_answers {ρ : Type} {scope : Scope ρ}
    {sys : System Db Settings Row Key DbError HttpException AttemptOutcome Result Request} {P : Db → Prop} {draws : Draws}
    {userId : Uuid} {key hash : String} {work : Tx ρ} {Does : Db → ρ → List Write → Prop} {Fails : Db → HttpException → Prop}
    {Q : List (List Row) → Result → Prop} (locals : sys.locals = {})
    (keeps : ∀ r record, (scope.complete r record).id = record.id)
    (works : ∀ s, Works s (scope.claim draws userId key hash) work (Does s) (Fails s))
    (attempted : ∀ s outcome ws, P s → scope.Attempted s (scope.claim draws userId key hash) (Does s) (Fails s) outcome ws →
      Q [ws.map Write.row] (unwrapOutcome outcome))
    (raced : ∀ s existing, P s → scope.findRecord userId key s = some existing → Q [] (scope.replayed existing hash))
    (failed_ : ∀ failure, Q [] (.error failure)) :
    (scope.create draws userId key hash work).Answers (sys.Ends P) P Q [] := by
  intro e ws ends
  cases ends with
  | @committed base outcome view seen fixed ran =>
      rw [fixed rfl, System.start, locals] at ran
      have ensures := ensures_committing (Scope.attempt_yields keeps (works (base 0)) (.start {}))
      obtain ⟨ws, tracks, does⟩ := Prog.wp_of_run ensures.wp ran
      rw [List.nil_append, tracks.writes]
      exact attempted _ _ _ (seen 0) (does (base 0) (.snapshot _))
  | thrown seen fixed ran => exact failed_ _
  | aborted d =>
      dsimp only
      split
      · have loop (tries : Nat) : (scope.replayAfterIdempotencyRace userId key hash tries).Answers (sys.Ends P) P Q [] := by
          induction tries with
          | zero => exact failed_ _
          | succ tries ih =>
              intro s seen
              dsimp only
              cases found : scope.findRecord userId key s with
              | none => exact ih
              | some existing =>
                  have answer := raced s existing seen found
                  rw [replayed] at answer
                  dsimp only
                  cases resolved : scope.resolveExistingIdempotency existing hash with
                  | ok outcome => rwa [resolved] at answer
                  | error e => exact failed_ _
        exact loop 5
      · exact failed_ _

/-- A call that ends with a conflict of its own, and not of its work, has written nothing. -/
theorem Scope.create_leaves {ρ : Type} {scope : Scope ρ}
    {sys : System Db Settings Row Key DbError HttpException AttemptOutcome Result Request} {P : Db → Prop} {draws : Draws}
    {userId : Uuid} {key hash message : String} {work : Tx ρ} {Does : Db → ρ → List Write → Prop}
    {Fails : Db → HttpException → Prop} (locals : sys.locals = {}) (keeps : ∀ r record, (scope.complete r record).id = record.id)
    (works : ∀ s, Works s (scope.claim draws userId key hash) work (Does s) (Fails s))
    (fails : ∀ s e, P s → Fails s e → e.NoRace) (race : message.toList.head? = some 'C') :
    (scope.create draws userId key hash work).Answers (sys.Ends P) P (fun made result =>
      result = failed (conflict message) → ∀ ws ∈ made, ws = []) [] := by
  apply Scope.create_answers locals keeps works
  · intro s outcome ws seen attempted same made mem
    rw [List.mem_singleton.mp mem]
    cases attempted with
    | replayed _ _ _ _ => rfl
    | completed r ws _ _ => cases same
    | refused e _ unworked _ _ =>
        have equal : (⟨e.status, jsTake 255 e.message⟩ : HttpException) = conflict message := by
          simpa [unwrapOutcome, failed] using same
        exact absurd equal ((fails _ _ seen unworked).recorded race)
  · exact fun _ _ _ _ _ => by simp
  · exact fun _ _ => by simp

theorem Request.IsKeyed.leaves (keyed : i.IsKeyed) {message : String}
    (race : message.toList.head? = some 'C') :
    (program sha256Hex i).Answers ((system sha256Hex initial).Ends Paired) Paired (fun made result =>
      result = failed (conflict message) → ∀ ws ∈ made, ws = []) [] := by
  cases i with
  | createTransfer draws senderUserId header input =>
      change (TransfersService.create sha256Hex draws senderUserId header input).Answers _ _ _ _
      unfold TransfersService.create
      cases normalized : (do return (← normalizeIdempotencyKey header, ← TransfersService.normalizeTransferRequest input) :
          Except HttpException _) with
      | error e => exact fun _ => by simp
      | ok pair =>
          exact Scope.create_leaves rfl (fun _ _ => rfl) (fun s => TransfersService.works s draws senderUserId pair.2 _)
            (fun s e paired fails => fails.noRace paired) race
  | createReversal draws actorUserId transferId header input =>
      change (ReversalsService.create sha256Hex draws actorUserId transferId header input).Answers _ _ _ _
      unfold ReversalsService.create
      cases normalizeIdempotencyKey header with
      | error e => exact fun _ => by simp
      | ok key =>
          exact Scope.create_leaves rfl (fun _ _ => rfl) (fun s => ReversalsService.works s draws actorUserId _ _)
            (fun s e paired fails => fails.noRace paired) race
  | _ => exact keyed.elim

theorem Answered.later {before after : Db} (h : Replayable before) (later : after.Extends before) {record : IdempotencyRecord}
    {result : Result} (answered : Answered before record hash result) : Answered after record hash result := by
  cases answered with
  | refused e other status same => exact .refused e other status same
  | broken broken => exact .broken broken
  | recorded same recorded =>
      apply Answered.recorded same
      cases recorded with
      | transfer t completed ht named =>
          exact .transfer t completed (later.frozen (r := .transfer t) ht (Row.fixed_of_completed (h.completed t ht)).frozen) named
      | reversal v completed hv named =>
          exact .reversal v completed (later.frozen (r := .transferReversal v) hv (Row.fixed_of_isHistory rfl).frozen) named
      | failed status message failed response text => exact .failed status message failed response text

/-! ## However a call ends -/

/-- How a call ends that carries a key: with the record that it finds, with the one that it writes, or with a failure that
leaves nothing. -/
inductive Ended (P : Db → Prop) (name : String) (userId : Uuid) (key hash : String) : List (List Row) → Result → Prop
  | found {made result} (s : Db) (record : IdempotencyRecord) : P s → record ∈ s.idempotencyRecords →
      record.userId = userId ∧ record.scope = name ∧ record.key = key → Answered s record hash result →
      Ended P name userId key hash made result
  | wrote {result} (ws : List Write) (record : IdempotencyRecord) :
      record.userId = userId ∧ record.scope = name ∧ record.key = key →
      (∀ now : Db, record ∈ (now.write ws).idempotencyRecords ∧ Answered (now.write ws) record hash result) →
      Ended P name userId key hash [ws.map Write.row] result
  | failed (failure : Failure) : Ended P name userId key hash [] (.error failure)

theorem Scope.create_ended {ρ : Type} {scope : Scope ρ}
    {sys : System Db Settings Row Key DbError HttpException AttemptOutcome Result Request} {P : Db → Prop} {draws : Draws}
    {userId : Uuid} {key hash : String} {work : Tx ρ} {Does : Db → ρ → List Write → Prop} {Fails : Db → HttpException → Prop}
    (locals : sys.locals = {})
    (keeps : ∀ r record, (scope.complete r record).id = record.id ∧ (scope.complete r record).userId = record.userId ∧
      (scope.complete r record).scope = record.scope ∧ (scope.complete r record).key = record.key ∧
      (scope.complete r record).requestHash = record.requestHash)
    (works : ∀ s, Works s (scope.claim draws userId key hash) work (Does s) (Fails s))
    (recorded : ∀ s (now : Db) claim r ws, Does s r ws → Recorded (now.write (.insert (.idempotencyRecord claim) ::
      (ws ++ [.update (.idempotencyRecord claim) (.idempotencyRecord (scope.complete r claim))]))) (scope.complete r claim)
        (.ok (scope.reply r)))
    (answered : ∀ s record result, P s → record ∈ s.idempotencyRecords → record.scope = scope.name →
      (result = scope.replayed (record, scope.resource s record) hash ∨ Broken result) → Answered s record hash result) :
    (scope.create draws userId key hash work).Answers (sys.Ends P) P (Ended P scope.name userId key hash) [] := by
  have found {s : Db} {made : List (List Row)} {existing : IdempotencyRecord × Option ρ} (seen : P s)
      (finds : scope.findRecord userId key s = some existing) :
      Ended P scope.name userId key hash made (scope.replayed existing hash) := by
    obtain ⟨mem, user, own, keyed, resource⟩ := Scope.findRecord_eq_some finds
    refine .found s existing.1 seen mem ⟨user, own, keyed⟩ (answered s _ _ seen mem own (.inl ?_))
    rw [← resource]
  have left (now : Db) (ws : List Write) (old record : IdempotencyRecord) :
      record ∈ (now.write (ws ++ [.update (.idempotencyRecord old) (.idempotencyRecord record)])).idempotencyRecords := by
    rw [Db.write_append]
    exact Db.mem_put_self _ (.idempotencyRecord record)
  apply Scope.create_answers locals (fun r record => (keeps r record).1) works
  · intro s outcome ws seen attempted
    cases attempted with
    | replayed existing _ finds resolved =>
        have resolved : scope.resolveExistingIdempotency existing hash = .ok outcome := resolved
        have replays : scope.replayed existing hash = unwrapOutcome outcome := by rw [Scope.replayed, resolved]
        exact replays ▸ found seen finds
    | completed r ws _ does =>
        obtain ⟨_, user, own, keyed, same⟩ := keeps r (scope.claim draws userId key hash)
        refine .wrote _ (scope.complete r (scope.claim draws userId key hash)) ⟨user, own, keyed⟩ fun now => ⟨?_, ?_⟩
        · exact left now (_ :: ws) _ _
        · exact .recorded same.symm (recorded s now _ r ws does)
    | refused e _ _ _ _ =>
        refine .wrote _ (refusal (scope.claim draws userId key hash) e) ⟨rfl, rfl, rfl⟩ fun now => ⟨?_, ?_⟩
        · exact left now [_] _ _
        · exact .recorded rfl (.failed _ _ rfl rfl rfl)
  · exact fun s existing seen finds => found seen finds
  · exact .failed

theorem Request.Carries.ended (carries : i.Carries sha256Hex name userId key hash) {P : Db → Prop}
    (replayable : ∀ s, P s → Replayable s) :
    (program sha256Hex i).Answers ((system sha256Hex initial).Ends P) P (Ended P name userId key hash) [] := by
  cases carries with
  | @transfer draws senderUserId header input _ request hkey hrequest =>
      change (TransfersService.create sha256Hex draws userId header input).Answers _ _ _ _
      have normalized : (do return (← normalizeIdempotencyKey header, ← TransfersService.normalizeTransferRequest input) :
          Except HttpException _) = .ok (key, request) := by
        rw [hkey, hrequest]
        rfl
      unfold TransfersService.create
      rw [normalized]
      refine Scope.create_ended rfl (fun _ _ => ⟨rfl, rfl, rfl, rfl, rfl⟩) (fun s => TransfersService.works s draws userId _ _) ?_
        fun s record result seen mem own => TransfersService.answered (replayable s seen) mem own
      intro s now claim t ws does
      refine .transfer t rfl (Slice.transfers.mem_of_written ?_) rfl
      cases does with
      | intro source destination beneficiaryId m events _ _ _ _ _ _ _ _ _ announces => simp [announces.written]
  | @reversal draws _ transferId header input _ hkey =>
      change (ReversalsService.create sha256Hex draws userId transferId header input).Answers _ _ _ _
      unfold ReversalsService.create
      rw [hkey]
      refine Scope.create_ended rfl (fun _ _ => ⟨rfl, rfl, rfl, rfl, rfl⟩) (fun s => ReversalsService.works s draws userId _ _) ?_
        fun s record result seen mem own => ReversalsService.answered (replayable s seen) mem own
      intro s now claim v ws does
      refine .reversal v rfl (Slice.transferReversals.mem_of_written ?_) rfl
      cases does with
      | intro t source destination m events _ _ _ _ _ _ _ _ _ _ _ _ announces => simp [announces.written]

/-- A call that carries a key answers with the record of that key, or it fails and leaves nothing. -/
theorem key_answered (opening : Opening initial)
    {c : Config Db Settings Row Key DbError HttpException AttemptOutcome Result Request}
    (h : (system sha256Hex initial).Reachable c) {r : Transactional.Result Request Result} (hr : r ∈ c.results)
    (carries : r.request.Carries sha256Hex name userId key hash) :
    (∃ record ∈ (stateAt initial c.log c.log.length).idempotencyRecords, record.userId = userId ∧ record.scope = name ∧
      record.key = key ∧ Answered (stateAt initial c.log c.log.length) record hash r.result) ∨
    (∃ failure, r.result = .error failure) ∧ ∀ e ∈ c.log, e.call ≠ r.call := by
  have replayable {j : Nat} (le : j ≤ c.log.length) := reachable_replayable opening h le
  have later := (reachable_sound opening.sound h).2
  have since : (system sha256Hex initial).Since (fun s => ∃ k ≤ c.log.length, s = stateAt initial c.log k) c.log r.born :=
    fun k _ le => ⟨k, le, rfl⟩
  have ended := h.answered hr (carries.ended fun s ⟨k, le, same⟩ => same ▸ replayable le) since
  generalize made : commitsOf c.log r.call = commits at ended
  generalize r.result = result at ended ⊢
  cases ended with
  | found s record seen mem own answered =>
      obtain ⟨k, le, rfl⟩ := seen
      have extends_ := later k _ le le_rfl
      exact .inl ⟨record, (replayable le).kept extends_ mem, own.1, own.2.1, own.2.2, answered.later (replayable le) extends_⟩
  | wrote ws record own left =>
      obtain ⟨e, he, _, rows⟩ := mem_commitsOf.mp (made ▸ List.mem_singleton_self (ws.map Write.row))
      obtain ⟨j, lt, rfl⟩ := List.getElem_of_mem he
      obtain ⟨mem, answered⟩ := left (stateAt initial c.log j)
      rw [← state_after lt rows] at mem answered
      have extends_ := later (j + 1) _ lt le_rfl
      exact .inl ⟨record, (replayable lt).kept extends_ mem, own.1, own.2.1, own.2.2, answered.later (replayable lt) extends_⟩
  | failed failure =>
      refine .inr ⟨⟨failure, rfl⟩, fun e he same => ?_⟩
      exact absurd (mem_commitsOf.mpr ⟨e, he, same, rfl⟩) (by simp [made])

end

/-- Of all calls that carry a key at most one ever writes; no committed record is in progress; a call made once the record
is there answers with it and writes nothing; a call that reports a lost race has written nothing; and every call, also one
that loses a race, answers with the record of its key, or fails and commits nothing. -/
theorem keys_exactly_once {sha256Hex : String → String}
    {c : Config Db Settings Row Key DbError HttpException AttemptOutcome Result Request}
    (h : (system sha256Hex migrated).Reachable c) :
    (∀ j (hj : j < c.log.length) k (hk : k < c.log.length) name userId key hash hash',
      c.log[j].request.Carries sha256Hex name userId key hash → c.log[k].request.Carries sha256Hex name userId key hash' →
      c.log[j].writes ≠ [] → c.log[k].writes ≠ [] → j = k) ∧
    (∀ j ≤ c.log.length, ∀ record ∈ (stateAt migrated c.log j).idempotencyRecords, record.status ≠ .inProgress ∧
      record ∈ (stateAt migrated c.log c.log.length).idempotencyRecords) ∧
    (∀ r ∈ c.results, ∀ name userId key hash, r.request.Carries sha256Hex name userId key hash →
      ∀ record ∈ (stateAt migrated c.log r.born).idempotencyRecords,
      record.userId = userId → record.scope = name → record.key = key →
      Answered (stateAt migrated c.log c.log.length) record hash r.result ∧
        ∀ e ∈ c.log, e.call = r.call → e.writes = []) ∧
    (∀ r ∈ c.results, r.request.IsKeyed →
      r.result ∈ [failed (conflict TransfersService.scope.concurrentUpdate),
        failed (conflict ReversalsService.scope.concurrentUpdate)] →
      ∀ e ∈ c.log, e.call = r.call → e.writes = []) ∧
    ∀ r ∈ c.results, ∀ name userId key hash, r.request.Carries sha256Hex name userId key hash →
      (∃ record ∈ (stateAt migrated c.log c.log.length).idempotencyRecords, record.userId = userId ∧ record.scope = name ∧
        record.key = key ∧ Answered (stateAt migrated c.log c.log.length) record hash r.result) ∨
      (∃ failure, r.result = .error failure) ∧ ∀ e ∈ c.log, e.call ≠ r.call := by
  have replayable {j : Nat} (le : j ≤ c.log.length) := reachable_replayable migrated_opening h le
  have later := (reachable_sound migrated_sound h).2
  refine ⟨?once, ?concluded, ?replays, ?conflicts, fun r hr name userId key hash => key_answered migrated_opening h hr⟩
  case once =>
    intro j hj k hk name userId key hash hash' first second wrote wrote'
    rcases Nat.lt_trichotomy j k with lt | same | lt
    · exact absurd (claimed_once migrated_opening h lt hk first second wrote) wrote'
    · exact same
    · exact absurd (claimed_once migrated_opening h lt hj second first wrote') wrote
  case concluded =>
    intro j le record mem
    exact ⟨((replayable le).consistent.concluded record mem).terminal, (replayable le).kept (later j _ le le_rfl) mem⟩
  case replays =>
    intro r hr name userId key hash carries record mem own scope keyed
    have born : r.born ≤ c.log.length := h.born_le hr
    have since : (system sha256Hex migrated).Since (fun s => s.Sound ∧ s.Extends (stateAt migrated c.log r.born)) c.log r.born :=
      fun k lo hi => ⟨(replayable hi).consistent.sound, later _ k lo hi⟩
    obtain ⟨answered, nothing⟩ := h.answered hr (carries.answers (replayable born) mem own scope keyed) since
    exact ⟨answered.later (replayable born) (later _ _ born le_rfl),
      fun e he same => nothing _ (mem_commitsOf.mpr ⟨e, he, same, rfl⟩)⟩
  case conflicts =>
    intro r hr keyed race e he same
    have since : (system sha256Hex migrated).Since Paired c.log r.born :=
      fun k _ hi => (replayable hi).consistent.books.paired
    have mem : e.writes ∈ commitsOf c.log r.call := mem_commitsOf.mpr ⟨e, he, same, rfl⟩
    simp only [List.mem_cons, List.not_mem_nil, or_false] at race
    rcases race with race | race
    · exact h.answered hr (keyed.leaves (by simp [TransfersService.scope])) since race _ mem
    · exact h.answered hr (keyed.leaves (by simp [ReversalsService.scope])) since race _ mem

def sampleRepeatedInput : TransfersService.CreateTransferDto :=
  { sourceWalletId := (sampleUuid 0 1).text, destinationWalletId := some (sampleUuid 1 1).text, amountMinor := "2500" }

/-- The transfer of the run, asked for again with its key. -/
def sampleRepeated : Request :=
  .createTransfer (sampleDraws 5) (sampleUuid 0 0) (some " transfer-1") sampleRepeatedInput

def sampleRepeat : List (Entry Request Row) × Result := (system sampleHash migrated).perform (sampleLog 5) 5 sampleRepeated

theorem sampleRepeat_record : (sampleLog 5).length = 5 ∧ sampleRepeat.1.length = 6 ∧
    (sampleRepeat.1[4]?.any fun e => (e.request matches .createTransfer ..) && !e.writes.isEmpty) ∧
    (∃ record ∈ (stateAt migrated sampleRepeat.1 5).idempotencyRecords.rows, record.userId = sampleUuid 0 0 ∧
      record.scope = "internal-transfer" ∧ record.key = "transfer-1" ∧ record.status = .completed) ∧
    (sampleRepeat.2 matches .ok (.transfer _)) := by
  decide +kernel

theorem sampleRepeated_carries (draws : Draws) (header : Option String) (key : normalizeIdempotencyKey header = .ok "transfer-1") :
    ∃ hash, (Request.createTransfer draws (sampleUuid 0 0) header sampleRepeatedInput).Carries sampleHash
      TransfersService.scope.name (sampleUuid 0 0) "transfer-1" hash := by
  have accepted : (TransfersService.normalizeTransferRequest sampleRepeatedInput).toBool := by decide
  cases normal : TransfersService.normalizeTransferRequest sampleRepeatedInput with
  | error e =>
      rw [normal] at accepted
      cases accepted
  | ok request => exact ⟨_, .transfer key normal⟩

/-- Only the first of the two calls has written, and the second answers with its record. -/
theorem keys_exactly_once_sample : ∃ first second : Entry Request Row, sampleRepeat.1[4]? = some first ∧
    sampleRepeat.1[5]? = some second ∧ first.writes ≠ [] ∧ second.writes = [] ∧
    ∃ record ∈ (stateAt migrated sampleRepeat.1 6).idempotencyRecords, record.status = .completed ∧
      Recorded (stateAt migrated sampleRepeat.1 6) record sampleRepeat.2 := by
  obtain ⟨c, reach, log, mem⟩ := System.reachable_perform (system sampleHash migrated) (sampleCalls.take 5) sampleRepeated
  obtain ⟨length, length', wrote, ⟨record, there, user, scope, key, status⟩, answer⟩ := sampleRepeat_record
  obtain ⟨made, split⟩ := System.perform_log (system sampleHash migrated) (sampleLog 5) 5 sampleRepeated
  have requests : ∀ e ∈ sampleLog 5, e.request ∈ sampleCalls := fun e he => sampleLog_request he
  change c.log = sampleRepeat.1 at log
  change ⟨5, sampleRepeated, (sampleLog 5).length, sampleRepeat.2⟩ ∈ c.results at mem
  change sampleRepeat.1 = _ at split
  rw [length] at mem
  generalize sampleLog 5 = early at *
  generalize sampleRepeat = ran at *
  obtain ⟨entries, result⟩ := ran
  subst log
  dsimp only at *
  obtain ⟨ws, rfl⟩ : ∃ ws, made = [ws] := by
    have sum : early.length + made.length = c.log.length := by simp [split]
    exact List.length_eq_one_iff.mp (by omega)
  obtain ⟨first, at₄, kind⟩ := (Option.any_eq_true _ _).mp wrote
  obtain ⟨transfer, wrote⟩ := (Bool.and_eq_true _ _).mp kind
  have wrote : first.writes ≠ [] := by simpa using wrote
  have request : first.request ∈ sampleCalls := by
    rw [split, List.getElem?_append_left (by omega)] at at₄
    exact requests first (List.mem_of_getElem? at₄)
  have at₅ : c.log[5]? = some ⟨5, sampleRepeated, ws⟩ := by
    rw [split, List.getElem?_append_right (by omega), length]
    rfl
  obtain ⟨once, concluded, replays, _⟩ := keys_exactly_once reach
  obtain ⟨hash, carries⟩ := sampleRepeated_carries (sampleDraws 4) (some "transfer-1") (by decide)
  obtain ⟨hash', carries'⟩ := sampleRepeated_carries (sampleDraws 5) (some " transfer-1") (by decide)
  refine ⟨first, _, at₄, at₅, wrote, ?_, record, ?_, status, ?_⟩
  · obtain ⟨hj, same⟩ := List.getElem?_eq_some_iff.mp at₄
    obtain ⟨hk, same'⟩ := List.getElem?_eq_some_iff.mp at₅
    have request : first.request = .createTransfer (sampleDraws 4) (sampleUuid 0 0) (some "transfer-1") sampleRepeatedInput := by
      simp only [sampleCalls, List.mem_cons, List.not_mem_nil, or_false] at request
      rcases request with request | request | request | request | request | request | request <;> rw [request] at transfer
      all_goals first
        | exact request
        | cases transfer
    by_contra wrote'
    rw [← request, ← same] at carries
    have repeated : c.log[5].request.Carries sampleHash TransfersService.scope.name (sampleUuid 0 0) "transfer-1" hash' := by
      rw [same']
      exact carries'
    exact absurd (once 4 hj 5 hk _ _ _ hash hash' carries repeated (same ▸ wrote) (same' ▸ wrote')) (by decide)
  · rw [← length']
    exact (concluded 5 (by omega) record there).2
  · obtain ⟨answered, _⟩ := replays _ mem _ _ _ hash' carries' record there user scope key
    rw [length'] at answered
    cases answered with
    | recorded _ recorded => exact recorded
    | refused e _ _ same =>
        subst same
        cases answer
    | broken broken =>
        obtain ⟨d, rfl, _⟩ := broken
        cases answer

end Fintech
