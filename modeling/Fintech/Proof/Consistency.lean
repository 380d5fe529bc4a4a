import Fintech.Proof.Postable

/-!
# The tables never contradict each other

Every committed idempotency record is concluded, and no transaction comes to a branch that says that
the tables it reads contradict each other.
-/

namespace Fintech
open Relational Transactional

/-! ## Why the work fails -/

theorem TransfersService.destination_of_normalize {input : CreateTransferDto} {request : NormalizedTransferRequest}
    (h : normalizeTransferRequest input = .ok request) (none : request.beneficiaryId = none) :
    request.destinationWalletId ≠ Option.none := by
  obtain ⟨one, h⟩ := bind_unit_eq_ok.mp h
  rw [failIf_eq_ok] at one
  split at h
  · obtain ⟨_, h⟩ := bind_unit_eq_ok.mp h
    cases h
    simp only [Option.map_eq_none_iff, ne_eq] at none ⊢
    intro unnamed
    rw [none, unnamed] at one
    exact one rfl
  · cases h

theorem TransfersService.WorkFailure.isClient {seen : Db} {draws : Draws} {senderUserId : Uuid}
    {request : NormalizedTransferRequest} {e : HttpException} (paired : Paired seen)
    (resolved : request.beneficiaryId = none → request.destinationWalletId ≠ none)
    (h : WorkFailure seen draws senderUserId request e) : e.IsClient := by
  cases h with
  | refused mem =>
      apply HttpException.isClient_of_mem mem
      simp [refusals, inconsistencies, badRequest, notFound, conflict, internalServerError, TransfersService.scope,
        ReversalsService.scope]
  | unresolved direct none => exact absurd none (resolved direct)
  | unposted _ _ _ _ _ _ _ _ unposted => exact unposted.isClient paired

theorem ReversalsService.WorkFailure.isClient {seen : Db} {draws : Draws} {actorUserId : Uuid}
    {request : NormalizedReversalRequest} {e : HttpException} (paired : Paired seen)
    (h : WorkFailure seen draws actorUserId request e) : e.IsClient := by
  cases h with
  | refused mem =>
      apply HttpException.isClient_of_mem mem
      simp [refusals, inconsistencies, notFound, conflict, internalServerError, TransfersService.scope,
        ReversalsService.scope]
  | unposted _ _ _ _ _ _ _ _ _ _ _ unposted => exact unposted.isClient paired

theorem PaymentsService.SettleFailure.isClient {seen : Db} {event : VerifiedPaymentEvent} {provider : PaymentProvider}
    {e : HttpException} (paired : Paired seen) (h : SettleFailure seen event provider e) : e.IsClient := by
  have clients : ∀ e ∈ mismatch :: refusals, e.IsClient := fun e mem => by
    apply HttpException.isClient_of_mem mem
    simp [mismatch, refusals, inconsistencies, notFound, conflict, internalServerError, TransfersService.scope,
      ReversalsService.scope]
  cases h with
  | refused mem => exact clients e (List.mem_cons_of_mem _ mem)
  | mismatched _ _ _ _ => exact clients mismatch List.mem_cons_self
  | unposted _ _ _ _ _ _ _ _ unposted => exact unposted.isClient paired

/-! ## The records -/

/-- The record is terminal, with all that its replay needs. -/
inductive IdempotencyRecord.Concluded (r : IdempotencyRecord) : Prop
  | completed : r.status = .completed → (r.scope = TransfersService.scope.name → r.transferId.isSome) →
      (r.scope = ReversalsService.scope.name → r.reversalId.isSome) → r.Concluded
  | failed (status : Nat) (message : String) : r.status = .failed → r.responseStatus = some status →
      r.errorMessage = some message → status ≠ 0 → message ≠ "" → r.Concluded

theorem jsTake_ne_empty {n : Nat} {s : String} (two : 2 ≤ n) (h : s ≠ "") : jsTake n s ≠ "" := by
  have chars : s.toList ≠ [] := by simpa using h
  intro empty
  have none : jsTake.go n s.toList = [] := by simpa [jsTake] using congrArg String.toList empty
  cases list : s.toList with
  | nil => exact chars list
  | cons c cs =>
      have short : utf16Units c ≤ n := by
        unfold utf16Units
        split <;> omega
      rw [list, jsTake.go, if_pos short] at none
      cases none

theorem scopes_differ : TransfersService.scope.name ≠ ReversalsService.scope.name := by
  simp [TransfersService.scope, ReversalsService.scope]

/-- The records that a commit leaves: none, or a concluded one in the place of its claim. -/
inductive Concludes : List IdempotencyRecord → Prop
  | none : Concludes []
  | one (claim r : IdempotencyRecord) : r.id = claim.id → r.Concluded → Concludes [claim, r]

theorem Scope.Attempted.concludes {ρ : Type} {scope : Scope ρ} {seen : Db} {claim : IdempotencyRecord} {work : Tx ρ}
    {Does : ρ → List Write → Prop} {Fails : HttpException → Prop} {outcome : AttemptOutcome} {ws : List Write}
    (works : Works seen claim work Does Fails) (keeps : ∀ r, (scope.complete r claim).id = claim.id)
    (completes : ∀ r, (scope.complete r claim).Concluded) (client : ∀ e, Fails e → e.IsClient)
    (h : scope.Attempted seen claim Does Fails outcome ws) : Concludes (Slice.idempotencyRecords.written ws) := by
  cases h with
  | replayed _ _ _ _ => exact .none
  | completed r ws _ does =>
      rw [Slice.written_cons, Slice.written_append, works.clear r ws does]
      exact .one claim _ (keeps r) (completes r)
  | refused e _ fails lower _ =>
      refine .one claim _ rfl (.failed e.status (jsTake 255 e.message) rfl rfl rfl ?_ ?_)
      · omega
      · exact jsTake_ne_empty (by omega) (client e fails).message

theorem Write.IsSide.not_record {w : Write} (h : w.IsSide) : Slice.idempotencyRecords.of w.row = none := by
  cases w with
  | insert r => cases r <;> first | rfl | exact Bool.noConfusion h
  | update old new => cases new <;> first | rfl | exact Bool.noConfusion h

section
variable {sha256Hex : String → String}

theorem Change.concludes {base : Nat → Db} {now : Db} {i : Request} {outcome : AttemptOutcome} {ws : List Write}
    (paired : ∀ n, Paired (base n)) (h : Change sha256Hex base now i outcome ws) :
    Concludes (Slice.idempotencyRecords.written ws) := by
  have aside (h : Slice.idempotencyRecords.written ws = []) : Concludes (Slice.idempotencyRecords.written ws) := by
    rw [h]
    exact .none
  cases h with
  | registered draws input => exact aside rfl
  | opened draws userId currency => exact aside rfl
  | closed closes =>
      cases closes with
      | already _ _ _ _ => exact aside rfl
      | closed _ _ _ _ _ => exact aside rfl
  | posted postings records => exact aside (Movement.written_other (by decide))
  | transfer _ normalized attempted =>
      refine attempted.concludes (TransfersService.works _ _ _ _ _) (fun _ => rfl)
        (fun _ => .completed rfl (fun _ => rfl) fun same => absurd same scopes_differ) fun e fails => ?_
      exact fails.isClient (paired 0) (TransfersService.destination_of_normalize normalized)
  | reversal _ attempted =>
      refine attempted.concludes (ReversalsService.works _ _ _ _ _) (fun _ => rfl)
        (fun _ => .completed rfl (fun same => absurd same scopes_differ.symm) fun _ => rfl) fun e fails => ?_
      exact fails.isClient (paired 0)
  | payment _ intends =>
      cases intends with
      | existing _ _ _ _ _ _ => exact aside rfl
      | created _ _ _ _ _ _ => exact aside rfl
  | settled attempt settles =>
      refine aside ?_
      cases settles with
      | duplicate _ _ _ _ _ _ _ _ => rfl
      | repeated _ _ _ _ _ => rfl
      | failed _ _ _ _ _ _ _ announces => simp [announces.written]
      | succeeded _ _ _ m _ _ _ _ _ _ _ _ _ _ _ announces => simp [announces.written]
  | other side =>
      exact aside (List.filterMap_eq_nil_iff.mpr fun w hw => (side w hw).not_record)

/-- What every committed state is: sound, with its books in order and its records concluded. -/
structure Consistent (db : Db) : Prop where
  sound : db.Sound
  books : Books db
  concluded : ∀ r ∈ db.idempotencyRecords, r.Concluded

theorem Concludes.all {db : Db} {ws : List Write} (h : Concludes (Slice.idempotencyRecords.written ws))
    (before : ∀ r ∈ db.idempotencyRecords, r.Concluded) : ∀ r ∈ (db.write ws).idempotencyRecords, r.Concluded := by
  have table := Slice.idempotencyRecords.table_write db ws
  change (db.write ws).idempotencyRecords = db.idempotencyRecords.putAll (Slice.idempotencyRecords.written ws) at table
  rw [table]
  generalize Slice.idempotencyRecords.written ws = written at h
  cases h with
  | none => exact before
  | one claim record same concluded =>
      intro r hr
      rcases Table.mem_put.mp hr with rfl | ⟨hr, other⟩
      · exact concluded
      · rcases Table.mem_put.mp hr with rfl | ⟨hr, _⟩
        · exact absurd same.symm other
        · exact before r hr

theorem reachable_consistent {initial : Db} (opening : Opening initial)
    {c : Config Db Settings Row Key DbError HttpException AttemptOutcome Result Request}
    (h : (system sha256Hex initial).Reachable c) {i : Nat} (le : i ≤ c.log.length) : Consistent (stateAt initial c.log i) := by
  refine @reachable_changes sha256Hex initial c Consistent (fun _ _ => True) (fun _ => trivial)
    (fun _ _ => trivial) ⟨opening.sound, opening.books, ?_⟩ ?_ h |>.1 i le
  · rw [opening.idempotencyRecords]
    exact fun r hr => absurd hr (Table.not_mem_empty r)
  · intro base now i outcome ws _ earlier _ consistent accepts change
    refine ⟨⟨accepts.sound consistent.sound, ?_, ?_⟩, trivial⟩
    · exact consistent.books.ledgers consistent.sound (change.shape.ledgers accepts)
    · exact (change.concludes fun n => (earlier n).books.paired).all consistent.concluded

/-! ## Replays -/

section
variable {ρ : Type} {scope : Scope ρ} {db : Db} {userId : Uuid} {key hash : String}

/-- A committed record replays, unless it was claimed for another request. -/
theorem Scope.resolve_eq_error {existing : IdempotencyRecord × Option ρ} {e : HttpException}
    (concluded : existing.1.Concluded) (resource : existing.1.status = .completed → existing.2.isSome)
    (h : scope.resolveExistingIdempotency existing hash = .error e) : e = conflict scope.usedDifferently := by
  obtain ⟨record, found⟩ := existing
  rcases failIf_bind_eq_error.mp h with ⟨_, rfl⟩ | ⟨_, h⟩
  · rfl
  dsimp only at concluded resource h
  cases concluded with
  | completed status _ _ =>
      obtain ⟨r, rfl⟩ := Option.isSome_iff_exists.mp (resource status)
      simp [status] at h
  | failed n m status response message nonzero nonempty =>
      have stored : record.responseStatus.filter (· ≠ 0) = some n := by simp [response, Option.filter_some, nonzero]
      have text : record.errorMessage.filter (· ≠ "") = some m := by simp [message, Option.filter_some, nonempty]
      simp only [status, stored, text] at h
      cases h

theorem Scope.findRecord_eq_some {existing : IdempotencyRecord × Option ρ} (h : scope.findRecord userId key db = some existing) :
    existing.1 ∈ db.idempotencyRecords ∧ existing.1.userId = userId ∧ existing.1.scope = scope.name ∧ existing.1.key = key ∧
      existing.2 = scope.resource db existing.1 := by
  obtain ⟨record, found, rfl⟩ := Option.map_eq_some_iff.mp h
  have named : record.userId = userId ∧ record.scope = scope.name ∧ record.key = key := by
    simpa using List.find?_some found
  exact ⟨List.mem_of_find?_eq_some found, named.1, named.2.1, named.2.2, rfl⟩

/-- The transfer of a completed record is there. -/
theorem Consistent.transfer_resource (h : Consistent db) {record : IdempotencyRecord} (mem : record ∈ db.idempotencyRecords)
    (own : record.scope = TransfersService.scope.name) (completed : record.status = .completed) :
    ∃ t ∈ db.transfers, record.transferId = some t.id ∧ TransfersService.scope.resource db record = some t := by
  cases h.concluded _ mem with
  | failed _ _ failed _ _ _ _ => cases completed.symm.trans failed
  | completed _ transfer _ =>
      obtain ⟨id, named⟩ := Option.isSome_iff_exists.mp (transfer own)
      have reference : .row .transfer id ∈ (Row.idempotencyRecord record).references := by simp [Row.references, named]
      obtain ⟨t, ht, same⟩ := Slice.transfers.exists_of_reference h.sound (r := .idempotencyRecord record) mem reference
      refine ⟨t, ht, named.trans (congrArg some same.symm), ?_⟩
      simp only [TransfersService.scope, named, Option.bind_some]
      exact Table.find?_eq_some.mpr ⟨ht, same⟩

theorem Consistent.reversal_resource (h : Consistent db) {record : IdempotencyRecord} (mem : record ∈ db.idempotencyRecords)
    (own : record.scope = ReversalsService.scope.name) (completed : record.status = .completed) :
    ∃ v ∈ db.transferReversals, record.reversalId = some v.id ∧ ReversalsService.scope.resource db record = some v := by
  cases h.concluded _ mem with
  | failed _ _ failed _ _ _ _ => cases completed.symm.trans failed
  | completed _ _ reversal =>
      obtain ⟨id, named⟩ := Option.isSome_iff_exists.mp (reversal own)
      have reference : .row .transferReversal id ∈ (Row.idempotencyRecord record).references := by
        simp [Row.references, named]
      obtain ⟨v, hv, same⟩ := Slice.transferReversals.exists_of_reference h.sound (r := .idempotencyRecord record) mem reference
      refine ⟨v, hv, named.trans (congrArg some same.symm), ?_⟩
      simp only [ReversalsService.scope, named, Option.bind_some]
      exact Table.find?_eq_some.mpr ⟨hv, same⟩

theorem Consistent.transfer_resolves (h : Consistent db) {existing : IdempotencyRecord × Option Transfer} {e : HttpException}
    (found : TransfersService.scope.findRecord userId key db = some existing)
    (unresolved : TransfersService.scope.resolveExistingIdempotency existing hash = .error e) :
    e = conflict TransfersService.scope.usedDifferently := by
  obtain ⟨mem, _, own, _, resource⟩ := Scope.findRecord_eq_some found
  refine Scope.resolve_eq_error (h.concluded _ mem) (fun completed => ?_) unresolved
  obtain ⟨t, _, _, there⟩ := h.transfer_resource mem own completed
  rw [resource, there, Option.isSome_some]

theorem Consistent.reversal_resolves (h : Consistent db) {existing : IdempotencyRecord × Option TransferReversal}
    {e : HttpException} (found : ReversalsService.scope.findRecord userId key db = some existing)
    (unresolved : ReversalsService.scope.resolveExistingIdempotency existing hash = .error e) :
    e = conflict ReversalsService.scope.usedDifferently := by
  obtain ⟨mem, _, own, _, resource⟩ := Scope.findRecord_eq_some found
  refine Scope.resolve_eq_error (h.concluded _ mem) (fun completed => ?_) unresolved
  obtain ⟨v, _, _, there⟩ := h.reversal_resource mem own completed
  rw [resource, there, Option.isSome_some]

end

/-! ## What a transaction throws -/

/-- Whatever a run of the body throws is as `P` says. -/
def Tx.OnlyThrows {α : Type} (base : Nat → Db) (P : HttpException → Prop) (body : Tx α) (v : View Settings Row Key) : Prop :=
  body.Ensures base (fun r _ => ∀ e, r = .error e → P e) v

section
variable {α β : Type} {base : Nat → Db} {P : HttpException → Prop} {v : View Settings Row Key}

theorem onlyThrows_of_throws {body : Tx α} (h : body.Throws P) : body.OnlyThrows base P v := by
  have always : body.wp base (fun _ => True) (fun _ _ => True) v := by
    unfold Prog.wp
    split <;> trivial
  exact ⟨Prog.wp_mono (Prog.wp_throws h always) fun r v' hr => hr.2⟩

theorem onlyThrows_bind {body : Tx α} {f : α → Tx β} (h : body.OnlyThrows base P v) (rest : ∀ a, (f a).Throws P) :
    Tx.OnlyThrows base P (body >>= f) v := by
  refine ensures_bind ⟨Prog.wp_mono h.wp fun r v' hr => ?_⟩
  cases r with
  | error e =>
      intro e' same
      cases same
      exact hr e rfl
  | ok a => exact onlyThrows_of_throws (rest a)

end

theorem notFound_consistent (message : String) : notFound message ∉ inconsistencies := by
  simp [inconsistencies, notFound, conflict, internalServerError]

theorem badRequest_consistent (message : String) : badRequest message ∉ inconsistencies := by
  simp [inconsistencies, badRequest, conflict, internalServerError]

theorem conflict_consistent {message : String} (h : message ∈ [TransfersService.scope.usedDifferently,
    ReversalsService.scope.usedDifferently, "A frozen wallet cannot be closed", "Wallet balance must be zero before it can be closed",
    "Wallet must be active", "Idempotency-Key was used with a different payment request"]) :
    conflict message ∉ inconsistencies := by
  have all : ∀ message ∈ [TransfersService.scope.usedDifferently, ReversalsService.scope.usedDifferently,
      "A frozen wallet cannot be closed", "Wallet balance must be zero before it can be closed", "Wallet must be active",
      "Idempotency-Key was used with a different payment request"], conflict message ∉ inconsistencies := by
    simp [inconsistencies, conflict, internalServerError, TransfersService.scope, ReversalsService.scope]
  exact all message h

theorem Scope.Thrown.consistent {ρ : Type} {scope : Scope ρ} {seen : Db} {claim : IdempotencyRecord}
    {Fails : HttpException → Prop} {e : HttpException} (client : ∀ e, Fails e → e.IsClient)
    (resolves : ∀ existing e, scope.findRecord claim.userId claim.key seen = some existing →
      scope.resolveExistingIdempotency existing claim.requestHash = .error e → e ∉ inconsistencies)
    (h : scope.Thrown seen claim Fails e) : e ∉ inconsistencies := by
  cases h with
  | unresolved found unresolved => exact resolves _ _ found unresolved
  | failed _ fails server => exact absurd (client e fails).status server

/-- No transaction of a request throws an inconsistency, when the states that it reads are consistent. -/
theorem Body.consistent {i : Request} {isolation : Isolation} {body : Tx AttemptOutcome} {base : Nat → Db}
    (h : Body sha256Hex i isolation body) (views : Views isolation base) (seen : ∀ n, Consistent (base n)) :
    body.OnlyThrows base (· ∉ inconsistencies) { locals := {} } := by
  have snapshot (serializable : isolation = .serializable) : base = fun _ => base 0 := views.snapshot serializable
  have paired : Paired (base 0) := (seen 0).books.paired
  cases h with
  | register =>
      refine ensures_committing_result (onlyThrows_of_throws ?_)
      exact Prog.throws_bind (Prog.throws_exec _) fun _ => Prog.throws_bind (Prog.throws_exec _) fun _ =>
        Prog.throws_bind (Prog.throws_exec _) fun _ => Prog.throws_pure _
  | createWallet =>
      refine ensures_committing_result (onlyThrows_of_throws ?_)
      exact Prog.throws_bind (Prog.throws_exec _) fun _ => Prog.throws_bind (Prog.throws_exec _) fun _ => Prog.throws_pure _
  | closeWallet =>
      refine ensures_committing_result (onlyThrows_of_throws (Prog.throws_bind ?_ fun _ => Prog.throws_pure _))
      refine Prog.throws_bind (Prog.throws_exec _) fun found => ?_
      refine Prog.throws_bind (Prog.throws_orThrow (P := (· ∉ inconsistencies)) (notFound_consistent _) found) fun target => ?_
      refine Prog.throws_bind (Prog.throws_exec _) fun _ => Prog.throws_bind (Prog.throws_exec _) fun _ => ?_
      refine Prog.throws_bind (Prog.throws_exec _) fun current => ?_
      split
      · exact Prog.throws_pure _
      · refine Prog.throws_bind (Prog.throws_throwIf (conflict_consistent (by simp))) fun _ => ?_
        exact Prog.throws_bind (Prog.throws_throwIf (conflict_consistent (by simp))) fun _ => Prog.throws_exec _
  | post =>
      rw [snapshot rfl]
      refine ensures_committing_result (onlyThrows_bind ?_ fun _ => Prog.throws_pure _)
      refine ensures_postWithinTransaction (.start {}) (fun _ e failure _ e' same => ?_) fun _ _ _ _ _ e' same => ?_
      · cases same
        exact (failure.isClient paired).consistent
      · cases same
  | transfer hkey hrequest =>
      rw [snapshot rfl]
      refine ensures_committing_result (Scope.ensures_attempt (fun _ _ => rfl) (TransfersService.works _ _ _ _ _) (.start {})
        (fun _ e thrown e' same => ?_) fun _ _ _ _ _ e' same => ?_)
      · cases same
        refine thrown.consistent (fun e fails => ?_) fun existing e found unresolved => ?_
        · exact fails.isClient paired (TransfersService.destination_of_normalize hrequest)
        · rw [(seen 0).transfer_resolves found unresolved]
          exact conflict_consistent (by simp)
      · cases same
  | reversal hkey =>
      rw [snapshot rfl]
      refine ensures_committing_result (Scope.ensures_attempt (fun _ _ => rfl) (ReversalsService.works _ _ _ _ _) (.start {})
        (fun _ e thrown e' same => ?_) fun _ _ _ _ _ e' same => ?_)
      · cases same
        refine thrown.consistent (fun e fails => fails.isClient paired) fun existing e found unresolved => ?_
        rw [(seen 0).reversal_resolves found unresolved]
        exact conflict_consistent (by simp)
      · cases same
  | payment normalized =>
      refine ensures_committing_result (onlyThrows_of_throws (Prog.throws_bind ?_ fun _ => Prog.throws_pure _))
      refine Prog.throws_bind (Prog.throws_exec _) fun found => ?_
      split
      · refine Prog.throws_lift fun e failed => ?_
        rcases failIf_bind_eq_error.mp failed with ⟨_, rfl⟩ | ⟨_, h⟩
        · exact conflict_consistent (by simp)
        · cases h
      · refine Prog.throws_bind (Prog.throws_exec _) fun found => ?_
        refine Prog.throws_bind (Prog.throws_orThrow (P := (· ∉ inconsistencies)) (notFound_consistent _) found) fun wallet => ?_
        refine Prog.throws_bind (Prog.throws_throwIf (conflict_consistent (by simp))) fun _ => ?_
        refine Prog.throws_bind (Prog.throws_lift fun e failed => ?_) fun _ => ?_
        · split at failed
          · obtain ⟨_, rfl⟩ := failIf_eq_error.mp failed
            exact badRequest_consistent _
          · cases failed
        · exact Prog.throws_bind (Prog.throws_exec _) fun _ => Prog.throws_bind (Prog.throws_exec _) fun _ => Prog.throws_pure _
  | settle attempt =>
      rw [snapshot rfl]
      refine ensures_committing_result (PaymentsService.ensures_settle (.start {}) (fun _ e failure e' same => ?_)
        fun _ _ _ _ _ e' same => ?_)
      · cases same
        exact (failure.isClient paired).consistent
      · cases same
  | other =>
      refine ensures_committing_result (onlyThrows_of_throws ?_)
      exact Prog.throws_bind (Prog.throws_each (fun _ => Prog.throws_exec _) _) fun _ => Prog.throws_pure _

/-- However calls interleave, fail and retry, no transaction comes to a branch that finds the tables to contradict
each other, and neither does the replay of a record. -/
theorem inconsistencies_unreachable {c : Config Db Settings Row Key DbError HttpException AttemptOutcome Result Request}
    (h : (system sha256Hex migrated).Reachable c) :
    (∀ i isolation body next born e view, (program sha256Hex i).Leads (.transaction isolation body next) →
      (system sha256Hex migrated).Ran c.log isolation born body (.ok (.error e, view)) → e ∉ inconsistencies) ∧
    (∀ j ≤ c.log.length, ∀ r ∈ (stateAt migrated c.log j).idempotencyRecords, r.Concluded) ∧
    (∀ j ≤ c.log.length, ∀ userId key existing hash e,
      TransfersService.scope.findRecord userId key (stateAt migrated c.log j) = some existing →
      TransfersService.scope.resolveExistingIdempotency existing hash = .error e → e ∉ inconsistencies) ∧
    ∀ j ≤ c.log.length, ∀ userId key existing hash e,
      ReversalsService.scope.findRecord userId key (stateAt migrated c.log j) = some existing →
      ReversalsService.scope.resolveExistingIdempotency existing hash = .error e → e ∉ inconsistencies := by
  refine ⟨?thrown, ?concluded, ?transfers, ?reversals⟩
  case thrown =>
    rintro i isolation body next born e view leads ⟨bases, visible, ran⟩
    have body := ((program_bodies i).leads leads).1
    have only := body.consistent (views_of_seen visible) fun n => reachable_consistent migrated_opening h (visible.le n)
    exact Prog.wp_of_run only.wp ran e rfl
  case concluded =>
    intro j le
    exact (reachable_consistent migrated_opening h le).concluded
  case transfers =>
    intro j le userId key existing hash e found unresolved
    rw [(reachable_consistent migrated_opening h le).transfer_resolves found unresolved]
    exact conflict_consistent (by simp)
  case reversals =>
    intro j le userId key existing hash e found unresolved
    rw [(reachable_consistent migrated_opening h le).reversal_resolves found unresolved]
    exact conflict_consistent (by simp)

end

theorem inconsistencies_unreachable_sample :
    sampleState.idempotencyRecords.rows.map IdempotencyRecord.key = ["transfer-1", "reversal-1"] ∧
    (∀ r ∈ sampleState.idempotencyRecords, r.Concluded) ∧
    ∀ i isolation body next born e view, (program sampleHash i).Leads (.transaction isolation body next) →
      (system sampleHash migrated).Ran (sampleLog 7) isolation born body (.ok (.error e, view)) → e ∉ inconsistencies := by
  obtain ⟨_, _, _, _, keys, _⟩ := sampleLog_seven
  obtain ⟨c, reach, log, length, state⟩ := sampleState_reached
  obtain ⟨unreachable, concluded, _⟩ := inconsistencies_unreachable reach
  rw [log] at unreachable
  exact ⟨keys, state ▸ concluded 7 length.ge, unreachable⟩

end Fintech
