import Fintech.Proof.Closing
import Fintech.Proof.Fingerprints
import Fintech.Proof.Replays

/-!
# Reversals compensate

A transfer is reversed once, by its sender, while the recipient can pay; the reversal posts the transfer backwards, and
whoever asks again under another key is refused.
-/

namespace Fintech
open Relational Transactional

section
variable {before after : Db}

/-! ## The ledger transactions -/

/-- What two ledger transactions together post to an account. -/
def Db.postedTo (db : Db) (id : Uuid) (accountId : Uuid) : Int :=
  (((db.postingsOf id).filter fun p => p.accountId = accountId).map LedgerPosting.amountMinor).sum

theorem Db.Moves.postedTo {db : Db} {id : Uuid} {reference : String} {currency : Currency} {debit credit : Uuid} {amount : Int}
    (h : db.Moves id reference currency debit credit amount) (accountId : Uuid) :
    db.postedTo id accountId = (if debit = accountId then -amount else 0) + if credit = accountId then amount else 0 := by
  have perm := ((h.postings.filter fun x => x.1 = accountId).map Prod.snd).sum_eq
  rw [List.filter_map, List.map_map] at perm
  rw [Db.postedTo]
  refine Eq.trans ?_ (perm.trans ?_)
  · rfl
  · by_cases first : debit = accountId <;> by_cases second : credit = accountId <;> simp [first, second]

/-- The transfer's postings and those of its reversal, one the negation of the other. -/
theorem Backed.negates {db : Db} {v : TransferReversal} {t : Transfer} (reversal : Backed db (.transferReversal v))
    (transfer : Backed db (.transfer t)) (ht : t ∈ db.transfers) (id : t.id = v.transferId) :
    ((db.postingsOf v.ledgerTransactionId).map fun p => (p.accountId, p.amountMinor)).Perm
      ((db.postingsOf t.ledgerTransactionId).map fun p => (p.accountId, -p.amountMinor)) ∧
    ∀ accountId, db.postedTo v.ledgerTransactionId accountId + db.postedTo t.ledgerTransactionId accountId = 0 := by
  cases reversal with
  | reversal x source destination mem id' completed owned currency amount source_mem source_id destination_mem destination_id
      moves =>
      obtain rfl : x = t := Table.eq_of_key_eq mem ht (id'.trans id.symm)
      cases transfer with
      | transfer source' destination' _ source_mem' source_id' _ destination_mem' destination_id' moves' =>
          obtain rfl : source' = source := Table.eq_of_key_eq source_mem' source_mem (source_id'.trans source_id.symm)
          obtain rfl : destination' = destination :=
            Table.eq_of_key_eq destination_mem' destination_mem (destination_id'.trans destination_id.symm)
          rw [← amount] at moves
          constructor
          · have negated := moves'.postings.map fun x : Uuid × Int => (x.1, -x.2)
            simp only [List.map_map, List.map_cons, List.map_nil, neg_neg, Function.comp_def] at negated
            exact (moves.postings.trans (.swap _ _ _)).trans negated.symm
          · intro accountId
            rw [moves.postedTo, moves'.postedTo]
            split <;> split <;> omega

/-! ## The wallets -/

/-- A wallet whose account a movement posts to is active, and shows the sum afterwards. -/
theorem Posts.wallet {m : Movement} (posts : Posts m before after) (sound : before.Sound) (books : Books before) {w : Wallet}
    (hw : w ∈ before.wallets) (posted : w.ledgerAccountId ∈ m.accountIds) : w.status = .active ∧ m.onWallet w ∈ after.wallets := by
  refine ⟨Movement.wallets_active (posts.wallet_mem sound books hw posted), ?_⟩
  rw [posts.wallets_modify sound fun w hw a ha link => books.kind_of_owned hw ha link]
  exact Table.mem_modify.mpr ⟨w, hw, rfl⟩

theorem Db.Sound.balance_nonneg {db : Db} (sound : db.Sound) {w : Wallet} (hw : w ∈ db.wallets) : 0 ≤ w.currentBalanceMinor := by
  have check := Books.checked sound (r := .wallet w) hw
    (c := ("Wallet_nonnegative_balance_check", 0 ≤ w.currentBalanceMinor)) (by simp [Row.checks])
  simpa using check

/-- What was so in `before`, when the sender reversed the transfer there. -/
structure Compensates (before : Db) (actorUserId : Uuid) (transferId : String) (v : TransferReversal) : Prop where
  actor : v.actorUserId = actorUserId
  unreversed : ∀ r ∈ before.transferReversals, r.transferId ≠ v.transferId
  transfer : ∃ t ∈ before.transfers, t.id = v.transferId ∧ Uuid.parse? (toLowerCase transferId) = some t.id ∧
    t.senderUserId = actorUserId ∧
    (∃ source ∈ before.wallets, source.id = t.sourceWalletId ∧ source.status = .active) ∧
    ∃ destination ∈ before.wallets, destination.id = t.destinationWalletId ∧ destination.status = .active ∧
      t.amountMinor ≤ destination.currentBalanceMinor

/-- A reversal that a commit adds compensates in the state before. -/
theorem Committing.compensates {i : Request} (h : Committing before after i) (later : after.Sound) {v : TransferReversal}
    (hv : v ∈ after.transferReversals) (new : v ∉ before.transferReversals) :
    ∃ draws actorUserId transferId header input, i = .createReversal draws actorUserId transferId header input ∧
      Compensates before actorUserId transferId v := by
  cases h.booked with
  | quiet quiet => exact absurd (quiet.transferReversals ▸ hv) new
  | posted _ _ _ reversals _ => exact absurd (reversals ▸ hv) new
  | transferred _ _ _ _ _ _ reversals _ => exact absurd (reversals ▸ hv) new
  | credited _ _ _ _ _ _ _ reversals _ => exact absurd (reversals ▸ hv) new
  | reversed m x t source destination posts transfers reversals payments actor named mem id completed owned unreversed amount
      source_mem source_id destination_mem destination_id ledger reference currency same pair =>
      rw [Table.mem_def, reversals, List.mem_append, List.mem_singleton] at hv
      obtain rfl : v = x := hv.resolve_left new
      have ids : m.accountIds = [source.ledgerAccountId, destination.ledgerAccountId] := by
        have firsts := congrArg (List.map Prod.fst) pair
        simpa [Movement.accountIds, Function.comp_def] using firsts
      obtain ⟨active, _⟩ := posts.wallet h.sound h.books source_mem (by simp [ids])
      obtain ⟨active', shows⟩ := posts.wallet h.sound h.books destination_mem (by simp [ids])
      have debit : m.amount destination.ledgerAccountId = -v.amountMinor := by
        have mem : (destination.ledgerAccountId, -v.amountMinor) ∈ m.postings.map fun p => (p.accountId, p.amountMinor) := by
          simp [pair]
        obtain ⟨p, hp, posting⟩ := List.mem_map.mp mem
        obtain ⟨account, amount⟩ := Prod.mk.inj posting
        rw [← account, ← amount]
        exact Movement.amount_of_mem hp
      have funded := later.balance_nonneg shows
      rw [Movement.onWallet_balance, debit] at funded
      exact ⟨_, _, _, _, _, rfl, actor, fun r hr => id ▸ unreversed r hr, t, mem, id, named, owned,
        ⟨source, source_mem, source_id, active⟩, destination, destination_mem, destination_id, active', by omega⟩

end

/-! ## Further requests -/

/-- What a record is that a commit writes: without a resource, or with the transfer or the reversal that the commit made, and
then of a request for it. -/
inductive Recording (sha256Hex : String → String) (ws : List Write) (record : IdempotencyRecord) : Prop
  | bare (transfer : record.transferId = none) (reversal : record.reversalId = none)
  | transfer (t : Transfer) (request : TransfersService.NormalizedTransferRequest) (only : Slice.transfers.written ws = [t])
      (named : record.transferId = some t.id) (reversal : record.reversalId = none)
      (same : record.requestHash = TransfersService.hashRequest sha256Hex request)
      (amount : request.amountMinorText = toString t.amountMinor)
  | reversal (v : TransferReversal) (request : ReversalsService.NormalizedReversalRequest)
      (only : Slice.transferReversals.written ws = [v]) (named : record.reversalId = some v.id)
      (transfer : record.transferId = none) (same : record.requestHash = ReversalsService.hashRequest sha256Hex request)
      (transferId : Uuid.parse? request.transferId = some v.transferId)

/-- Records name what was made for their requests. -/
structure RecordsAnswer (sha256Hex : String → String) (db : Db) : Prop where
  transfers : ∀ record ∈ db.idempotencyRecords, ∀ id, record.transferId = some id → ∃ t ∈ db.transfers, t.id = id ∧
    ∃ request : TransfersService.NormalizedTransferRequest, record.requestHash = TransfersService.hashRequest sha256Hex request ∧
      request.amountMinorText = toString t.amountMinor
  reversals : ∀ record ∈ db.idempotencyRecords, ∀ id, record.reversalId = some id → ∃ v ∈ db.transferReversals, v.id = id ∧
    ∃ request, record.requestHash = ReversalsService.hashRequest sha256Hex request ∧
      Uuid.parse? request.transferId = some v.transferId

section
variable {sha256Hex : String → String}

theorem Change.recording {base : Nat → Db} {now : Db} {i : Request} {outcome : AttemptOutcome} {ws : List Write}
    (h : Change sha256Hex base now i outcome ws) {record : IdempotencyRecord}
    (mem : record ∈ Slice.idempotencyRecords.written ws) : Recording sha256Hex ws record := by
  cases h with
  | registered draws input => cases mem
  | opened draws userId currency => cases mem
  | closed closes => cases closes <;> cases mem
  | posted postings records =>
      rw [Movement.written_other (by decide)] at mem
      cases mem
  | @transfer draws senderUserId header input key request _ _ _ normal attempted =>
      cases attempted with
      | replayed _ _ _ _ => cases mem
      | completed t ws _ does =>
          have clear := (TransfersService.works _ _ _ _ record).clear t ws does
          simp [clear] at mem
          rcases mem with rfl | rfl
          · exact .bare rfl rfl
          · obtain ⟨_, _, _, _, _, rfl⟩ := TransfersService.normalizeTransferRequest_eq_ok.mp normal
            cases does with
            | intro source destination beneficiaryId m events _ _ _ _ _ _ _ _ _ announces =>
                exact .transfer _ _ (by simp [announces.written]) rfl rfl rfl rfl
      | refused e _ _ _ _ =>
          simp at mem
          rcases mem with rfl | rfl <;> exact .bare rfl rfl
  | @reversal draws actorUserId transferId header input key outcome ws hkey attempted =>
      cases attempted with
      | replayed _ _ _ _ => cases mem
      | completed v ws _ does =>
          have clear := (ReversalsService.works _ _ _ _ record).clear v ws does
          simp [clear] at mem
          rcases mem with rfl | rfl
          · exact .bare rfl rfl
          · cases does with
            | intro t source destination m events _ named _ _ _ _ _ _ _ _ _ _ announces =>
                exact .reversal _ _ (by simp [announces.written]) rfl rfl rfl named
      | refused e _ _ _ _ =>
          simp at mem
          rcases mem with rfl | rfl <;> exact .bare rfl rfl
  | payment _ intends => cases intends <;> cases mem
  | settled attempt settles =>
      cases settles with
      | duplicate _ _ _ _ _ _ _ _ => cases mem
      | repeated _ _ _ _ _ => cases mem
      | failed _ _ _ _ _ _ _ announces => simp [announces.written] at mem
      | succeeded _ _ _ m _ _ _ _ _ _ _ _ _ _ _ announces => simp [announces.written] at mem
  | other side =>
      rw [Slice.written, List.filterMap_eq_nil_iff.mpr fun w hw => (side w hw).not_record] at mem
      cases mem

variable {initial : Db} {c : Config Db Settings Row Key DbError HttpException AttemptOutcome Result Request}

theorem reachable_recordsAnswer (opening : Opening initial) (h : (system sha256Hex initial).Reachable c) {j : Nat}
    (le : j ≤ c.log.length) : RecordsAnswer sha256Hex (stateAt initial c.log j) := by
  induction j with
  | zero =>
      constructor <;>
      · intro record mem
        rw [stateAt_zero, opening.idempotencyRecords] at mem
        exact absurd mem (Table.not_mem_empty record)
  | succ j ih =>
      have answer := ih (Nat.le_of_succ_le le)
      have extends_ := (reachable_sound opening.sound h).2 j (j + 1) (Nat.le_succ j) le
      obtain ⟨_, _, _, ws, _, rows, _, change⟩ := done_of_certified (h.certified le)
      have state : stateAt initial c.log (j + 1) = (stateAt initial c.log j).write ws := state_after le rows
      constructor
      · intro record mem id named
        rcases Slice.idempotencyRecords.mem_written (state ▸ mem) with old | new
        · obtain ⟨t, ht, same, request⟩ := answer.transfers record old id named
          have completed := (reachable_replayable opening h (Nat.le_of_succ_le le)).completed t ht
          exact ⟨t, extends_.frozen (r := .transfer t) ht (Row.fixed_of_completed completed).frozen, same, request⟩
        · cases change.recording new with
          | bare none _ => cases named.symm.trans none
          | transfer t request only named' _ same amount =>
              cases named.symm.trans named'
              exact ⟨t, state ▸ Slice.transfers.mem_of_written only, rfl, request, same, amount⟩
          | reversal _ _ _ _ none _ _ => cases named.symm.trans none
      · intro record mem id named
        rcases Slice.idempotencyRecords.mem_written (state ▸ mem) with old | new
        · obtain ⟨v, hv, same, request⟩ := answer.reversals record old id named
          exact ⟨v, extends_.frozen (r := .transferReversal v) hv (Row.fixed_of_isHistory rfl).frozen, same, request⟩
        · cases change.recording new with
          | bare _ none => cases named.symm.trans none
          | transfer _ _ _ _ none _ _ => cases named.symm.trans none
          | reversal v request only named' _ same transferId =>
              cases named.symm.trans named'
              exact ⟨v, state ▸ Slice.transferReversals.mem_of_written only, rfl, request, same, transferId⟩

/-- What a request to reverse the transfer of `v` finds: `v`, and its record under another key. -/
structure Reversed (sha256Hex : String → String) (v : TransferReversal) (actorUserId : Uuid) (key : String) (db : Db) : Prop where
  sound : db.Sound
  mem : v ∈ db.transferReversals
  answer : RecordsAnswer sha256Hex db
  elsewhere : ∀ record ∈ db.idempotencyRecords, record.reversalId = some v.id →
    record.userId = actorUserId → record.key ≠ key

theorem Db.Sound.reversal_eq {db : Db} (sound : db.Sound) {v x : TransferReversal} (hv : v ∈ db.transferReversals)
    (hx : x ∈ db.transferReversals) (same : v.transferId = x.transferId) : v = x := by
  have slot : Row.transferReversal v = Row.transferReversal x :=
    sound.unique _ hv _ hx (.reversalTransfer v.transferId) (by simp [Row.keys, Row.slots]) (by simp [Row.keys, Row.slots, same])
  simpa using slot

/-- No record under that key replays a reversal to the request: it would be of the same transfer. -/
theorem Reversed.no_reply (injective : Function.Injective sha256Hex) {v : TransferReversal} {actorUserId : Uuid} {key : String}
    {db : Db} (h : Reversed sha256Hex v actorUserId key db) (request : ReversalsService.NormalizedReversalRequest)
    (named : Uuid.parse? request.transferId = some v.transferId) {existing : IdempotencyRecord × Option TransferReversal}
    (found : ReversalsService.scope.findRecord actorUserId key db = some existing) {outcome : AttemptOutcome}
    (resolved : ReversalsService.scope.resolveExistingIdempotency existing (ReversalsService.hashRequest sha256Hex request) =
      .ok outcome) : ∃ e, outcome = .error e := by
  obtain ⟨mem, user, _, keyed, resource⟩ := Scope.findRecord_eq_some found
  obtain ⟨record, known⟩ := existing
  obtain ⟨hash, resolved⟩ := bind_unit_eq_ok.mp resolved
  rw [failIf_eq_ok, not_not] at hash
  cases known with
  | none =>
      cases status : record.status with
      | completed => simp [status] at resolved
      | inProgress => simp [status] at resolved
      | failed =>
          simp only [status] at resolved
          split at resolved
          · exact ⟨_, (Except.ok.inj resolved).symm⟩
          · cases resolved
  | some x =>
      obtain ⟨id, reversal, there⟩ := Option.bind_eq_some_iff.mp resource.symm
      obtain ⟨hx, rfl⟩ := Table.find?_eq_some.mp there
      obtain ⟨y, hy, same, request', hash', named'⟩ := h.answer.reversals record mem _ reversal
      obtain rfl : y = x := Table.eq_of_key_eq hy hx same
      obtain rfl : request' = request :=
        (ReversalsService.hashRequest_eq_iff injective).mp (hash'.symm.trans hash)
      have equal : v = y := h.sound.reversal_eq h.mem hy (Option.some.inj (named.symm.trans named'))
      exact absurd keyed (h.elsewhere record mem (equal ▸ reversal) user)

/-- Asking again under another key fails, and writes at most a record of that. -/
theorem Reversed.create_answers (injective : Function.Injective sha256Hex) {v : TransferReversal} {draws : Draws}
    {actorUserId : Uuid} {transferId : String} {header : Option String} {input : ReversalsService.CreateReversalDto}
    (named : Uuid.parse? (toLowerCase transferId) = some v.transferId) :
    (ReversalsService.create sha256Hex draws actorUserId transferId header input).Answers
      ((system sha256Hex initial).Ends fun db => ∀ key, normalizeIdempotencyKey header = .ok key →
        Reversed sha256Hex v actorUserId key db)
      (fun db => ∀ key, normalizeIdempotencyKey header = .ok key → Reversed sha256Hex v actorUserId key db)
      (fun made result => (∃ failure, result = .error failure) ∧ ∀ ws ∈ made, ∀ r ∈ ws, r.table = .idempotencyRecord) [] := by
  unfold ReversalsService.create
  cases normalizeIdempotencyKey header with
  | error e => exact ⟨⟨_, rfl⟩, by simp⟩
  | ok key =>
      have named' : Uuid.parse? (ReversalsService.normalizeRequest transferId input).transferId = some v.transferId := named
      apply Scope.create_answers rfl (fun _ _ => rfl) (fun s => ReversalsService.works s draws actorUserId _ _)
      · intro s outcome ws seen attempted
        have reversed := seen key rfl
        cases attempted with
        | replayed existing _ found resolved =>
            obtain ⟨e, rfl⟩ := reversed.no_reply injective _ named' found resolved
            exact ⟨⟨_, rfl⟩, by simp⟩
        | completed x ws _ does =>
            cases does with
            | intro t source destination m events _ parsed _ _ unreversed _ _ _ _ _ _ _ _ =>
                rw [named', Option.some.injEq] at parsed
                exact (unreversed v reversed.mem parsed).elim
        | refused e _ _ _ _ => exact ⟨⟨_, rfl⟩, by simp [Row.table]⟩
      · intro s existing seen found
        refine ⟨?_, by simp⟩
        rw [Scope.replayed]
        cases resolved : ReversalsService.scope.resolveExistingIdempotency existing _ with
        | error e => exact ⟨_, rfl⟩
        | ok outcome =>
            obtain ⟨e, rfl⟩ := (seen key rfl).no_reply injective _ named' found resolved
            exact ⟨_, rfl⟩
      · exact fun failure => ⟨⟨failure, rfl⟩, by simp⟩

/-! ## Runs -/

theorem Slice.table_applyAll {ρ : Type} [Keyed ρ Uuid] (slice : Slice ρ) {db : Db} {rows : List Row}
    (h : ∀ r ∈ rows, r.table ≠ slice.name) : slice.table (applyAll db rows) = slice.table db := by
  have writes : rows = (rows.map Write.insert).map Write.row := by simp [Function.comp_def]
  have nothing : slice.written (rows.map Write.insert) = [] := by
    rw [Slice.written_map, List.filterMap_eq_nil_iff]
    exact fun r hr => slice.of_eq_none (h r hr)
  have table := slice.table_write db (rows.map Write.insert)
  rw [nothing, Db.write, ← writes] at table
  exact table

/-- A reversal is added by a commit of its sender's request. -/
theorem reversal_requested (opening : Opening initial) (h : (system sha256Hex initial).Reachable c) {j : Nat}
    (le : j ≤ c.log.length) {v : TransferReversal} (hv : v ∈ (stateAt initial c.log j).transferReversals) :
    ∃ k, ∃ lt : k < c.log.length, k < j ∧ v ∈ (stateAt initial c.log (k + 1)).transferReversals ∧
      ∃ draws actorUserId transferId header input,
        c.log[k].request = .createReversal draws actorUserId transferId header input ∧
        Compensates (stateAt initial c.log k) actorUserId transferId v := by
  induction j with
  | zero =>
      rw [stateAt_zero, opening.transferReversals] at hv
      exact absurd hv (Table.not_mem_empty v)
  | succ j ih =>
      by_cases old : v ∈ (stateAt initial c.log j).transferReversals
      · obtain ⟨k, lt, before, rest⟩ := ih (Nat.le_of_succ_le le) old
        exact ⟨k, lt, Nat.lt_succ_of_lt before, rest⟩
      · have later := (reachable_consistent opening h le).sound
        exact ⟨j, le, Nat.lt_succ_self j, hv, (committing opening h le).compensates later hv old⟩

/-- What a reversal is in a committed state, and what becomes of its transfer. -/
structure Compensated (sha256Hex : String → String) (initial : Db)
    (c : Config Db Settings Row Key DbError HttpException AttemptOutcome Result Request) (j : Nat) (v : TransferReversal) :
    Prop where
  /-- It is the only reversal of its transfer. -/
  once : ∀ x ∈ (stateAt initial c.log j).transferReversals, x.transferId = v.transferId → x = v
  /-- The sender asked for it, when both wallets were active and the recipient held the amount. -/
  requested : ∃ k, ∃ lt : k < c.log.length, k < j ∧ v ∈ (stateAt initial c.log (k + 1)).transferReversals ∧
    ∃ draws actorUserId transferId header input,
      c.log[k].request = .createReversal draws actorUserId transferId header input ∧
      Compensates (stateAt initial c.log k) actorUserId transferId v
  /-- Its ledger transaction posts the transfer's backwards. -/
  negates : ∃ t ∈ (stateAt initial c.log j).transfers, t.id = v.transferId ∧
    (((stateAt initial c.log j).postingsOf v.ledgerTransactionId).map fun p => (p.accountId, p.amountMinor)).Perm
      (((stateAt initial c.log j).postingsOf t.ledgerTransactionId).map fun p => (p.accountId, -p.amountMinor)) ∧
    ∀ accountId, (stateAt initial c.log j).postedTo v.ledgerTransactionId accountId +
      (stateAt initial c.log j).postedTo t.ledgerTransactionId accountId = 0
  /-- Whoever asks again later, under another key than the one that its record has, is refused and moves nothing. -/
  refused : Function.Injective sha256Hex → ∀ r ∈ c.results, j ≤ r.born → ∀ draws actorUserId transferId header input,
    r.request = .createReversal draws actorUserId transferId header input →
    Uuid.parse? (toLowerCase transferId) = some v.transferId →
    (∀ record ∈ (stateAt initial c.log c.log.length).idempotencyRecords, record.reversalId = some v.id →
      record.userId = actorUserId → ∀ key, normalizeIdempotencyKey header = .ok key → record.key ≠ key) →
    (∃ failure, r.result = .error failure) ∧ ∀ k (lt : k < c.log.length), c.log[k].call = r.call →
      let before := stateAt initial c.log k
      let after := stateAt initial c.log (k + 1)
      after.ledgerAccounts = before.ledgerAccounts ∧ after.wallets = before.wallets ∧
        after.ledgerTransactions = before.ledgerTransactions ∧ after.ledgerPostings = before.ledgerPostings ∧
        after.transferReversals = before.transferReversals

/-- A transfer, its ledger transaction and its postings, from one state to a later one. -/
structure TransferKept (before after : Db) (t : Transfer) : Prop where
  row : t ∈ after.transfers
  transaction : ∃ l ∈ before.ledgerTransactions, l.id = t.ledgerTransactionId ∧ l ∈ after.ledgerTransactions
  postings : ∀ p : LedgerPosting, p.ledgerTransactionId = t.ledgerTransactionId →
    (p ∈ after.ledgerPostings ↔ p ∈ before.ledgerPostings)

end

/-- However reversal requests interleave with each other and with anything else: each transfer has at most one reversal,
which compensates it exactly and was asked for by its sender; transfers stay as they are; and further requests are refused. -/
theorem reversals_compensate_once {sha256Hex : String → String}
    {c : Config Db Settings Row Key DbError HttpException AttemptOutcome Result Request}
    (h : (system sha256Hex migrated).Reachable c) {j : Nat} (le : j ≤ c.log.length) :
    (∀ v ∈ (stateAt migrated c.log j).transferReversals, Compensated sha256Hex migrated c j v) ∧
    ∀ i ≤ j, ∀ t ∈ (stateAt migrated c.log i).transfers,
      TransferKept (stateAt migrated c.log i) (stateAt migrated c.log j) t := by
  have states := (@reachable_booked migrated sha256Hex c migrated_opening h (fun _ => True) trivial fun _ _ _ _ _ _ => trivial).1
  obtain ⟨sound, books, borne, _⟩ := states j le
  constructor
  · intro v hv
    have backed := borne.backed (.transferReversal v) hv rfl
    constructor
    case once => exact fun x hx same => sound.reversal_eq hx hv same
    case requested => exact reversal_requested migrated_opening h le hv
    case negates =>
      cases backed with
      | reversal t source destination mem id completed owned currency amount source_mem source_id destination_mem
          destination_id moves =>
          exact ⟨t, mem, id, (borne.backed (.transferReversal v) hv rfl).negates (borne.backed (.transfer t) mem rfl) mem id⟩
    case refused =>
      intro injective r hr born draws actorUserId transferId header input request named other
      have replayable {k : Nat} (hi : k ≤ c.log.length) := reachable_replayable migrated_opening h hi
      have later := (reachable_sound migrated_sound h).2
      have since : (system sha256Hex migrated).Since (fun db => ∀ key, normalizeIdempotencyKey header = .ok key →
          Reversed sha256Hex v actorUserId key db) c.log r.born := by
        intro k lo hi key keyed
        constructor
        · exact (replayable hi).consistent.sound
        · exact (later j k (born.trans lo) hi).frozen (r := .transferReversal v) hv (Row.fixed_of_isHistory rfl).frozen
        · exact reachable_recordsAnswer migrated_opening h hi
        · intro record mem reversal user
          exact other record ((replayable hi).kept (later k _ hi le_rfl) mem) reversal user key keyed
      have program : ((system sha256Hex migrated).program r.request).Answers
          ((system sha256Hex migrated).Ends fun db => ∀ key, normalizeIdempotencyKey header = .ok key →
            Reversed sha256Hex v actorUserId key db)
          (fun db => ∀ key, normalizeIdempotencyKey header = .ok key → Reversed sha256Hex v actorUserId key db)
          (fun made result => (∃ failure, result = .error failure) ∧
            ∀ ws ∈ made, ∀ r ∈ ws, r.table = .idempotencyRecord) [] := by
        rw [request]
        exact @Reversed.create_answers sha256Hex migrated injective v draws actorUserId transferId header input named
      obtain ⟨fails, only⟩ := h.answered hr program since
      refine ⟨fails, fun k lt own => ?_⟩
      have rows := only _ (mem_commitsOf.mpr ⟨_, List.getElem_mem lt, own, rfl⟩)
      have same {ρ : Type} [Keyed ρ Uuid] (slice : Slice ρ) (aside : slice.name ≠ .idempotencyRecord) :
          slice.table (stateAt migrated c.log (k + 1)) = slice.table (stateAt migrated c.log k) := by
        rw [stateAt_succ lt]
        exact slice.table_applyAll fun r hr table => aside (table.symm.trans (rows r hr))
      exact ⟨same .ledgerAccounts (by decide), same .wallets (by decide), same .ledgerTransactions (by decide),
        same .ledgerPostings (by decide), same .transferReversals (by decide)⟩
  · intro i lt t ht
    have preserves := reachable_preserves migrated_opening h lt le
    cases (states i (lt.trans le)).2.2.1.backed (.transfer t) ht rfl with
    | transfer _ _ completed _ _ _ _ _ moves =>
        obtain ⟨l, hl, id, _⟩ := moves.transaction
        exact ⟨preserves.transfers t ht completed, ⟨l, hl, id, preserves.transactions l hl⟩,
          fun p own => preserves.postings l hl p (own.trans id.symm)⟩

/-! ## A run -/

/-- Two users register, the clearing account funds the first, who transfers half of it to the second and reverses the transfer. -/
def sampleReversed : List Request := [
  sampleUser 0 "ada@example.com",
  sampleUser 1 "obi@example.com",
  .post (sampleDraws 2)
    { reference := "funding-1", currency := .usd,
      postings := [⟨usdClearing.id.text, -5000⟩, ⟨((sampleDraws 0).id .ledgerAccount).text, 5000⟩] },
  .createTransfer (sampleDraws 3) (sampleUuid 0 0) (some "transfer-1")
    { sourceWalletId := (sampleUuid 0 1).text, destinationWalletId := some (sampleUuid 1 1).text, amountMinor := "2500" },
  .createReversal (sampleDraws 4) (sampleUuid 0 0) (sampleUuid 3 6).text (some "reversal-1") {}]

/-- An injective function that is SHA-256 on the texts that the run hashes. -/
def sampleReversedSha256 : String ≃ String :=
  (Equiv.swap (jsonObject [("sourceWalletId", some "00000000-0000-4000-8000-000000001001"),
      ("destinationWalletId", some "00000000-0000-4000-8000-000000001101"), ("beneficiaryId", none),
      ("amountMinor", some "2500")]) "edba09eaf8413837c1b731db4ce7fa5b820d7d21d6281073ea408931d85c0c39").trans <|
    Equiv.swap (jsonObject [("transferId", some "00000000-0000-4000-8000-000000001306"), ("reason", none)])
      "c6b565dd299a109414714275922881fd9d3ca7344da61bf03a5a017e7e199748"

def sampleReversedLog : List (Entry Request Row) := (system sampleReversedSha256 migrated).performAll sampleReversed [] 0

theorem sampleReversedLog_reverses : sampleReversedLog.length = 5 ∧
    (∃ e ∈ sampleReversedLog, (e.request matches .createTransfer ..) ∧ e.writes.any fun r => r matches .transfer _) ∧
    (stateAt migrated sampleReversedLog 5).transferReversals.rows.map TransferReversal.transferId = [sampleUuid 3 6] ∧
    (stateAt migrated sampleReversedLog 5).wallets.rows.map Wallet.currentBalanceMinor = [5000, 0] := by
  decide +kernel

theorem reversals_compensate_once_sample : ∃ (c : Config Db Settings Row Key DbError HttpException AttemptOutcome Result Request)
    (v : TransferReversal), c.log = sampleReversedLog ∧ v ∈ (stateAt migrated c.log 5).transferReversals ∧
    v.transferId = sampleUuid 3 6 ∧ Compensated sampleReversedSha256 migrated c 5 v := by
  obtain ⟨c, reach, log⟩ := System.reachable_performAll (system sampleReversedSha256 migrated) sampleReversed
  obtain ⟨length, _, reversed, _⟩ := sampleReversedLog_reverses
  rw [sampleReversedLog, ← log] at length reversed
  have mem : sampleUuid 3 6 ∈ (stateAt migrated c.log 5).transferReversals.rows.map TransferReversal.transferId := by
    simp [reversed]
  obtain ⟨v, hv, transfer⟩ := List.mem_map.mp mem
  have compensated := (reversals_compensate_once reach length.ge).1
  exact ⟨c, v, log, hv, transfer, compensated v hv⟩

end Fintech
