import Fintech.Proof.Deeds

/-!
# Movements and their records

A commit that moves money outside `LedgerService.post` writes one record, whose wallets and amount
are those of the movement.
-/

namespace Fintech
open Relational Transactional DoubleEntry

/-! ## Inserted rows are new -/

theorem Accepts.inserted_fresh {db : Db} {ws : List Write} (h : Accepts db ws) {r : Row} (mem : .insert r ∈ ws) :
    ∀ x ∈ db, x.pk ≠ r.pk := by
  obtain ⟨before, after, rfl⟩ := List.append_of_mem mem
  obtain ⟨_, inserted, _⟩ := accepts_append.mp h
  intro x hx same
  obtain ⟨y, hy, pk⟩ := le_applyAll db (before.map Write.row) x hx
  refine Db.not_taken_iff.mp (inserted.fresh _ r.pk_mem_keys) y hy ?_
  rw [← same, ← pk]
  exact y.pk_mem_keys

section
variable {ρ : Type} [Keyed ρ Uuid] (slice : Slice ρ) {db : Db} {ws : List Write} {x : ρ}

theorem Slice.fresh_of_insert (h : Accepts db ws) (mem : .insert (slice.row x) ∈ ws) :
    ∀ y ∈ slice.table db, key y ≠ key x := by
  intro y hy same
  exact h.inserted_fresh mem (slice.row y) (slice.mem.mpr hy) (slice.pk_eq.mpr same)

/-- The table after writes of which one inserts the row, and no other is of the table. -/
theorem Slice.rows_insert (h : Accepts db ws) (mem : .insert (slice.row x) ∈ ws) (only : slice.written ws = [x]) :
    (slice.table (db.write ws)).rows = (slice.table db).rows ++ [x] := by
  rw [slice.table_write, only]
  exact Table.rows_put_of_fresh (slice.fresh_of_insert h mem)

/-- A row that is inserted shares no key with the rows of its table. -/
theorem Slice.free_of_insert (h : Accepts db ws) (mem : .insert (slice.row x) ∈ ws) (only : slice.written ws = [x])
    {y : ρ} (hy : y ∈ slice.table db) {k : Key} (hk : k ∈ (slice.row x).keys) : k ∉ (slice.row y).keys := by
  obtain ⟨before, after, rfl⟩ := List.append_of_mem mem
  obtain ⟨_, inserted, _⟩ := accepts_append.mp h
  have none : slice.written before = [] := by
    have count := congrArg List.length only
    simp only [written_append, written_cons, Write.row_insert, of_row, Option.toList_some, List.length_append,
      List.length_cons, List.length_nil] at count
    exact List.eq_nil_of_length_eq_zero (by omega)
  refine Db.not_taken_iff.mp (inserted.fresh k hk) _ (slice.mem.mpr ?_)
  rw [slice.table_write, none]
  exact hy

theorem Slice.table_same (only : slice.written ws = []) : slice.table (db.write ws) = slice.table db := by
  rw [slice.table_write, only]
  rfl

end

/-! ## The movement of a record -/

/-- The accounts and amounts of a movement between two accounts. -/
theorem Records.pair {draws : Draws} {reference : String} {currency : Currency} {description : Option String}
    {a b : Uuid} {x y : Int} {m : Movement}
    (h : Records draws ⟨reference, currency, description, [⟨a.text, x⟩, ⟨b.text, y⟩]⟩ m) :
    m.postings.map (fun p => (p.accountId, p.amountMinor)) = [(a, x), (b, y)] := by
  have pairs := map_eq_map_of_forall₂ h.postings (f := fun p => (p.accountId, p.amountMinor))
    (g := fun row => (row.accountId.text, row.amountMinor)) fun p row ⟨named, amount⟩ => by rw [named, amount]
  have texts := congrArg (List.map fun q : String × Int => (Uuid.parse? q.1, q.2)) pairs
  simp only [List.map_cons, List.map_nil, List.map_map, Function.comp_def, Uuid.parse?_text] at texts
  have named : (m.postings.map fun p => (p.accountId, p.amountMinor)).map (fun q => (some q.1, q.2)) =
      [(a, x), (b, y)].map fun q => (some q.1, q.2) := by
    simpa [Function.comp_def] using texts.symm
  exact List.map_injective_iff.mpr (fun p q same => by simpa [Prod.ext_iff] using same) named

theorem Posts.moves {m : Movement} {before after : Db} (h : Posts m before after) (sound : before.Sound)
    {debit credit : Uuid} {amount : Int} (pair : (m.postings.map fun p => (p.accountId, p.amountMinor)).Perm
      [(debit, -amount), (credit, amount)]) :
    after.Moves m.opened.id m.opened.reference m.opened.currency debit credit amount where
  transaction := by
    refine ⟨m.sealed, ?_, rfl, rfl, rfl, rfl⟩
    rw [Table.mem_def, h.ledgerTransactions]
    simp
  postings := by
    rw [Books.postingsOf_moved h sound, if_pos rfl]
    exact pair

/-! ## What a commit did -/

/-- A payment as it is created: into a wallet of its user, under a reference without spaces around it. -/
structure Db.Places (db : Db) (p : Payment) : Prop where
  wallet : ∃ w ∈ db.wallets, w.id = p.walletId ∧ w.userId = p.userId ∧ w.currency = p.currency
  reference : jsTrim p.reference = p.reference

inductive QuietPayments (before after : Db) : Prop
  | same : after.payments = before.payments → QuietPayments before after
  | intended (p : Payment) : p.status = .pending → (∀ q ∈ before.payments, q.id ≠ p.id) → before.Places p →
      after.payments = before.payments.put p → QuietPayments before after
  | failed (q p : Payment) : q ∈ before.payments → q.status = .pending → p.status = .failed → p.identity = q.identity →
      after.payments = before.payments.put p → QuietPayments before after

/-- A commit that moves no money. -/
structure Quiet (before after : Db) : Prop where
  ledgers : Ledgers before after
  transactions : after.ledgerTransactions = before.ledgerTransactions
  transfers : after.transfers = before.transfers
  transferReversals : after.transferReversals = before.transferReversals
  payments : QuietPayments before after

inductive Booked (before after : Db) : Request → Prop
  | quiet {i} : Quiet before after → Booked before after i
  | posted {draws input} (m : Movement) (posts : Posts m before after) (transfers : after.transfers = before.transfers)
      (reversals : after.transferReversals = before.transferReversals) (payments : after.payments = before.payments) :
      Booked before after (.post draws input)
  | transferred {draws senderUserId header input} (m : Movement) (t : Transfer) (source destination : Wallet)
      (posts : Posts m before after) (transfers : after.transfers.rows = before.transfers.rows ++ [t])
      (reversals : after.transferReversals = before.transferReversals) (payments : after.payments = before.payments)
      (completed : t.status = .completed) (sender : t.senderUserId = senderUserId)
      (source_mem : source ∈ before.wallets) (source_id : source.id = t.sourceWalletId)
      (owned : source.userId = senderUserId) (destination_mem : destination ∈ before.wallets)
      (destination_id : destination.id = t.destinationWalletId) (ledger : m.opened.id = t.ledgerTransactionId)
      (reference : m.opened.reference = t.reference) (currency : m.opened.currency = t.currency)
      (pair : m.postings.map (fun p => (p.accountId, p.amountMinor)) =
        [(source.ledgerAccountId, -t.amountMinor), (destination.ledgerAccountId, t.amountMinor)]) :
      Booked before after (.createTransfer draws senderUserId header input)
  | reversed {draws actorUserId transferId header input} (m : Movement) (v : TransferReversal) (t : Transfer)
      (source destination : Wallet) (posts : Posts m before after) (transfers : after.transfers = before.transfers)
      (reversals : after.transferReversals.rows = before.transferReversals.rows ++ [v])
      (payments : after.payments = before.payments) (actor : v.actorUserId = actorUserId)
      (named : Uuid.parse? (toLowerCase transferId) = some t.id) (mem : t ∈ before.transfers) (id : t.id = v.transferId)
      (completed : t.status = .completed) (owned : t.senderUserId = actorUserId)
      (unreversed : ∀ r ∈ before.transferReversals, r.transferId ≠ t.id) (amount : t.amountMinor = v.amountMinor)
      (source_mem : source ∈ before.wallets) (source_id : source.id = t.sourceWalletId)
      (destination_mem : destination ∈ before.wallets) (destination_id : destination.id = t.destinationWalletId)
      (ledger : m.opened.id = v.ledgerTransactionId) (reference : m.opened.reference = v.reference)
      (currency : m.opened.currency = v.currency) (same : t.currency = v.currency)
      (pair : m.postings.map (fun p => (p.accountId, p.amountMinor)) =
        [(source.ledgerAccountId, v.amountMinor), (destination.ledgerAccountId, -v.amountMinor)]) :
      Booked before after (.createReversal draws actorUserId transferId header input)
  | credited {draws event provider} (m : Movement) (p p' : Payment) (clearing : LedgerAccount) (wallet : Wallet)
      (posts : Posts m before after) (transfers : after.transfers = before.transfers)
      (reversals : after.transferReversals = before.transferReversals)
      (payments : after.payments = before.payments.put p') (mem : p ∈ before.payments) (pending : p.status = .pending)
      (same : p'.identity = p.identity)
      (succeeded : p'.status = .succeeded) (ledger : p'.ledgerTransactionId = some m.opened.id)
      (matched : p.provider = provider ∧ p.reference = event.reference)
      (clearing_mem : clearing ∈ before.ledgerAccounts) (clearing_key : clearing.systemKey = some (clearingKey p.currency))
      (wallet_mem : wallet ∈ before.wallets) (wallet_id : wallet.id = p.walletId)
      (reference : m.opened.reference = jsTrim p.reference) (currency : m.opened.currency = p.currency)
      (pair : m.postings.map (fun p => (p.accountId, p.amountMinor)) =
        [(clearing.id, -p.amountMinor), (wallet.ledgerAccountId, p.amountMinor)]) :
      Booked before after (.settle draws event provider)

theorem Deed.booked {base : Nat → Db} {now : Db} {i : Request} {ws : List Write} (h : Deed base i ws)
    (accepts : Accepts now ws) (earlier : ∀ n, now.Extends (base n)) (ledgers : Ledgers now (now.write ws)) :
    Booked now (now.write ws) i := by
  have wallet {n : Nat} {w : Wallet} (hw : w ∈ (base n).wallets) : ∃ w' ∈ now.wallets, w'.id = w.id ∧
      w'.userId = w.userId ∧ w'.ledgerAccountId = w.ledgerAccountId ∧ w'.currency = w.currency := by
    obtain ⟨w', hw', same⟩ := (earlier n).wallet hw
    exact ⟨w', hw', Wallet.identity_eq.mp same⟩
  cases h with
  | aside side =>
      have same {ρ : Type} [Keyed ρ Uuid] (slice : Slice ρ) (record : ∀ x, (slice.row x).isRecord)
          (other : slice.name ∉ [.outboxEvent, .webhookDelivery]) : slice.table (now.write ws) = slice.table now :=
        slice.table_same (aside_written side record other)
      exact .quiet ⟨ledgers, same .ledgerTransactions (fun _ => rfl) (by simp), same .transfers (fun _ => rfl) (by simp),
        same .transferReversals (fun _ => rfl) (by simp), .same (same .payments (fun _ => rfl) (by simp))⟩
  | posted m records =>
      have posts := @Posts.of_accepts m now [] [] (by simpa using accepts) .nil .nil
      rw [List.nil_append, List.append_nil] at posts
      exact .posted m posts (Slice.transfers.table_same (by simp)) (Slice.transferReversals.table_same (by simp))
        (Slice.payments.table_same (by simp))
  | @transferred draws senderUserId header input claim done request t ws transferred =>
      obtain ⟨source, destination, beneficiaryId, m, events, source_mem, owned, _, destination_mem, _, _, _, _, records,
        announces⟩ := transferred
      obtain ⟨source', mem, id, user, account, _⟩ := wallet source_mem
      obtain ⟨destination', mem', id', _, account', _⟩ := wallet destination_mem
      set t := TransfersService.completedTransfer draws senderUserId source destination beneficiaryId m.opened.id
        request.amountMinor
      have posts := @Posts.of_accepts m now [.insert (.idempotencyRecord claim)]
        ([.insert (.transfer t), .insert (.auditLog (TransfersService.createdAudit draws t))] ++ events ++
          [.update (.idempotencyRecord claim) (.idempotencyRecord done)]) (by simpa using accepts)
        (.cons (by simp [Row.isLedger]) .nil)
        (((Clear.cons (by simp [Row.isLedger]) (.cons (by simp [Row.isLedger]) .nil)).append announces.clear).append
          (.cons (by simp [Row.isLedger]) .nil))
      refine .transferred m t source' destination' ?_ (Slice.transfers.rows_insert accepts (by simp) ?_)
        (Slice.transferReversals.table_same ?_) (Slice.payments.table_same ?_) rfl rfl mem id (user.trans owned) mem' id'
        rfl (records.reference.trans (jsTrim_append_text rfl _)) records.currency ?_
      · simpa using posts
      · simp [announces.written]
      · simp [announces.written]
      · simp [announces.written]
      · rw [account, account']
        exact records.pair
  | @reversed draws actorUserId transferId header input claim done v ws reversed =>
      obtain ⟨t, source, destination, m, events, transfer_mem, named, owned, completed, unreversed, source_mem, source_id, _,
        destination_mem, destination_id, _, records, announces⟩ := reversed
      obtain ⟨source', mem, id, _, account, _⟩ := wallet source_mem
      obtain ⟨destination', mem', id', _, account', _⟩ := wallet destination_mem
      have there : t ∈ now.transfers :=
        (earlier 0).frozen (r := .transfer t) transfer_mem (Row.fixed_of_completed completed).frozen
      set v := ReversalsService.newReversal draws actorUserId t m.opened.id
        (ReversalsService.normalizeRequest transferId input).reason
      have posts := @Posts.of_accepts m now [.insert (.idempotencyRecord claim)]
        ([.insert (.transferReversal v), .insert (.auditLog (ReversalsService.reversedAudit draws v))] ++ events ++
          [.update (.idempotencyRecord claim) (.idempotencyRecord done)]) (by simpa using accepts)
        (.cons (by simp [Row.isLedger]) .nil)
        (((Clear.cons (by simp [Row.isLedger]) (.cons (by simp [Row.isLedger]) .nil)).append announces.clear).append
          (.cons (by simp [Row.isLedger]) .nil))
      refine .reversed m v t source' destination' ?_ (Slice.transfers.table_same ?_)
        (Slice.transferReversals.rows_insert accepts (by simp) ?_) (Slice.payments.table_same ?_) rfl named there rfl
        completed owned ?_ rfl mem (id.trans source_id) mem' (id'.trans destination_id) rfl
        (records.reference.trans (jsTrim_append_text rfl _)) records.currency rfl ?_
      · simpa using posts
      · simp [announces.written]
      · simp [announces.written]
      · simp [announces.written]
      · intro r hr same
        refine Slice.transferReversals.free_of_insert accepts (x := v) (by simp) (by simp [announces.written]) hr
          (k := .reversalTransfer t.id) ?_ ?_
        · simp [Row.keys, Row.slots, v, ReversalsService.newReversal]
        · simp [Row.keys, Row.slots, same]
      · rw [account, account']
        exact records.pair
  | @intended draws usePaystack userId header input n w key hash amount mem owned =>
      obtain ⟨w', hw', id, user, _, currency⟩ := wallet mem
      refine .quiet ⟨ledgers, rfl, rfl, rfl, .intended _ rfl (Slice.payments.fresh_of_insert accepts ?_) ?_ rfl⟩
      · simp
      · refine ⟨⟨w', hw', id, user.trans owned, currency⟩, ?_⟩
        cases paystack : usePaystack
        · exact jsTrim_append_text (w := "payment" ++ ":") rfl draws.reference
        · exact jsTrim_append_text (w := "payment" ++ "-") rfl draws.reference
  | @settled draws event provider outcome ws attempt settles =>
      cases settles with
      | duplicate _ _ _ _ _ _ _ _ => exact .quiet ⟨ledgers, rfl, rfl, rfl, .same rfl⟩
      | repeated _ _ _ _ _ => exact .quiet ⟨ledgers, rfl, rfl, rfl, .same rfl⟩
      | failed p events _ matched _ pending status announces =>
          have there : p ∈ now.payments := by
            obtain ⟨_, updated, _⟩ := accepts
            exact updated.mem
          refine .quiet ⟨ledgers, Slice.ledgerTransactions.table_same ?_, Slice.transfers.table_same ?_,
            Slice.transferReversals.table_same ?_,
            .failed p (PaymentsService.terminated (draws attempt) event none p) there pending status rfl ?_⟩
          · simp [announces.written]
          · simp [announces.written]
          · simp [announces.written]
          · have table := Slice.payments.table_write now ([.insert (.providerEvent
              (PaymentsService.evidence (draws attempt) p event provider)), .update (.payment p)
                (.payment (PaymentsService.terminated (draws attempt) event none p))] ++ events)
            simpa [announces.written] using table
      | succeeded p w clearing m events _ matched _ pending status wallet_mem wallet_id clearing_mem clearing_key records
          announces =>
          obtain ⟨w', mem, id, _, account, _⟩ := wallet wallet_mem
          obtain ⟨clearing', mem', same⟩ := (earlier 0).account clearing_mem
          obtain ⟨cid, _, _, _, ckey⟩ := LedgerAccount.identity_eq.mp same
          set p' := PaymentsService.terminated (draws attempt) event (some m.opened.id) p with hp'
          have split : .insert (.providerEvent (PaymentsService.evidence (draws attempt) p event provider)) ::
              (m.writes ++ [.update (.payment p) (.payment p')] ++ events) =
              [.insert (.providerEvent (PaymentsService.evidence (draws attempt) p event provider))] ++ m.writes ++
                (.update (.payment p) (.payment p') :: events) := by simp
          have posts := Posts.of_accepts (split ▸ accepts) (.cons (by simp [Row.isLedger]) .nil)
            (.cons (by simp [Row.isLedger]) announces.clear)
          rw [← split] at posts
          have there : p ∈ now.payments := by
            rw [split, accepts_append] at accepts
            rw [← Slice.payments_table, ← @Slice.table_same _ _ Slice.payments now ([.insert (.providerEvent
              (PaymentsService.evidence (draws attempt) p event provider))] ++ m.writes) (by simp)]
            exact accepts.2.1.mem
          refine .credited m p p' clearing' w' posts (Slice.transfers.table_same ?_) (Slice.transferReversals.table_same ?_) ?_
            there pending rfl status rfl ⟨matched.provider, matched.reference⟩ mem' (ckey.trans clearing_key) mem
            (id.trans wallet_id) records.reference records.currency ?_
          · simp [announces.written]
          · simp [announces.written]
          · have table := Slice.payments.table_write now (.insert (.providerEvent
              (PaymentsService.evidence (draws attempt) p event provider)) :: (m.writes ++ [.update (.payment p) (.payment p')] ++ events))
            simpa [announces.written] using table
          · rw [cid, account]
            exact records.pair

end Fintech
