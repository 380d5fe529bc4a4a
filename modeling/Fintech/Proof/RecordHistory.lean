import Fintech.Model.Records
import Fintech.Proof.LedgerHistory

/-!
# Business records at the database

Transfers, reversals and payments match the ledger in every committed state: the constraint triggers
check them when they are written, and everything that the triggers read is frozen afterwards.
-/

namespace Fintech
open Relational Transactional

/-! ## What the constraint triggers accept -/

section
variable {db : Db}

/-- Two postings, one debit and one credit: nothing else moves. -/
theorem pair_of_counts {id : Uuid} {debit credit : Option Uuid} {amount : Int} (positive : 0 < amount)
    (two : (db.postingsOf id).length = 2) (debits : db.postingCount id debit (-amount) = 1)
    (credits : db.postingCount id credit amount = 1) : ∃ d c, debit = some d ∧ credit = some c ∧
      ((db.postingsOf id).map fun p => (p.accountId, p.amountMinor)).Perm [(d, -amount), (c, amount)] := by
  obtain ⟨p, q, e⟩ := List.length_eq_two.mp two
  have apart : -amount ≠ amount := by omega
  have opposite {x : LedgerPosting} (h : x.amountMinor = -amount) : x.amountMinor ≠ amount := h ▸ apart
  rw [Db.postingCount, e] at debits credits
  simp only [List.countP_cons, List.countP_nil, decide_eq_true_eq] at debits credits
  rw [e]
  by_cases first : some p.accountId = debit ∧ p.amountMinor = -amount
  · have other : ¬ (some p.accountId = credit ∧ p.amountMinor = amount) := fun h => opposite first.2 h.2
    rw [if_neg other] at credits
    have second : some q.accountId = credit ∧ q.amountMinor = amount := by
      by_contra no
      simp [no] at credits
    exact ⟨_, _, first.1.symm, second.1.symm, by simp [first.2, second.2]⟩
  · rw [if_neg first] at debits
    have second : some q.accountId = debit ∧ q.amountMinor = -amount := by
      by_contra no
      simp [no] at debits
    have other : ¬ (some q.accountId = credit ∧ q.amountMinor = amount) := fun h => opposite second.2 h.2
    rw [if_neg other] at credits
    have third : some p.accountId = credit ∧ p.amountMinor = amount := by
      by_contra no
      simp [no] at credits
    exact ⟨_, _, second.1.symm, third.1.symm, by simpa [second.2, third.2] using List.Perm.swap _ _ _⟩

theorem hasSealed_eq {id : Uuid} {currency : Currency} {reference : String} (h : db.hasSealed id currency reference) :
    ∃ t ∈ db.ledgerTransactions, t.id = id ∧ t.sealedAt.isSome ∧ t.reference = reference ∧ t.currency = currency := by
  obtain ⟨t, found, fits⟩ := (Option.any_eq_true _ _).mp h
  obtain ⟨ht, on⟩ := Table.find?_eq_some.mp found
  simp only [Bool.and_eq_true, beq_iff_eq] at fits
  exact ⟨t, ht, on, fits.1.1, fits.2, fits.1.2⟩

/-- The two postings as the triggers check them. -/
theorem moves_of_checks {id : Uuid} {currency : Currency} {reference : String} {debit credit : Option Uuid} {amount : Int}
    (positive : 0 < amount) (isSealed : db.hasSealed id currency reference)
    (two : (db.postingsOf id).length = 2) (debits : db.postingCount id debit (-amount) = 1)
    (credits : db.postingCount id credit amount = 1) :
    ∃ d c, debit = some d ∧ credit = some c ∧ db.Moves id reference currency d c amount := by
  obtain ⟨d, c, hd, hc, perm⟩ := pair_of_counts positive two debits credits
  exact ⟨d, c, hd, hc, hasSealed_eq isSealed, perm⟩

theorem accountOf_eq_some {walletId account : Uuid} (h : db.accountOf walletId = some account) :
    ∃ w ∈ db.wallets, w.id = walletId ∧ w.ledgerAccountId = account ∧ db.wallets.find? walletId = some w := by
  obtain ⟨w, found, same⟩ := Option.map_eq_some_iff.mp h
  obtain ⟨hw, id⟩ := Table.find?_eq_some.mp found
  exact ⟨w, hw, id, same, found⟩

theorem validateTransferIntegrity_backed {t : Transfer} (completed : t.status = .completed) (positive : 0 < t.amountMinor)
    (h : validateTransferIntegrity db t = .ok ()) : Backed db (.transfer t) := by
  rw [validateTransferIntegrity, if_neg (not_not.mpr completed)] at h
  obtain ⟨owner, h⟩ := bind_unit_eq_ok.mp h
  obtain ⟨_, h⟩ := bind_unit_eq_ok.mp h
  obtain ⟨_, h⟩ := bind_unit_eq_ok.mp h
  obtain ⟨isSealed, postings⟩ := bind_unit_eq_ok.mp h
  rw [failIf_eq_ok, not_not] at owner isSealed
  rw [failIf_eq_ok] at postings
  push Not at postings
  obtain ⟨_, _, source, destination, moves⟩ := moves_of_checks positive isSealed postings.1 postings.2.1 postings.2.2
  obtain ⟨w, hw, id, rfl, found⟩ := accountOf_eq_some source
  obtain ⟨x, hx, id', rfl, _⟩ := accountOf_eq_some destination
  rw [found] at owner
  exact .transfer w x completed hw id (of_decide_eq_true owner) hx id' moves

theorem transferAccounts_eq_some {transferId source destination : Uuid} {t : Transfer}
    (h : db.transferAccounts transferId = some (t, source, destination)) :
    t ∈ db.transfers ∧ t.id = transferId ∧ db.accountOf t.sourceWalletId = some source ∧
      db.accountOf t.destinationWalletId = some destination := by
  simp only [Db.transferAccounts, Option.bind_eq_bind, Option.bind_eq_some_iff, Option.pure_def, Option.some.injEq,
    Prod.mk.injEq] at h
  obtain ⟨t', found, source', hs, destination', hd, rfl, rfl, rfl⟩ := h
  obtain ⟨ht, id⟩ := Table.find?_eq_some.mp found
  exact ⟨ht, id, hs, hd⟩

/-- The audit row of a reversal. -/
def AuditLog.Of (l : AuditLog) (v : TransferReversal) : Prop :=
  l.reversalId = some v.id ∧ l.transferId = v.transferId ∧ l.actorUserId = v.actorUserId ∧ l.action = .transferReversed

theorem validateTransferReversalIntegrity_backed {v : TransferReversal} (positive : 0 < v.amountMinor)
    (h : validateTransferReversalIntegrity db v = .ok ()) :
    Backed db (.transferReversal v) ∧ ∃ l ∈ db.auditLogs, l.Of v := by
  obtain ⟨owner, h⟩ := bind_unit_eq_ok.mp h
  obtain ⟨equal, h⟩ := bind_unit_eq_ok.mp h
  obtain ⟨isSealed, h⟩ := bind_unit_eq_ok.mp h
  obtain ⟨postings, audits⟩ := bind_unit_eq_ok.mp h
  rw [failIf_eq_ok, not_not] at owner isSealed audits
  rw [failIf_eq_ok] at equal postings
  push Not at postings
  obtain ⟨_, _, destination, source, moves⟩ := moves_of_checks positive isSealed postings.1 postings.2.2 postings.2.1
  constructor
  · obtain ⟨⟨t, account, account'⟩, joined, rfl⟩ := Option.map_eq_some_iff.mp destination
    rw [joined] at owner equal source
    cases source
    obtain ⟨ht, id, hs, hd⟩ := transferAccounts_eq_some joined
    obtain ⟨w, hw, wid, rfl, _⟩ := accountOf_eq_some hs
    obtain ⟨x, hx, xid, rfl, _⟩ := accountOf_eq_some hd
    simp only [Option.any_some, decide_eq_true_eq] at owner equal
    push Not at equal
    exact .reversal t w x ht id equal.1 owner equal.2.1 equal.2.2 hw wid hx xid moves
  · obtain ⟨l, hl, fits⟩ := List.countP_pos_iff.mp (audits ▸ Nat.one_pos)
    exact ⟨l, hl, by simpa [AuditLog.Of] using fits⟩

/-- The evidence for a payment. -/
def ProviderEvent.Of (e : ProviderEvent) (p : Payment) : Prop :=
  e.paymentId = p.id ∧ e.provider = p.provider ∧ e.status = p.status

theorem validatePaymentIntegrity_backed {p : Payment} (hp : p ∈ db.payments) (positive : 0 < p.amountMinor)
    (terminal : p.status ≠ .pending) (h : validatePaymentIntegrity db p = .ok ()) :
    (p.status = .succeeded → Backed db (.payment p)) ∧ ∃ e ∈ db.providerEvents, e.Of p := by
  have found : db.payments.find? p.id = some p := Table.find?_key hp
  simp only [validatePaymentIntegrity, found] at h
  obtain ⟨owner, h⟩ := bind_unit_eq_ok.mp h
  rw [if_neg terminal] at h
  obtain ⟨evidence, h⟩ := bind_unit_eq_ok.mp h
  obtain ⟨_, h⟩ := bind_unit_eq_ok.mp h
  rw [failIf_eq_ok, not_not] at owner evidence
  constructor
  · intro succeeded
    rw [if_neg (by rw [succeeded]; decide)] at h
    obtain ⟨isSealed, postings⟩ := bind_unit_eq_ok.mp h
    rw [failIf_eq_ok, not_not] at isSealed
    rw [failIf_eq_ok] at postings
    obtain ⟨id, ledger, isSealed⟩ := (Option.any_eq_true _ _).mp isSealed
    rw [ledger] at postings
    simp only [Option.any_some, decide_eq_true_eq] at postings
    push Not at postings
    obtain ⟨_, _, debit, credit, moves⟩ := moves_of_checks positive isSealed postings.1 postings.2.2 postings.2.1
    obtain ⟨clearing, clearing_found, rfl⟩ := Option.map_eq_some_iff.mp debit
    obtain ⟨w, wallet_found, rfl⟩ := Option.map_eq_some_iff.mp credit
    obtain ⟨hw, wid⟩ := Table.find?_eq_some.mp wallet_found
    rw [wallet_found] at owner
    refine .payment id clearing w succeeded ledger (List.mem_of_find?_eq_some clearing_found) ?_ hw wid
      (of_decide_eq_true owner).1 moves
    simpa using List.find?_some clearing_found
  · obtain ⟨e, he, fits⟩ := List.any_eq_true.mp evidence
    exact ⟨e, he, by simpa [ProviderEvent.Of] using fits⟩

end

/-! ## Wallets that records name -/

/-- Some completed transfer or some payment names the wallet. -/
def Db.Named (db : Db) (id : Uuid) : Prop :=
  (∃ t ∈ db.transfers, t.status = .completed ∧ (id = t.sourceWalletId ∨ id = t.destinationWalletId)) ∨
    ∃ p ∈ db.payments, id = p.walletId

theorem protectPayment_eq_ok {s : Settings} {old new : Payment} (h : protectPayment s old new = .ok ()) :
    old.status = .pending ∧ new.status ≠ .pending ∧ new.identity = old.identity := by
  obtain ⟨_, h⟩ := bind_unit_eq_ok.mp h
  obtain ⟨pending, identity⟩ := bind_unit_eq_ok.mp h
  rw [failIf_eq_ok] at pending identity
  push Not at pending
  rw [not_not] at identity
  refine ⟨pending.1, pending.2, ?_⟩
  rw [identity]
  rfl

section
variable {allowed : WriteSetting → Bool → Prop} {start now : Db × Settings}

theorem Touches.payment (h : Touches allowed start now) {p : Payment} (hp : p ∈ start.1.payments) :
    ∃ p' ∈ now.1.payments, p'.identity = p.identity := by
  refine h.keptRow Slice.payments (P := fun p' => p'.identity = p.identity) (fun _ _ => nofun)
    (fun _ _ _ _ _ revision same => ?_) ⟨p, hp, rfl⟩
  exact (protectPayment_eq_ok revision.before).2.2.trans same

theorem Touches.completed (h : Touches allowed start now) {t : Transfer} (ht : t ∈ start.1.transfers)
    (completed : t.status = .completed) : t ∈ now.1.transfers :=
  h.fixed (r := .transfer t) ht (Row.fixed_of_completed completed) nofun

/-- A wallet that a record names keeps its id: the record could not follow. -/
theorem Touches.namedWallet (h : Touches allowed start now) {w : Wallet} (hw : w ∈ start.1.wallets)
    (named : start.1.Named w.id) : ∃ w' ∈ now.1.wallets, w'.identity = w.identity := by
  refine h.keptRow Slice.wallets (P := fun w' => w'.identity = w.identity) (fun _ _ => nofun)
    (fun db s old new before revision same => ?_) ⟨w, hw, rfl⟩
  obtain ⟨user, account, currency⟩ := Wallet.link_eq.mp (protectWallet_eq_ok revision.before).1
  have id : old.id = w.id := (Wallet.identity_eq.mp same).1
  rw [← same, Wallet.identity_eq]
  refine ⟨?_, user, account, currency⟩
  by_contra moved
  have followed := revision.followed fun e => moved (by simpa [Slice.wallets, Row.pk] using e)
  rcases named with ⟨t, ht, completed, names⟩ | ⟨p, hp, names⟩
  · have refers : (Row.wallet old).pk ∈ (Row.transfer t).references := by
      rcases names with e | e <;> simp [Row.pk, Row.references, id, e]
    exact Row.fixed_of_completed completed s _ (Row.table_follow _ _ _)
      (followed (.transfer t) (before.completed ht completed) refers)
  · obtain ⟨q, hq, same⟩ := before.payment hp
    have refers : (Row.wallet old).pk ∈ (Row.payment q).references := by
      simp [Row.pk, Row.references, id, names, (Payment.identity_eq.mp same).2.2.1]
    obtain ⟨pending, terminal, _⟩ := protectPayment_eq_ok (followed (.payment q) hq refers)
    exact terminal pending

end

/-! ## Committed states -/

structure RecordsMatch (db : Db) : Prop where
  transfers : ∀ t ∈ db.transfers, t.status = .completed → Backed db (.transfer t)
  reversals : ∀ v ∈ db.transferReversals, Backed db (.transferReversal v) ∧
    ∃ l ∈ db.auditLogs, l.Of v ∧ ∀ x ∈ db.auditLogs, x.reversalId = some v.id → x = l
  payments : ∀ p ∈ db.payments, p.status = .succeeded → Backed db (.payment p)
  evidence : ∀ p ∈ db.payments, p.status ≠ .pending → ∃ e ∈ db.providerEvents, e.Of p

structure RecordsKept (before after : Db) : Prop where
  transfers : ∀ t ∈ before.transfers, t.status = .completed → t ∈ after.transfers
  reversals : ∀ v ∈ before.transferReversals, v ∈ after.transferReversals
  payments : ∀ p ∈ before.payments, p.status ≠ .pending → p ∈ after.payments
  auditLogs : ∀ l ∈ before.auditLogs, l ∈ after.auditLogs
  providerEvents : ∀ e ∈ before.providerEvents, e ∈ after.providerEvents

theorem RecordsKept.refl (db : Db) : RecordsKept db db :=
  ⟨fun _ h _ => h, fun _ h => h, fun _ h _ => h, fun _ h => h, fun _ h => h⟩

theorem RecordsKept.trans {a b c : Db} (h : RecordsKept a b) (h' : RecordsKept b c) : RecordsKept a c where
  transfers t ht completed := h'.transfers t (h.transfers t ht completed) completed
  reversals v hv := h'.reversals v (h.reversals v hv)
  payments p hp terminal := h'.payments p (h.payments p hp terminal) terminal
  auditLogs l hl := h'.auditLogs l (h.auditLogs l hl)
  providerEvents e he := h'.providerEvents e (h.providerEvents e he)

theorem Opening.recordsMatch {db : Db} (h : Opening db) : RecordsMatch db where
  transfers t ht := by simp [h.transfers] at ht
  reversals v hv := by simp [h.transferReversals] at hv
  payments p hp := by simp [h.payments] at hp
  evidence p hp := by simp [h.payments] at hp

section
variable {allowed : WriteSetting → Bool → Prop} {before after : Db} {s s' : Settings}

theorem Touches.records (h : Touches allowed (before, s) (after, s')) : RecordsKept before after where
  transfers _ ht completed := h.completed ht completed
  reversals v hv := h.fixed (r := .transferReversal v) hv (Row.fixed_of_isHistory rfl) nofun
  payments p hp terminal := h.fixed (r := .payment p) hp (Row.fixed_of_terminal terminal) nofun
  auditLogs l hl := h.fixed (r := .auditLog l) hl (Row.fixed_of_isHistory rfl) nofun
  providerEvents e he := h.fixed (r := .providerEvent e) he (Row.fixed_of_isHistory rfl) nofun

theorem Touches.retains (h : Touches allowed (before, s) (after, s')) (kept : LedgerKept before after) :
    Retains before.Named before after where
  transactions := kept.transactions
  postings _ ht := kept.postingsOf_perm ht
  accounts _ _ _ _ a ha _ := kept.accounts a ha
  wallets _ hw named := h.namedWallet hw named
  transfers _ ht completed := h.completed ht completed

theorem RecordsMatch.transact (h : RecordsMatch before) (committed : before.Committed)
    (touches : Touches allowed (before, {}) (after, s)) (due : ∀ r ∈ s.deferred, atCommit after r = .ok ()) :
    RecordsMatch after := by
  have records := touches.records
  have retains := touches.retains (committed.kept touches)
  have now := committed.transact touches due
  have checked {r : Row} (hr : r ∈ after) {c : String × Bool} (mem : c ∈ r.checks) : c.2 = true :=
    (Row.accept_eq_ok.mp (now.checked r hr)).2 c mem
  have accepted (p : Payment) (hp : p ∈ after.payments) (terminal : p.status ≠ .pending)
      (new : Row.payment p ∈ s.deferred) := by
    have positive := checked (r := .payment p) hp (c := ("Payment_amount_check", 0 < p.amountMinor)) (by simp [Row.checks])
    exact validatePaymentIntegrity_backed hp (of_decide_eq_true positive) terminal (due _ new)
  refine ⟨fun t ht completed => ?_, fun v hv => ?_, fun p hp succeeded => ?_, fun p hp terminal => ?_⟩
  · rcases touches.due (r := .transfer t) ht (by simp [Row.table]) with old | new
    · exact (h.transfers t old completed).retained retains fun _ names => .inl ⟨t, old, completed, names⟩
    · have positive := checked (r := .transfer t) ht (c := ("Transfer_positive_amount_check", 0 < t.amountMinor))
        (by simp [Row.checks])
      exact validateTransferIntegrity_backed completed (of_decide_eq_true positive) (due _ new)
  · have backed : Backed after (.transferReversal v) ∧ ∃ l ∈ after.auditLogs, l.Of v := by
      rcases touches.due (r := .transferReversal v) hv (by simp [Row.table]) with old | new
      · obtain ⟨backed, l, hl, of, _⟩ := h.reversals v old
        refine ⟨backed.retained retains ?_, l, records.auditLogs l hl, of⟩
        rintro id ⟨t, ht, completed, _, names⟩
        exact .inl ⟨t, ht, completed, names⟩
      · have positive := checked (r := .transferReversal v) hv
          (c := ("TransferReversal_positive_amount_check", 0 < v.amountMinor)) (by simp [Row.checks])
        exact validateTransferReversalIntegrity_backed (of_decide_eq_true positive) (due _ new)
    obtain ⟨backed, l, hl, of⟩ := backed
    refine ⟨backed, l, hl, of, fun x hx same => ?_⟩
    have slot : Row.auditLog x = Row.auditLog l :=
      now.distinct _ hx _ hl (.auditReversal v.id) (by simp [Row.keys, Row.slots, same]) (by simp [Row.keys, Row.slots, of.1])
    simpa using slot
  · rcases touches.due (r := .payment p) hp (by simp [Row.table]) with old | new
    · exact (h.payments p old succeeded).retained retains fun _ names => .inr ⟨p, old, names⟩
    · exact (accepted p hp (by rw [succeeded]; decide) new).1 succeeded
  · rcases touches.due (r := .payment p) hp (by simp [Row.table]) with old | new
    · obtain ⟨e, he, of⟩ := h.evidence p old terminal
      exact ⟨e, records.providerEvents e he, of⟩
    · exact (accepted p hp terminal new).2

end

theorem Db.Leads.records {before after : Db} (h : before.Leads after) (committed : before.Committed)
    (records : RecordsMatch before) : RecordsMatch after ∧ RecordsKept before after := by
  induction h with
  | refl => exact ⟨records, .refl _⟩
  | tail leads commits ih =>
      obtain ⟨sts, done⟩ := commits
      obtain ⟨s, touches, due⟩ := transact_touches (fun _ _ => True) (fun _ _ _ => trivial) done
      exact ⟨ih.1.transact (Db.Leads.committed leads committed).1 touches due, ih.2.trans touches.records⟩

/-- Whatever transactions the database accepts, the records of every committed state match the ledger, and
what is final stays. -/
theorem records_history {initial db later : Db} (opening : Opening initial) (h : initial.Leads db) (h' : db.Leads later) :
    RecordsMatch db ∧ RecordsMatch later ∧ RecordsKept db later := by
  have now := h.records opening.committed opening.recordsMatch
  have after := h'.records (h.committed opening.committed).1 now.1
  exact ⟨now.1, after.1, after.2⟩

/-! ## A run -/

def sampleTransfer : Transfer where
  id := sampleUuid 4 6
  reference := "movement 4"
  senderUserId := sampleUuid 1 0
  sourceWalletId := sampleUuid 1 1
  destinationWalletId := sampleUuid 3 1
  ledgerTransactionId := sampleUuid 4 3
  currency := .usd
  amountMinor := 2000
  status := .completed
  createdAt := 0
  completedAt := some 0

/-- The funded wallet sends money to a second one. -/
def sampleTransferred : List RowStatement :=
  sampleOpened 3 "obi@example.com" ++
    samplePosted 4 { sampleAccount 1 with balanceMinor := 5000 } (sampleAccount 3) 2000 ++
    [.setConfig .transfer true, .plain (.transfer sampleTransfer)]

theorem sampleTransferred_commits : (sampleFunded.transact sampleTransferred).toOption.map
    (fun db => (db.wallets.rows.map Wallet.currentBalanceMinor, db.transfers.rows)) =
      some ([3000, 2000], [sampleTransfer]) := by
  decide +kernel

theorem records_history_sample : ∃ db : Db, db.wallets.rows.map Wallet.currentBalanceMinor = [3000, 2000] ∧
    db.transfers.rows = [sampleTransfer] ∧ RecordsMatch sampleFunded ∧ RecordsMatch db ∧ RecordsKept sampleFunded db := by
  obtain ⟨db, committed, tables⟩ := Option.map_eq_some_iff.mp sampleTransferred_commits
  cases done : sampleFunded.transact sampleTransferred with
  | error e => simp [done, Except.toOption] at committed
  | ok after =>
      obtain rfl : after = db := by simpa [done, Except.toOption] using committed
      obtain ⟨balances, transfers⟩ := Prod.mk.injEq .. ▸ tables
      exact ⟨after, balances, transfers, records_history migrated_opening
        (sampleFunded_leads.1.trans sampleFunded_leads.2) (.single ⟨sampleTransferred, done⟩)⟩

end Fintech
