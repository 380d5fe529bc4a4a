import Fintech.Library.Answers
import Fintech.Proof.Accounted
import Fintech.Proof.RecordHistory
import Fintech.Proof.SideRecords

/-!
# A payment is settled once

What a settlement does to its payment, to the evidence and to the money, whichever events arrive, how
often and in whatever order.
-/

namespace Fintech
open Relational Transactional DoubleEntry

/-- The tables of the ledger and the wallets are the same. -/
structure SameMoney (before after : Db) : Prop where
  ledgerAccounts : after.ledgerAccounts = before.ledgerAccounts
  wallets : after.wallets = before.wallets
  ledgerTransactions : after.ledgerTransactions = before.ledgerTransactions
  ledgerPostings : after.ledgerPostings = before.ledgerPostings

/-- The one ledger transaction that is new credits the payment's wallet from the clearing account. -/
structure Credits (before after : Db) (p p' : Payment) : Prop where
  transaction : ∃ t, after.ledgerTransactions.rows = before.ledgerTransactions.rows ++ [t] ∧
    p'.ledgerTransactionId = some t.id ∧ t.reference = p.reference ∧ t.currency = p.currency
  wallets : ∀ w ∈ before.wallets, ∃ w' ∈ after.wallets, w'.identity = w.identity ∧
    w'.currentBalanceMinor = w.currentBalanceMinor + if w.id = p.walletId then p.amountMinor else 0
  clearing : ∀ a ∈ before.ledgerAccounts, a.systemKey = some (clearingKey p.currency) →
    ∃ a' ∈ after.ledgerAccounts, a'.identity = a.identity ∧ a'.balanceMinor = a.balanceMinor - p.amountMinor
  others : ∀ a ∈ before.ledgerAccounts, a.kind = .system → a.systemKey ≠ some (clearingKey p.currency) →
    a ∈ after.ledgerAccounts

/-- What a settlement of the event commits. -/
inductive Settling (before after : Db) (event : VerifiedPaymentEvent) (provider : PaymentProvider) : Prop
  | known (money : SameMoney before after) (payments : after.payments = before.payments)
      (evidence : after.providerEvents = before.providerEvents) (notices : after.notices = before.notices) :
      Settling before after event provider
  | repeated (p : Payment) (e : ProviderEvent) (mem : p ∈ before.payments)
      (matched : PaymentsService.Matches event provider p) (status : p.status = event.status) (about : e.Of p)
      (money : SameMoney before after) (payments : after.payments = before.payments)
      (evidence : after.providerEvents.rows = before.providerEvents.rows ++ [e]) (notices : after.notices = before.notices) :
      Settling before after event provider
  | concluded (p p' : Payment) (e : ProviderEvent) (mem : p ∈ before.payments)
      (matched : PaymentsService.Matches event provider p) (pending : p.status = .pending)
      (same : p'.identity = p.identity) (status : p'.status = event.status) (about : e.Of p')
      (payments : after.payments = before.payments.put p')
      (evidence : after.providerEvents.rows = before.providerEvents.rows ++ [e])
      (money : if event.status = .succeeded then Credits before after p p' else SameMoney before after) :
      Settling before after event provider

section
variable {base : Nat → Db} {now : Db} {ws : List Write}

theorem sameMoney_of_written (h : ∀ {ρ : Type} [Keyed ρ Uuid] (slice : Slice ρ),
    slice.name ∈ [.ledgerAccount, .wallet, .ledgerTransaction, .ledgerPosting] → slice.written ws = []) :
    SameMoney now (now.write ws) where
  ledgerAccounts := Slice.ledgerAccounts.table_same (h _ (by simp))
  wallets := Slice.wallets.table_same (h _ (by simp))
  ledgerTransactions := Slice.ledgerTransactions.table_same (h _ (by simp))
  ledgerPostings := Slice.ledgerPostings.table_same (h _ (by simp))

theorem Db.Sound.kind_of_systemKey {db : Db} (sound : db.Sound) {a : LedgerAccount} (ha : a ∈ db.ledgerAccounts) {name : String}
    (systemKey : a.systemKey = some name) : a.kind = .system := by
  have policy := Books.checked sound (r := .ledgerAccount a) ha
    (c := ("LedgerAccount_kind_policy_check", (a.kind == .system && a.systemKey.isSome) ||
      (a.kind == .wallet && a.systemKey.isNone && !a.allowNegative))) (by simp [Row.checks])
  simpa [systemKey] using policy

theorem Posts.credits {m : Movement} {before after : Db} (posts : Posts m before after) (sound : before.Sound)
    (books : Books before) {p p' : Payment} {wallet : Wallet} {clearing : LedgerAccount} (trimmed : jsTrim p.reference = p.reference)
    (ledger : p'.ledgerTransactionId = some m.opened.id)
    (clearing_mem : clearing ∈ before.ledgerAccounts) (clearing_key : clearing.systemKey = some (clearingKey p.currency))
    (wallet_mem : wallet ∈ before.wallets) (wallet_id : wallet.id = p.walletId)
    (reference : m.opened.reference = jsTrim p.reference) (currency : m.opened.currency = p.currency)
    (pair : m.postings.map (fun p => (p.accountId, p.amountMinor)) =
      [(clearing.id, -p.amountMinor), (wallet.ledgerAccountId, p.amountMinor)]) : Credits before after p p' where
  transaction := ⟨m.sealed, posts.ledgerTransactions, ledger, reference.trans trimmed, currency⟩
  wallets := by
    intro w hw
    refine ⟨m.onWallet w, ?_, Wallet.identity_eq.mpr (by simp), ?_⟩
    · rw [posts.wallets_modify sound fun w hw a ha same => books.kind_of_owned hw ha same]
      exact Table.mem_modify.mpr ⟨w, hw, rfl⟩
    · have other : clearing.id ≠ w.ledgerAccountId := by
        intro on
        cases (books.kind_of_owned hw clearing_mem on).symm.trans (sound.kind_of_systemKey clearing_mem clearing_key)
      rw [Movement.onWallet_balance, Movement.amount_of_pair pair, if_neg other, zero_add, ← wallet_id]
      simp only [sound.wallet_eq wallet_mem hw, eq_comm]
  clearing := by
    intro a ha systemKey
    have same : Row.ledgerAccount a = .ledgerAccount clearing := by
      refine sound.unique _ ha _ clearing_mem (.accountSystemKey (Fintech.clearingKey p.currency)) ?_ ?_
      · simp [Row.keys, Row.slots, systemKey]
      · simp [Row.keys, Row.slots, clearing_key]
    obtain rfl : a = clearing := Row.ledgerAccount.inj same
    have other : wallet.ledgerAccountId ≠ a.id := by
      intro on
      cases (books.kind_of_owned wallet_mem ha on.symm).symm.trans (sound.kind_of_systemKey ha clearing_key)
    refine ⟨m.onAccount a, ?_, LedgerAccount.identity_eq.mpr ⟨rfl, rfl, rfl, rfl, rfl⟩, ?_⟩
    · rw [posts.ledgerAccounts]
      exact Table.mem_modify.mpr ⟨a, ha, rfl⟩
    · rw [Movement.onAccount_balance, Movement.amount_of_pair pair, if_pos rfl, if_neg other]
      omega
  others := by
    intro a ha kind other
    rw [posts.ledgerAccounts]
    refine Table.mem_modify.mpr ⟨a, ha, ?_⟩
    have notClearing : clearing.id ≠ a.id := fun same =>
      other ((Table.eq_of_key_eq ha clearing_mem same.symm : a = clearing) ▸ clearing_key)
    have notWallet : wallet.ledgerAccountId ≠ a.id := by
      intro on
      cases (books.kind_of_owned wallet_mem ha on.symm).symm.trans kind
    rw [Movement.onAccount, Movement.amount_of_pair pair, if_neg notClearing, if_neg notWallet]
    simp

/-- What a settlement did, where it commits. -/
theorem PaymentsService.Settles.settling {draws : Draws} {event : VerifiedPaymentEvent} {provider : PaymentProvider}
    {outcome : AttemptOutcome} (h : Settles (base 0) draws event provider outcome ws) (accepts : Accepts now ws)
    (earlier : now.Extends (base 0)) (sound : now.Sound) (books : Books now) (placed : ∀ p ∈ now.payments, now.Places p) :
    Settling now (now.write ws) event provider := by
  cases h with
  | duplicate payment existing _ _ _ _ _ _ => exact .known ⟨rfl, rfl, rfl, rfl⟩ rfl rfl rfl
  | repeated p mem matched _ status =>
      have terminal : p.status ≠ .pending := status ▸ event.terminal
      have there : p ∈ now.payments := earlier.frozen (r := .payment p) mem (Row.fixed_of_terminal terminal).frozen
      refine .repeated p (evidence draws p event provider) there matched status ⟨rfl, matched.provider.symm, status.symm⟩
        ⟨rfl, rfl, rfl, rfl⟩ rfl ?_ rfl
      exact Slice.providerEvents.rows_insert accepts (List.mem_singleton_self _) (by simp)
  | failed p events mem matched _ pending status announces =>
      have there : p ∈ now.payments := (accepts_append.mp accepts).1.2.1.mem
      have payments := Slice.payments.table_write now ([.insert (.providerEvent (evidence draws p event provider)),
        .update (.payment p) (.payment (terminated draws event none p))] ++ events)
      rw [Slice.written_append, announces.written (by simp)] at payments
      refine .concluded p (terminated draws event none p) (evidence draws p event provider) there matched pending rfl rfl
        ⟨rfl, matched.provider.symm, rfl⟩ payments ?_ ?_
      · exact Slice.providerEvents.rows_insert accepts (by simp) (by simp [announces.written])
      · rw [if_neg (by rw [status]; decide)]
        refine sameMoney_of_written fun slice name => ?_
        rw [Slice.written_append, announces.written (by simp at name ⊢; grind), List.append_nil]
        exact slice.written_others (by simp [Row.table]; grind)
  | succeeded p wallet clearing m events mem matched _ pending status wallet_mem wallet_id clearing_mem clearing_key
      records announces =>
      obtain ⟨wallet', wallet'_mem, same⟩ := earlier.wallet wallet_mem
      obtain ⟨id, _, account, _⟩ := Wallet.identity_eq.mp same
      obtain ⟨clearing', clearing'_mem, kept⟩ := earlier.account clearing_mem
      obtain ⟨cid, _, _, _, ckey⟩ := LedgerAccount.identity_eq.mp kept
      have split : .insert (.providerEvent (evidence draws p event provider)) :: (m.writes ++
          [.update (.payment p) (.payment (terminated draws event (some m.opened.id) p))] ++ events) =
          [.insert (.providerEvent (evidence draws p event provider))] ++ m.writes ++
            (.update (.payment p) (.payment (terminated draws event (some m.opened.id) p)) :: events) := by simp
      have posts := Posts.of_accepts (split ▸ accepts) (.cons (by simp [Row.isLedger]) .nil)
        (.cons (by simp [Row.isLedger]) announces.clear)
      rw [← split] at posts
      have there : p ∈ now.payments := by
        have updates := accepts
        rw [split, accepts_append] at updates
        rw [← Slice.payments_table, ← @Slice.table_same _ _ Slice.payments now ([.insert (.providerEvent
          (evidence draws p event provider))] ++ m.writes) (by simp)]
        exact updates.2.1.mem
      have payments := Slice.payments.table_write now (.insert (.providerEvent (evidence draws p event provider)) ::
        (m.writes ++ [.update (.payment p) (.payment (terminated draws event (some m.opened.id) p))] ++ events))
      refine .concluded p (terminated draws event (some m.opened.id) p) (evidence draws p event provider) there matched
        pending rfl rfl ⟨rfl, matched.provider.symm, rfl⟩ (by simpa [announces.written] using payments) ?_ ?_
      · exact Slice.providerEvents.rows_insert accepts (by simp) (by simp [announces.written])
      · rw [if_pos status]
        refine posts.credits sound books (placed p there).reference rfl clearing'_mem (ckey.trans clearing_key) wallet'_mem
          (id.trans wallet_id) records.reference records.currency ?_
        rw [cid, account]
        exact records.pair

/-- What a commit does to the payments and their evidence. -/
inductive Proceeds (before after : Db) : Request → Prop
  | same {i} (payments : after.payments = before.payments) (evidence : after.providerEvents = before.providerEvents) :
      Proceeds before after i
  | intended {draws usePaystack userId header input} (p : Payment) (pending : p.status = .pending)
      (named : ∃ rest, p.reference = "payment" ++ rest) (fresh : ∀ q ∈ before.payments, q.id ≠ p.id)
      (payments : after.payments.rows = before.payments.rows ++ [p]) (evidence : after.providerEvents = before.providerEvents)
      (provider : p.provider = if usePaystack then .paystack else .mock) :
      Proceeds before after (.createPayment draws usePaystack userId header input)
  | settled {draws event provider} : Settling before after event provider →
      Proceeds before after (.settle draws event provider)

theorem Deed.proceeds {i : Request} (h : Deed base i ws) (accepts : Accepts now ws) (earlier : now.Extends (base 0))
    (sound : now.Sound) (books : Books now) (placed : ∀ p ∈ now.payments, now.Places p) : Proceeds now (now.write ws) i := by
  cases h with
  | aside side =>
      exact .same (Slice.payments.table_same (aside_written side (fun _ => rfl) (by simp)))
        (Slice.providerEvents.table_same (aside_written side (fun _ => rfl) (by simp)))
  | posted m records => exact .same (Slice.payments.table_same (by simp)) (Slice.providerEvents.table_same (by simp))
  | transferred claim done request t ws transferred =>
      obtain ⟨_, _, _, m, events, _, _, _, _, _, _, _, _, _, announces⟩ := transferred
      exact .same (Slice.payments.table_same (by simp [announces.written]))
        (Slice.providerEvents.table_same (by simp [announces.written]))
  | reversed claim done v ws reversed =>
      obtain ⟨_, _, _, m, events, _, _, _, _, _, _, _, _, _, _, _, _, announces⟩ := reversed
      exact .same (Slice.payments.table_same (by simp [announces.written]))
        (Slice.providerEvents.table_same (by simp [announces.written]))
  | @intended draws usePaystack userId header input n wallet key hash amount mem owned =>
      have rows := Slice.payments.rows_insert accepts (List.mem_singleton_self _) (by simp)
      have fresh := Slice.payments.fresh_of_insert accepts (List.mem_singleton_self _)
      exact .intended _ rfl ⟨_, String.append_assoc ..⟩ fresh rows rfl rfl
  | settled attempt settles => exact .settled (settles.settling accepts earlier sound books placed)

/-- Evidence and payments agree. -/
structure Db.Evidenced (db : Db) : Prop where
  supports : ∀ e ∈ db.providerEvents, ∃ p ∈ db.payments, p.status ≠ .pending ∧ e.Of p
  supported : ∀ p ∈ db.payments, p.status ≠ .pending → ∃ e ∈ db.providerEvents, e.Of p
  named : ∀ p ∈ db.payments, ∃ rest, p.reference = "payment" ++ rest

theorem Db.Evidenced.congr {before after : Db} (h : before.Evidenced) (payments : after.payments = before.payments)
    (evidence : after.providerEvents = before.providerEvents) : after.Evidenced := by
  constructor
  · rw [evidence, payments]
    exact h.supports
  · rw [evidence, payments]
    exact h.supported
  · rw [payments]
    exact h.named

theorem Settling.evidenced {before after : Db} {event : VerifiedPaymentEvent} {provider : PaymentProvider}
    (h : Settling before after event provider) (evidenced : before.Evidenced) : after.Evidenced := by
  cases h with
  | known _ payments evidence _ => exact evidenced.congr payments evidence
  | repeated p e mem matched status about _ payments evidence _ =>
      refine ⟨fun x hx => ?_, fun q hq terminal => ?_, payments ▸ evidenced.named⟩
      · rw [Table.mem_def, evidence, List.mem_append, List.mem_singleton] at hx
        rw [payments]
        rcases hx with hx | rfl
        · exact evidenced.supports x hx
        · exact ⟨p, mem, status ▸ event.terminal, about⟩
      · obtain ⟨x, hx, of⟩ := evidenced.supported q (payments ▸ hq) terminal
        exact ⟨x, Table.mem_def.mpr (evidence ▸ List.mem_append_left _ hx), of⟩
  | concluded p p' e mem matched pending same status about payments evidence _ =>
      have id : p'.id = p.id := (Payment.identity_eq.mp same).1
      have terminal : p'.status ≠ .pending := status ▸ event.terminal
      refine ⟨fun x hx => ?_, fun q hq settled => ?_, fun q hq => ?_⟩
      · rw [Table.mem_def, evidence, List.mem_append, List.mem_singleton] at hx
        rw [payments]
        rcases hx with hx | rfl
        · obtain ⟨q, hq, other, of⟩ := evidenced.supports x hx
          refine ⟨q, Table.mem_put_of_ne hq fun sameId => ?_, other, of⟩
          obtain rfl : q = p := Table.eq_of_key_eq hq mem (sameId.trans id)
          exact other pending
        · exact ⟨p', Table.mem_put_self _ _, terminal, about⟩
      · rw [payments] at hq
        rcases Table.mem_put.mp hq with rfl | ⟨hq, _⟩
        · exact ⟨e, Table.mem_def.mpr (evidence ▸ by simp), about⟩
        · obtain ⟨x, hx, of⟩ := evidenced.supported q hq settled
          exact ⟨x, Table.mem_def.mpr (evidence ▸ List.mem_append_left _ hx), of⟩
      · rw [payments] at hq
        rcases Table.mem_put.mp hq with rfl | ⟨hq, _⟩
        · obtain ⟨rest, named⟩ := evidenced.named p mem
          exact ⟨rest, (Payment.identity_eq.mp same).2.2.2.2.1.trans named⟩
        · exact evidenced.named q hq

theorem Proceeds.evidenced {before after : Db} {i : Request} (h : Proceeds before after i) (evidenced : before.Evidenced) : after.Evidenced := by
  cases h with
  | same payments evidence => exact evidenced.congr payments evidence
  | intended p pending named _ payments evidence _ =>
      have mem {q : Payment} : q ∈ after.payments ↔ q ∈ before.payments ∨ q = p := by
        rw [Table.mem_def, payments, List.mem_append, List.mem_singleton]
        rfl
      refine ⟨fun e he => ?_, fun q hq terminal => ?_, fun q hq => ?_⟩
      · obtain ⟨q, hq, rest⟩ := evidenced.supports e (evidence ▸ he)
        exact ⟨q, mem.mpr (.inl hq), rest⟩
      · rcases mem.mp hq with hq | rfl
        · rw [evidence]
          exact evidenced.supported q hq terminal
        · exact absurd pending terminal
      · rcases mem.mp hq with hq | rfl
        · exact evidenced.named q hq
        · exact named
  | settled settling => exact settling.evidenced evidenced

/-- A payment is concluded by a settlement of an event that matches it, takes its status, and is credited if it succeeded. -/
theorem Proceeds.concluded {before after : Db} {i : Request} (h : Proceeds before after i) {p p' : Payment}
    (hp : p ∈ before.payments) (hp' : p' ∈ after.payments) (id : p'.id = p.id) (pending : p.status = .pending)
    (terminal : p'.status ≠ .pending) : ∃ draws event provider, i = .settle draws event provider ∧
      PaymentsService.Matches event provider p ∧ p'.status = event.status ∧ p'.identity = p.identity ∧
      if p'.status = .succeeded then Credits before after p p' else SameMoney before after := by
  have unchanged (same : p' ∈ before.payments) : False := by
    obtain rfl : p' = p := Table.eq_of_key_eq same hp id
    exact terminal pending
  cases h with
  | same payments _ => exact (unchanged (payments ▸ hp')).elim
  | intended q _ _ fresh payments _ _ =>
      rw [Table.mem_def, payments, List.mem_append, List.mem_singleton] at hp'
      rcases hp' with hp' | rfl
      · exact (unchanged hp').elim
      · exact absurd id.symm (fresh p hp)
  | @settled draws event provider settling =>
      cases settling with
      | known _ payments _ _ => exact (unchanged (payments ▸ hp')).elim
      | repeated _ _ _ _ _ _ _ payments _ _ => exact (unchanged (payments ▸ hp')).elim
      | concluded q q' e mem matched _ same status _ payments _ money =>
          rw [payments] at hp'
          rcases Table.mem_put.mp hp' with rfl | ⟨hp', _⟩
          · have sameId : q.id = p.id := (Payment.identity_eq.mp same).1.symm.trans id
            obtain rfl : q = p := Table.eq_of_key_eq mem hp sameId
            exact ⟨draws, event, provider, rfl, matched, status, same, status ▸ money⟩
          · exact (unchanged hp').elim

/-- A new payment is of the provider that its request selects. -/
theorem Proceeds.created {before after : Db} {i : Request} (h : Proceeds before after i) {p : Payment}
    (hp : p ∈ after.payments) (fresh : ∀ q ∈ before.payments, q.id ≠ p.id) : ∃ draws usePaystack userId header input,
      i = .createPayment draws usePaystack userId header input ∧ p.provider = if usePaystack then .paystack else .mock := by
  have unchanged (there : p ∈ before.payments) : False := fresh p there rfl
  cases h with
  | same payments _ => exact (unchanged (payments ▸ hp)).elim
  | intended q _ _ _ payments _ provider =>
      rw [Table.mem_def, payments, List.mem_append, List.mem_singleton] at hp
      rcases hp with hp | rfl
      · exact (unchanged hp).elim
      · exact ⟨_, _, _, _, _, rfl, provider⟩
  | settled settling =>
      cases settling with
      | known _ payments _ _ => exact (unchanged (payments ▸ hp)).elim
      | repeated _ _ _ _ _ _ _ payments _ _ => exact (unchanged (payments ▸ hp)).elim
      | concluded q q' e mem _ _ same _ _ payments _ _ =>
          rw [payments] at hp
          rcases Table.mem_put.mp hp with rfl | ⟨hp, _⟩
          · exact absurd (Payment.identity_eq.mp same).1.symm (fresh q mem)
          · exact (unchanged hp).elim

/-- Transfers and reversals have references of their own. -/
structure Db.Referenced (db : Db) : Prop where
  transfers : ∀ t ∈ db.transfers, ∃ rest, t.reference = "transfer:" ++ rest
  reversals : ∀ v ∈ db.transferReversals, ∃ rest, v.reference = "reversal:" ++ rest

theorem Db.Referenced.write (h : now.Referenced) (transfers : ∀ t ∈ Slice.transfers.written ws, ∃ rest, t.reference = "transfer:" ++ rest)
    (reversals : ∀ v ∈ Slice.transferReversals.written ws, ∃ rest, v.reference = "reversal:" ++ rest) : (now.write ws).Referenced :=
  ⟨fun t ht => (Slice.transfers.mem_written ht).elim (h.transfers t) (transfers t),
    fun v hv => (Slice.transferReversals.mem_written hv).elim (h.reversals v) (reversals v)⟩

theorem Deed.referenced {i : Request} (h : Deed base i ws) (referenced : now.Referenced) : (now.write ws).Referenced := by
  cases h with
  | aside side =>
      have transfers : Slice.transfers.written ws = [] := aside_written side (fun _ => rfl) (by simp)
      have reversals : Slice.transferReversals.written ws = [] := aside_written side (fun _ => rfl) (by simp)
      exact referenced.write (by simp [transfers]) (by simp [reversals])
  | posted m records => exact referenced.write (by simp) (by simp)
  | transferred claim done request t ws transferred =>
      obtain ⟨source, destination, beneficiaryId, m, events, _, _, _, _, _, _, _, _, _, announces⟩ := transferred
      exact referenced.write (by simp [announces.written, TransfersService.completedTransfer]) (by simp [announces.written])
  | reversed claim done v ws reversed =>
      obtain ⟨t, source, destination, m, events, _, _, _, _, _, _, _, _, _, _, _, _, announces⟩ := reversed
      exact referenced.write (by simp [announces.written]) (by simp [announces.written, ReversalsService.newReversal])
  | intended => exact referenced.write (by simp) (by simp)
  | settled attempt settles =>
      cases settles with
      | duplicate => exact referenced
      | repeated => exact referenced.write (by simp) (by simp)
      | failed p events _ _ _ _ _ announces =>
          exact referenced.write (by simp [announces.written]) (by simp [announces.written])
      | succeeded p wallet clearing m events _ _ _ _ _ _ _ _ _ _ announces =>
          exact referenced.write (by simp [announces.written]) (by simp [announces.written])

end

/-! ## Runs -/

section
variable {sha256Hex : String → String} {initial : Db}
  {c : Config Db Settings Row Key DbError HttpException AttemptOutcome Result Request}

theorem proceeding (opening : Opening initial) (h : (system sha256Hex initial).Reachable c) {k : Nat} (lt : k < c.log.length) :
    Proceeds (stateAt initial c.log k) (stateAt initial c.log (k + 1)) c.log[k].request := by
  obtain ⟨_, bases, _, ws, earlier, rows, accepts, change⟩ := done_of_certified (h.certified lt)
  have found := committing opening h lt
  have extends_ := (reachable_sound opening.sound h).2 _ _ (earlier 0) lt.le
  rw [state_after lt rows]
  exact change.deed.proceeds accepts extends_ found.sound found.books found.borne.placed

theorem reachable_evidenced (opening : Opening initial) (h : (system sha256Hex initial).Reachable c) {k : Nat}
    (le : k ≤ c.log.length) : (stateAt initial c.log k).Evidenced ∧ (stateAt initial c.log k).Referenced := by
  induction k with
  | zero =>
      refine ⟨⟨fun e he => ?_, fun p hp => ?_, fun p hp => ?_⟩, fun t ht => ?_, fun v hv => ?_⟩
      · exact absurd (opening.providerEvents ▸ he) (Table.not_mem_empty e)
      · exact absurd (opening.payments ▸ hp) (Table.not_mem_empty p)
      · exact absurd (opening.payments ▸ hp) (Table.not_mem_empty p)
      · exact absurd (opening.transfers ▸ ht) (Table.not_mem_empty t)
      · exact absurd (opening.transferReversals ▸ hv) (Table.not_mem_empty v)
  | succ j ih =>
      obtain ⟨evidenced, referenced⟩ := ih (Nat.le_of_succ_le le)
      refine ⟨(proceeding opening h le).evidenced evidenced, ?_⟩
      obtain ⟨_, _, _, _, _, rows, _, change⟩ := done_of_certified (h.certified le)
      rw [state_after le rows]
      exact change.deed.referenced referenced

/-- The commit of a settlement. -/
theorem settling (opening : Opening initial) (h : (system sha256Hex initial).Reachable c) {k : Nat} (lt : k < c.log.length)
    {draws : Nat → Draws} {event : VerifiedPaymentEvent} {provider : PaymentProvider}
    (request : c.log[k].request = .settle draws event provider) :
    Settling (stateAt initial c.log k) (stateAt initial c.log (k + 1)) event provider := by
  obtain ⟨_, bases, _, ws, earlier, rows, accepts, change⟩ := done_of_certified (h.certified lt)
  have found := committing opening h lt
  have extends_ := (reachable_sound opening.sound h).2 _ _ (earlier 0) lt.le
  rw [state_after lt rows]
  rw [request] at change
  cases change with
  | settled attempt settles =>
      exact @PaymentsService.Settles.settling (fun n => stateAt initial c.log (bases n)) _ _ _ _ _ _ settles accepts extends_
        found.sound found.books found.borne.placed

theorem reachable_accounted (opening : Opening initial) (h : (system sha256Hex initial).Reachable c)
    (ordinary : ∀ e ∈ c.log, ∀ draws input, e.request ≠ .post draws input) {k : Nat} (le : k ≤ c.log.length) :
    Accounted initial (stateAt initial c.log k) := by
  refine ((@reachable_booked initial _ c opening h (Accounted initial) (.start opening) ?_).1 k le).2.2.2
  intro before after i ⟨e, he, request⟩ accounted commits
  have gains := commits.booked.gains commits.sound commits.borne.placed commits.preserves commits.later
  exact accounted.gains commits.borne commits.preserves commits.later gains (request ▸ ordinary e he)

/-- How a payment stands in a committed state. -/
structure Db.SettledOnce (db : Db) (p : Payment) : Prop where
  evidence : ∀ e ∈ db.providerEvents, e.paymentId = p.id →
    p.status ≠ .pending ∧ e.provider = p.provider ∧ e.status = p.status
  supported : p.status ≠ .pending → ∃ e ∈ db.providerEvents, e.Of p
  /-- The ledger transaction with the payment's reference is there exactly if it succeeded, only once, and credits it. -/
  credited : p.status = .succeeded ↔ ∃ t ∈ db.ledgerTransactions, t.reference = p.reference
  credit : ∀ t ∈ db.ledgerTransactions, t.reference = p.reference → p.ledgerTransactionId = some t.id ∧
    (∀ t' ∈ db.ledgerTransactions, t'.reference = p.reference → t' = t) ∧
    ∃ clearing ∈ db.ledgerAccounts, ∃ wallet ∈ db.wallets, clearing.systemKey = some (clearingKey p.currency) ∧
      wallet.id = p.walletId ∧ db.Moves t.id p.reference p.currency clearing.id wallet.ledgerAccountId p.amountMinor
  announced : p.status ≠ .pending → ∃ e ∈ db.outboxEvents, e.aggregateId = p.id ∧
    e.type = (if p.status = .succeeded then .paymentSucceeded else .paymentFailed) ∧
    ∀ f ∈ db.outboxEvents, f.aggregateId = p.id → f.type = .paymentSucceeded ∨ f.type = .paymentFailed → f = e
  unannounced : p.status = .pending → ∀ f ∈ db.outboxEvents, f.type = .paymentSucceeded ∨ f.type = .paymentFailed →
    f.aggregateId ≠ p.id

theorem transfer_ne_payment (a b : String) : "transfer:" ++ a ≠ "payment" ++ b := by
  intro same
  have heads := congrArg (fun s => s.toList.head?) same
  simp at heads

theorem reversal_ne_payment (a b : String) : "reversal:" ++ a ≠ "payment" ++ b := by
  intro same
  have heads := congrArg (fun s => s.toList.head?) same
  simp at heads

theorem Db.Attended.payment {old db : Db} (h : Db.Attended old db) {f : OutboxEvent} (hf : f ∈ db.outboxEvents)
    (type : f.type = .paymentSucceeded ∨ f.type = .paymentFailed) : ∃ q ∈ db.payments, q.status ≠ .pending ∧
      q.id = f.aggregateId ∧ f.type = if q.status = .succeeded then .paymentSucceeded else .paymentFailed := by
  obtain ⟨r, hr, _, news⟩ := h.eventsRecorded f hf
  cases r with
  | transfer t =>
      have agrees := (News.mk.inj (Option.some.inj news)).1
      simp [← agrees] at type
  | transferReversal v =>
      have agrees := (News.mk.inj (Option.some.inj news)).1
      simp [← agrees] at type
  | payment q =>
      by_cases pending : q.status = .pending
      · simp [Row.news, pending] at news
      · rw [Row.news, if_neg pending] at news
        have agrees := News.mk.inj (Option.some.inj news)
        exact ⟨q, hr, pending, agrees.2.2.1, agrees.1.symm⟩
  | _ => cases news

theorem Db.settledOnce {db : Db} (sound : db.Sound) (borne : Borne db) (evidenced : db.Evidenced)
    (referenced : db.Referenced) (accounted : Accounted migrated db) (attended : Db.Attended migrated db) {p : Payment}
    (hp : p ∈ db.payments) : db.SettledOnce p := by
  have only (q : Payment) (hq : q ∈ db.payments) (id : q.id = p.id) : q = p := Table.eq_of_key_eq hq hp id
  have transaction_eq (t t' : LedgerTransaction) (ht : t ∈ db.ledgerTransactions) (ht' : t' ∈ db.ledgerTransactions)
      (same : t'.reference = t.reference) : t' = t := by
    refine Row.ledgerTransaction.inj (sound.unique (.ledgerTransaction t') ht' (.ledgerTransaction t) ht
      (.ledgerReference t'.reference) ?_ ?_)
    · simp [Row.keys, Row.slots]
    · simp [Row.keys, Row.slots, same]
  -- whatever has the payment's reference is its own ledger transaction
  have own (t : LedgerTransaction) (ht : t ∈ db.ledgerTransactions) (reference : t.reference = p.reference) :
      (Row.payment p).movement = some t.id := by
    rcases accounted.explained t ht with old | ⟨r, hr, moved, _⟩
    · exact absurd old (Table.not_mem_empty t)
    obtain ⟨mine, named⟩ := evidenced.named p hp
    have back := borne.backed r hr (by simp [moved])
    have moves {id : Uuid} {text : String} {currency : Currency} {debit credit : Uuid} {amount : Int}
        (moves : db.Moves id text currency debit credit amount) (same : id = t.id) : text = p.reference := by
      obtain ⟨x, hx, xid, _, text, _⟩ := moves.transaction
      obtain rfl : x = t := Table.eq_of_key_eq hx ht (xid.trans same)
      exact text.symm.trans reference
    cases back with
    | @transfer r _ _ _ _ _ _ _ _ moved' =>
        obtain ⟨rest, prefixed⟩ := referenced.transfers r hr
        exact absurd (prefixed.symm.trans ((moves moved' (Option.some.inj moved)).trans named)) (transfer_ne_payment _ _)
    | @reversal r _ _ _ _ _ _ _ _ _ _ _ _ _ moved' =>
        obtain ⟨rest, prefixed⟩ := referenced.reversals r hr
        exact absurd (prefixed.symm.trans ((moves moved' (Option.some.inj moved)).trans named)) (reversal_ne_payment _ _)
    | @payment q id _ _ succeeded ledger _ _ _ _ _ moved' =>
        have movement := moved
        rw [Row.movement, if_pos succeeded, ledger] at movement
        have text := moves moved' (Option.some.inj movement)
        have same : Row.payment q = .payment p := by
          refine sound.unique _ hr _ hp (.paymentReference q.reference) ?_ ?_
          · simp [Row.keys, Row.slots]
          · simp [Row.keys, Row.slots, text]
        exact same ▸ moved
  have backed (succeeded : (Row.payment p).movement.isSome) : Backed db (.payment p) := borne.backed _ hp succeeded
  constructor
  case evidence =>
    intro e he about
    obtain ⟨q, hq, terminal, of⟩ := evidenced.supports e he
    obtain rfl := only q hq (of.1.symm.trans about)
    exact ⟨terminal, of.2⟩
  case supported => exact evidenced.supported p hp
  case credited =>
    constructor
    · intro succeeded
      cases backed (sound.succeeded hp succeeded) with
      | payment id clearing wallet _ ledger _ _ _ _ _ moves =>
          obtain ⟨t, ht, _, _, reference, _⟩ := moves.transaction
          exact ⟨t, ht, reference⟩
    · rintro ⟨t, ht, reference⟩
      cases backed (by rw [own t ht reference]; rfl) with
      | payment _ _ _ succeeded => exact succeeded
  case credit =>
    intro t ht reference
    have moved := own t ht reference
    cases backed (by rw [moved]; rfl) with
    | payment id clearing wallet succeeded ledger clearing_mem clearing_key wallet_mem wallet_id _ moves =>
        rw [Row.movement, if_pos succeeded] at moved
        obtain rfl : id = t.id := Option.some.inj (ledger.symm.trans moved)
        exact ⟨moved, fun t' ht' same => transaction_eq t t' ht ht' (same.trans reference.symm), clearing, clearing_mem,
          wallet, wallet_mem, clearing_key, wallet_id, moves⟩
  case announced =>
    intro terminal
    have news : (Row.payment p).news = some ⟨if p.status = .succeeded then .paymentSucceeded else .paymentFailed, "Payment",
        p.id, p.userId, some (toString p.amountMinor), some p.currency.text⟩ := by rw [Row.news, if_neg terminal]
    obtain ⟨e, he, said, once⟩ := attended.announced (.payment p) hp (Table.not_mem_empty p) _ news
    have agrees := News.mk.inj said
    refine ⟨e, he, agrees.2.2.1, agrees.1, fun f hf about type => ?_⟩
    obtain ⟨q, hq, _, id, kind⟩ := attended.payment hf type
    obtain rfl := only q hq (id.trans about)
    exact once f hf kind about
  case unannounced =>
    intro pending f hf type about
    obtain ⟨q, hq, terminal, id, _⟩ := attended.payment hf type
    obtain rfl := only q hq (id.trans about)
    exact terminal pending

/-- A settlement that fails has committed nothing, whatever its attempts ended with before. -/
theorem settle_answers (draws : Nat → Draws) (event : VerifiedPaymentEvent) (provider : PaymentProvider) (attempts : Nat) :
    (PaymentsService.settleVerified draws event provider attempts).Answers
      ((system sha256Hex initial).Ends fun _ => True) (fun _ => True)
      (fun made result => (∃ failure, result = .error failure) → made = []) [] := by
  induction attempts with
  | zero => exact fun _ => rfl
  | succ attempts ih =>
      intro e ws ends
      cases ends with
      | @committed base outcome view _ snapshot ran =>
          have settles : (Tx.committing (PaymentsService.settle (draws attempts) event provider)).Ensures base
              (Tx.yields base fun _ => PaymentsService.Settles (base 0) (draws attempts) event provider) { locals := {} } := by
            rw [snapshot rfl]
            exact ensures_committing (PaymentsService.settle_yields (.start {}))
          have holds := settles.holds ran
          obtain ⟨ws, tracks, did⟩ := holds
          rintro ⟨failure, failed⟩
          have settled : Settled base view (base 0) := by
            rw [snapshot rfl]
            exact Settled.snapshot (base 0)
          cases did (base 0) settled <;> cases failed
      | thrown => exact fun _ => rfl
      | aborted d =>
          dsimp only
          split
          · exact ih
          · exact fun _ => rfl

theorem Db.Extends.payment {before after : Db} (h : after.Extends before) {p : Payment} (hp : p ∈ before.payments) :
    ∃ p' ∈ after.payments, p'.identity = p.identity := by
  obtain ⟨r, hr, evolves⟩ := h (.payment p) hp
  have kept := evolves.kept (P := fun r => ∃ p', r = .payment p' ∧ p'.identity = p.identity) ?_ ⟨p, rfl, rfl⟩
  · obtain ⟨p', rfl, same⟩ := kept
    exact ⟨p', hr, same⟩
  · rintro s _ new allowed pk ⟨p', rfl, same⟩
    cases new <;> simp only [Row.pk, Key.row.injEq, reduceCtorEq, false_and] at pk
    rename_i q
    obtain ⟨_, _, fixed⟩ := protectPayment_eq_ok allowed
    exact ⟨q, rfl, fixed.trans same⟩

theorem migrated_told : Db.Told migrated migrated where
  kept _ hr _ := hr
  notes n := by
    refine iff_of_false (by simp [Db.notes, migrated, Table.empty]) ?_
    rintro ⟨r, hr, note⟩
    cases r with
    | transfer t => exact Table.not_mem_empty t hr
    | transferReversal v => exact Table.not_mem_empty v hr
    | _ => cases note
  notices n := iff_of_false (by simp [Db.notices, migrated, Table.empty]) fun ⟨_, hr, new, _⟩ => new hr

/-- Then the audit finds no succeeded payment without its ledger transaction. -/
theorem Db.SettledOnce.audited {db : Db} (sealedAt : ∀ t ∈ db.ledgerTransactions, t.sealedAt.isSome)
    (h : ∀ p ∈ db.payments, db.SettledOnce p) : AuditLedger.successfulPaymentMissingLedger db = 0 := by
  refine List.countP_eq_zero.mpr fun p hp counted => ?_
  simp only [Bool.and_eq_true, beq_iff_eq] at counted
  obtain ⟨t, ht, named⟩ := (h p hp).credited.mp counted.1
  have found : db.ledgerTransactions.find? t.id = some t := Table.find?_eq_some.mpr ⟨ht, rfl⟩
  have flagged := counted.2
  rw [((h p hp).credit t ht named).1, Option.bind_some, found, Option.all_some, Option.isNone_eq_false_iff.mpr (sealedAt t ht)]
    at flagged
  simp [named] at flagged

/-- However settlements of all kinds interleave with each other and with anything else, as long as
nothing posts to the ledger past the services: every payment stands as `SettledOnce` says, which the
audit confirms, stays what it is and, once settled, as it is; a settlement commits one of the things
that `Settling` lists; and one that fails has committed nothing. -/
theorem payments_settle_once {sha256Hex : String → String}
    {c : Config Db Settings Row Key DbError HttpException AttemptOutcome Result Request}
    (h : (system sha256Hex migrated).Reachable c) (ordinary : ∀ e ∈ c.log, ∀ draws input, e.request ≠ .post draws input) :
    (∀ k ≤ c.log.length, (∀ p ∈ (stateAt migrated c.log k).payments, (stateAt migrated c.log k).SettledOnce p) ∧
      AuditLedger.successfulPaymentMissingLedger (stateAt migrated c.log k) = 0) ∧
    (∀ i j, i ≤ j → j ≤ c.log.length → ∀ p ∈ (stateAt migrated c.log i).payments,
      (∃ p' ∈ (stateAt migrated c.log j).payments, p'.identity = p.identity) ∧
      (p.status ≠ .pending → p ∈ (stateAt migrated c.log j).payments)) ∧
    (∀ k, ∀ lt : k < c.log.length, ∀ draws event provider, c.log[k].request = .settle draws event provider →
      Settling (stateAt migrated c.log k) (stateAt migrated c.log (k + 1)) event provider) ∧
    ∀ r ∈ c.results, ∀ draws event provider failure, r.request = .settle draws event provider →
      r.result = .error failure → ∀ e ∈ c.log, e.call ≠ r.call := by
  have later := (reachable_sound migrated_sound h).2
  refine ⟨fun k le => ?_, fun i j lo hi p hp => ⟨?_, fun terminal => ?_⟩, fun k lt draws event provider request => ?_,
    fun r hr draws event provider failure request failed e he own => ?_⟩
  · have states := (@reachable_booked migrated sha256Hex c migrated_opening h (fun _ => True) trivial fun _ _ _ _ _ _ => trivial).1
    obtain ⟨sound, books, borne, _⟩ := states k le
    obtain ⟨evidenced, referenced⟩ := reachable_evidenced migrated_opening h le
    have attended := (reachable_told migrated_sound migrated_told h le).attended sound
    have once : ∀ p ∈ (stateAt migrated c.log k).payments, (stateAt migrated c.log k).SettledOnce p := fun p hp =>
      Db.settledOnce sound borne evidenced referenced (reachable_accounted migrated_opening h ordinary le) attended hp
    exact ⟨once, Db.SettledOnce.audited books.isSealed once⟩
  · exact (later i j lo hi).payment hp
  · exact (later i j lo hi).frozen (r := .payment p) hp (Row.fixed_of_terminal terminal).frozen
  · exact settling migrated_opening h lt request
  · have program : ((system sha256Hex migrated).program r.request).Answers ((system sha256Hex migrated).Ends fun _ => True)
        (fun _ => True) (fun made result => (∃ failure, result = .error failure) → made = []) [] := by
      rw [request]
      exact @settle_answers sha256Hex migrated draws event provider 3
    have none := h.answered hr program (fun _ _ _ => trivial) ⟨failure, failed⟩
    have mem : e.writes ∈ commitsOf c.log r.call := mem_commitsOf.mpr ⟨e, he, own, rfl⟩
    rw [none] at mem
    cases mem

/-- The funding once more, under another event id. -/
def sampleDuplicate : VerifiedPaymentEvent := { sampleFunding with eventId := "evt-2" }

theorem failed_terminal : PaymentStatus.failed ≠ .pending := by decide

/-- An event that says that the payment failed. -/
def sampleContradiction : VerifiedPaymentEvent :=
  { sampleFunding with eventId := "evt-3", status := .failed, terminal := failed_terminal }

def sampleSettlements : List Request := sampleCalls.take 4 ++ [.settle (fun _ => sampleDraws 4) sampleDuplicate .mock]

def sampleSettled : List (Entry Request Row) := (system sampleHash migrated).performAll sampleSettlements [] 0

def sampleContradicted : List (Entry Request Row) × Result :=
  (system sampleHash migrated).perform sampleSettled 5 (.settle (fun _ => sampleDraws 5) sampleContradiction .mock)

theorem sampleSettled_credits : sampleSettled.map Entry.call = [0, 1, 2, 3, 4] ∧
    (stateAt migrated sampleSettled 5).wallets.rows.map Wallet.currentBalanceMinor = [5000, 0] ∧
    sampleContradicted.1.length = 5 ∧ (sampleContradicted.2 matches .error (.http ⟨409, _⟩)) := by
  decide +kernel

/-- The duplicate moves nothing more, and the contradiction is refused and commits nothing. -/
theorem payments_settle_once_sample :
    (stateAt migrated sampleSettled 5).wallets.rows.map Wallet.currentBalanceMinor = [5000, 0] ∧
    (∀ p ∈ (stateAt migrated sampleSettled 5).payments, (stateAt migrated sampleSettled 5).SettledOnce p) ∧
    AuditLedger.successfulPaymentMissingLedger (stateAt migrated sampleSettled 5) = 0 ∧
    Settling (stateAt migrated sampleSettled 3) (stateAt migrated sampleSettled 4) sampleFunding .mock ∧
    Settling (stateAt migrated sampleSettled 4) (stateAt migrated sampleSettled 5) sampleDuplicate .mock ∧
    (sampleContradicted.2 matches .error (.http ⟨409, _⟩)) ∧ ∀ e ∈ sampleContradicted.1, e.call ≠ 5 := by
  obtain ⟨c, reach, log, mem⟩ := System.reachable_perform (system sampleHash migrated) sampleSettlements
    (.settle (fun _ => sampleDraws 5) sampleContradiction .mock)
  obtain ⟨calls, balances, length, refused⟩ := sampleSettled_credits
  have five : sampleSettled.length = 5 := by simpa using congrArg List.length calls
  have same : sampleContradicted.1 = sampleSettled := by
    obtain ⟨made, split⟩ := System.perform_log (system sampleHash migrated) sampleSettled 5
      (.settle (fun _ => sampleDraws 5) sampleContradiction .mock)
    change sampleContradicted.1 = _ at split
    obtain rfl : made = [] := by
      have sum := congrArg List.length split
      simpa [length, five] using sum
    rw [split, List.map_nil, List.append_nil]
  change c.log = sampleContradicted.1 at log
  rw [same] at log ⊢
  have requested (n : Nat) (lt : n < c.log.length) : sampleSettlements[n]? = some c.log[n].request := by
    have call : (sampleSettled.map Entry.call)[n]? = some c.log[n].call := by simp [← log, lt]
    have number : c.log[n].call = n := by
      rw [calls] at call
      obtain ⟨bound, at_⟩ := List.getElem?_eq_some_iff.mp call
      rw [← at_]
      match n, bound with
      | 0, _ | 1, _ | 2, _ | 3, _ | 4, _ => rfl
    have made : c.log[n] ∈ sampleSettled := log ▸ List.getElem_mem lt
    rcases System.call_of_mem_performAll made with none | ⟨_, at_⟩
    · cases none
    · rwa [Nat.sub_zero, number] at at_
  have ordinary : ∀ e ∈ c.log, ∀ draws input, e.request ≠ .post draws input := by
    intro e he draws input
    obtain ⟨n, lt, rfl⟩ := List.mem_iff_getElem.mp he
    have mem := List.mem_of_getElem? (requested n lt)
    simp only [sampleSettlements, sampleCalls, sampleUser, List.take_succ_cons, List.take_zero, List.cons_append, List.nil_append,
      List.mem_cons, List.not_mem_nil, or_false] at mem
    rcases mem with mem | mem | mem | mem | mem <;> rw [mem] <;> exact Request.noConfusion
  obtain ⟨states, _, settles, failed⟩ := payments_settle_once reach ordinary
  have three := requested 3 (by rw [log, five]; decide)
  have four := requested 4 (by rw [log, five]; decide)
  have first := settles 3 (by rw [log, five]; decide) _ _ _ (Option.some.inj three).symm
  have second := settles 4 (by rw [log, five]; decide) _ _ _ (Option.some.inj four).symm
  obtain ⟨once, audited⟩ := states 5 (by rw [log, five])
  rw [log] at first second once audited
  refine ⟨balances, once, audited, first, second, refused, ?_⟩
  obtain ⟨failure, answer⟩ : ∃ failure, sampleContradicted.2 = .error failure := by
    cases answer : sampleContradicted.2 with
    | ok reply =>
        rw [answer] at refused
        cases refused
    | error failure => exact ⟨failure, rfl⟩
  exact log ▸ failed _ mem _ _ _ failure rfl answer

end

end Fintech
