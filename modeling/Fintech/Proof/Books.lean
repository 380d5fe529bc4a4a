import Fintech.Library.Serial
import Fintech.Model.Audit
import Fintech.Model.Records
import Fintech.Proof.Commits

/-!
# The books

The ledger invariant: every balance is the sum of its postings, every wallet shows the balance of
its own account, and every ledger transaction is sealed and balanced.
-/

namespace Fintech
open Relational Transactional DoubleEntry

/-! ## What a commit does to the ledger -/

/-- The writes of a commit, as far as the ledger is concerned. -/
inductive Shape (now : Db) (ws : List Write) : Prop
  | clear : Clear ws → Shape now ws
  | opened (draws : Draws) (userId : Uuid) (currency : Currency) (before : List Write) : Clear before →
      ws = before ++ openingWrites draws userId currency → Shape now ws
  | closed (draws : Draws) (w : Wallet) : w ∈ now.wallets → w.status = .active → w.currentBalanceMinor = 0 →
      ws = [.update (.wallet w) (.wallet (closedWallet draws w))] → Shape now ws
  | moved (m : Movement) (before after : List Write) : Clear before → Clear after →
      ws = before ++ m.writes ++ after → Shape now ws

theorem Clear.nil : Clear [] := by simp [Clear]

theorem Clear.cons {w : Write} {ws : List Write} (h : ¬ w.row.isLedger) (rest : Clear ws) : Clear (w :: ws) := by
  intro x hx
  rcases List.mem_cons.mp hx with rfl | hx
  · exact h
  · exact rest x hx

theorem Clear.append {ws vs : List Write} (h : Clear ws) (h' : Clear vs) : Clear (ws ++ vs) := by
  intro x hx
  rcases List.mem_append.mp hx with hx | hx
  · exact h x hx
  · exact h' x hx

theorem Announces.clear {seen : Db} {draws : Draws} {event : OutboxEvent} {ws : List Write}
    (h : Announces seen draws event ws) : Clear ws := by
  obtain ⟨db, _, _⟩ := h
  intro w hw
  obtain ⟨r, hr, rfl⟩ := List.mem_map.mp hw
  rcases List.mem_cons.mp hr with rfl | hr
  · simp [Row.isLedger]
  · obtain ⟨d, _, rfl⟩ := List.mem_map.mp hr
    simp [Row.isLedger]

theorem Write.IsSide.clear {w : Write} (h : w.IsSide) : ¬ w.row.isLedger := by
  cases w with
  | insert r => cases r <;> first | exact Bool.false_ne_true | exact Bool.noConfusion h
  | update old new => cases new <;> first | exact Bool.false_ne_true | exact Bool.noConfusion h

theorem Scope.Attempted.shape {ρ : Type} {scope : Scope ρ} {seen now : Db} {claim : IdempotencyRecord}
    {Does : ρ → List Write → Prop} {Fails : HttpException → Prop} {outcome : AttemptOutcome} {ws : List Write}
    (h : scope.Attempted seen claim Does Fails outcome ws)
    (does : ∀ r ws, Does r ws → ∃ m : Movement, ∃ after, ws = m.writes ++ after ∧ Clear after) : Shape now ws := by
  cases h with
  | replayed _ _ _ _ => exact .clear .nil
  | completed r ws _ h =>
      obtain ⟨m, after, rfl, clear⟩ := does r ws h
      refine .moved m [.insert (.idempotencyRecord claim)]
        (after ++ [.update (.idempotencyRecord claim) (.idempotencyRecord (scope.complete r claim))])
        (.cons (by simp [Row.isLedger]) .nil) (clear.append (.cons (by simp [Row.isLedger]) .nil)) ?_
      simp
  | refused e _ _ _ _ => exact .clear (.cons (by simp [Row.isLedger]) (.cons (by simp [Row.isLedger]) .nil))

theorem Change.shape {sha256Hex : String → String} {base : Nat → Db} {now : Db} {i : Request} {outcome : AttemptOutcome}
    {ws : List Write} (h : Change sha256Hex base now i outcome ws) : Shape now ws := by
  cases h with
  | registered draws input => exact .opened draws _ _ [_] (.cons (by simp [Row.isLedger]) .nil) rfl
  | opened draws userId currency => exact .opened draws userId currency [] .nil rfl
  | @closed draws userId walletId w ws closes =>
      cases closes with
      | already _ _ _ _ => exact .clear .nil
      | closed w mem _ active empty => exact .closed draws w mem active empty rfl
  | @posted draws input m postings _ => exact .moved m [] [] .nil .nil (by simp)
  | transfer _ _ attempted =>
      refine attempted.shape fun r ws transferred => ?_
      obtain ⟨_, _, _, m, events, _, _, _, _, _, _, _, _, _, announces⟩ := transferred
      refine ⟨m, _, List.append_assoc _ _ _, ?_⟩
      exact (Clear.cons (by simp [Row.isLedger]) (.cons (by simp [Row.isLedger]) .nil)).append announces.clear
  | reversal _ attempted =>
      refine attempted.shape fun r ws reversed => ?_
      obtain ⟨_, _, _, m, events, _, _, _, _, _, _, _, _, _, _, _, _, announces⟩ := reversed
      refine ⟨m, _, List.append_assoc _ _ _, ?_⟩
      exact (Clear.cons (by simp [Row.isLedger]) (.cons (by simp [Row.isLedger]) .nil)).append announces.clear
  | payment _ intends =>
      cases intends with
      | existing _ _ _ _ _ _ => exact .clear .nil
      | created _ _ _ _ _ _ => exact .clear (.cons (by simp [Row.isLedger]) .nil)
  | @settled draws event provider _ _ attempt settles =>
      cases settles with
      | duplicate _ _ _ _ _ _ _ _ => exact .clear .nil
      | repeated _ _ _ _ _ => exact .clear (.cons (by simp [Row.isLedger]) .nil)
      | failed _ _ _ _ _ _ _ announces =>
          refine .clear (Clear.append ?_ announces.clear)
          exact .cons (by simp [Row.isLedger]) (.cons (by simp [Row.isLedger]) .nil)
      | succeeded payment _ _ m events _ _ _ _ _ _ _ _ _ _ announces =>
          let settled := PaymentsService.terminated (draws attempt) event (some m.opened.id) payment
          refine .moved m [.insert (.providerEvent (PaymentsService.evidence (draws attempt) payment event provider))]
            (.update (.payment payment) (.payment settled) :: events) (.cons (by simp [Row.isLedger]) .nil)
            (.cons (by simp [Row.isLedger]) announces.clear) ?_
          simp [settled]
  | other side => exact .clear fun w hw => (side w hw).clear

/-- What a commit does to the four tables of the ledger. -/
inductive Ledgers (before after : Db) : Prop
  | same : after.ledgerAccounts = before.ledgerAccounts → after.wallets = before.wallets →
      after.ledgerTransactions = before.ledgerTransactions → after.ledgerPostings = before.ledgerPostings →
      Ledgers before after
  | opened (draws : Draws) (userId : Uuid) (currency : Currency) :
      (∀ a ∈ before.ledgerAccounts, a.id ≠ (newAccount draws currency).id) →
      (∀ w ∈ before.wallets, w.id ≠ (newWallet draws userId currency).id) →
      after.ledgerAccounts = before.ledgerAccounts.put (newAccount draws currency) →
      after.wallets = before.wallets.put (newWallet draws userId currency) →
      after.ledgerTransactions = before.ledgerTransactions → after.ledgerPostings = before.ledgerPostings →
      Ledgers before after
  | closed (draws : Draws) (w : Wallet) : w ∈ before.wallets → w.status = .active → w.currentBalanceMinor = 0 →
      after.ledgerAccounts = before.ledgerAccounts → after.wallets = before.wallets.put (closedWallet draws w) →
      after.ledgerTransactions = before.ledgerTransactions → after.ledgerPostings = before.ledgerPostings →
      Ledgers before after
  | moved (m : Movement) : Posts m before after → Ledgers before after

theorem Shape.ledgers {now : Db} {ws : List Write} (h : Shape now ws) (accepts : Accepts now ws) :
    Ledgers now (now.write ws) := by
  cases h with
  | clear clear =>
      have same {ρ : Type} [Keyed ρ Uuid] (slice : Slice ρ) (ledger : ∀ x, (slice.row x).isLedger) :
          slice.table (now.write ws) = slice.table now := by
        rw [slice.table_write, clear.written ledger, Table.putAll_nil]
      exact .same (same .ledgerAccounts fun _ => rfl) (same .wallets fun _ => rfl)
        (same .ledgerTransactions fun _ => rfl) (same .ledgerPostings fun _ => rfl)
  | opened draws userId currency before clear eq =>
      subst eq
      have tables {ρ : Type} [Keyed ρ Uuid] (slice : Slice ρ) (ledger : ∀ x, (slice.row x).isLedger) :
          slice.table (now.write before) = slice.table now ∧
            slice.table (now.write (before ++ openingWrites draws userId currency)) =
              (slice.table now).putAll (slice.written (openingWrites draws userId currency)) := by
        constructor
        · rw [slice.table_write, clear.written ledger, Table.putAll_nil]
        · rw [slice.table_write, Slice.written_append, clear.written ledger, List.nil_append]
      have accounts := tables .ledgerAccounts fun _ => rfl
      have wallets := tables .wallets fun _ => rfl
      obtain ⟨_, account, wallet, _⟩ := accepts_append.mp accepts
      refine .opened draws userId currency (fun a ha same => ?_) (fun w hw same => ?_) accounts.2 wallets.2
        (tables .ledgerTransactions fun _ => rfl).2 (tables .ledgerPostings fun _ => rfl).2
      · refine Db.not_taken_iff.mp (account.fresh _ (Row.pk_mem_keys _)) (.ledgerAccount a) ?_ ?_
        · rw [Db.ledgerAccount_mem, ← Slice.ledgerAccounts_table, accounts.1]
          exact ha
        · simp [Row.keys, Row.pk, same]
      · refine Db.not_taken_iff.mp (wallet.fresh _ (Row.pk_mem_keys _)) (.wallet w) ?_ ?_
        · have : w ∈ Slice.wallets.table (now.write before) := by
            rw [wallets.1]
            exact hw
          exact this
        · simp [Row.keys, Row.pk, same]
  | closed draws w mem active empty eq =>
      subst eq
      exact .closed draws w mem active empty rfl rfl rfl rfl
  | moved m before after clear clear' eq =>
      subst eq
      exact .moved m (Posts.of_accepts accepts clear clear')

/-! ## The invariant -/

theorem Db.Sound.account_of {db : Db} (sound : db.Sound) {p : LedgerPosting} (hp : p ∈ db.ledgerPostings) :
    ∃ a ∈ db.ledgerAccounts, a.id = p.accountId :=
  Slice.ledgerAccounts.exists_of_reference sound (r := .ledgerPosting p) hp (by simp [Row.references])

theorem Db.Sound.transaction_of {db : Db} (sound : db.Sound) {p : LedgerPosting} (hp : p ∈ db.ledgerPostings) :
    ∃ t ∈ db.ledgerTransactions, t.id = p.ledgerTransactionId :=
  Slice.ledgerTransactions.exists_of_reference sound (r := .ledgerPosting p) hp (by simp [Row.references])

/-- When every account shows what its postings add up to, the transactions are balanced and stay within one
currency, the balances of a currency add up to zero. -/
theorem balances_cancel {db : Db} (accounts : ∀ p ∈ db.ledgerPostings, ∃ a ∈ db.ledgerAccounts, a.id = p.accountId)
    (transactions : ∀ p ∈ db.ledgerPostings, ∃ t ∈ db.ledgerTransactions, t.id = p.ledgerTransactionId)
    (balance : ∀ a ∈ db.ledgerAccounts, a.balanceMinor = moved db.ledgerPostings.rows a.id)
    (balanced : ∀ t ∈ db.ledgerTransactions, ((db.postingsOf t.id).map LedgerPosting.amountMinor).sum = 0)
    (matching : ∀ p ∈ db.ledgerPostings, ∀ t ∈ db.ledgerTransactions, t.id = p.ledgerTransactionId →
      ∀ a ∈ db.ledgerAccounts, a.id = p.accountId → a.currency = t.currency) (currency : Currency) :
    ((db.ledgerAccounts.rows.filter fun a => a.currency = currency).map LedgerAccount.balanceMinor).sum = 0 := by
  have distinct : ((db.ledgerAccounts.rows.filter fun a => a.currency = currency).map LedgerAccount.id).Nodup :=
    (List.filter_sublist.map _).nodup db.ledgerAccounts.unique
  have distinct' : ((db.ledgerTransactions.rows.filter fun t => t.currency = currency).map LedgerTransaction.id).Nodup :=
    (List.filter_sublist.map _).nodup db.ledgerTransactions.unique
  have closed : ∀ p ∈ db.ledgerPostings.rows,
      p.accountId ∈ (db.ledgerAccounts.rows.filter fun a => a.currency = currency).map LedgerAccount.id ↔
        p.ledgerTransactionId ∈ (db.ledgerTransactions.rows.filter fun t => t.currency = currency).map LedgerTransaction.id := by
    intro p hp
    obtain ⟨a, ha, account⟩ := accounts p hp
    obtain ⟨t, ht, transaction⟩ := transactions p hp
    have same := matching p hp t ht transaction a ha account
    simp only [List.mem_map, List.mem_filter, decide_eq_true_eq]
    constructor
    · rintro ⟨b, ⟨hb, isOf⟩, id⟩
      obtain rfl := Table.eq_of_key_eq ha hb (account.trans id.symm)
      exact ⟨t, ⟨ht, same ▸ isOf⟩, transaction⟩
    · rintro ⟨u, ⟨hu, isOf⟩, id⟩
      obtain rfl := Table.eq_of_key_eq ht hu (transaction.trans id.symm)
      exact ⟨a, ⟨ha, same.trans isOf⟩, account⟩
  have cancelled : ∀ id ∈ (db.ledgerTransactions.rows.filter fun t => t.currency = currency).map LedgerTransaction.id,
      total LedgerPosting.ledgerTransactionId LedgerPosting.amountMinor db.ledgerPostings.rows id = 0 := by
    intro id hid
    obtain ⟨t, ht, rfl⟩ := List.mem_map.mp hid
    rw [total_eq_sum_filter]
    exact balanced t (List.mem_filter.mp ht).1
  have zero := DoubleEntry.conserved distinct distinct' closed cancelled
  rw [List.map_map] at zero
  rw [← zero]
  congr 1
  exact List.map_congr_left fun a ha => balance a (List.mem_filter.mp ha).1

structure Books (db : Db) : Prop where
  balance : ∀ a ∈ db.ledgerAccounts, a.balanceMinor = moved db.ledgerPostings.rows a.id
  owned : ∀ w ∈ db.wallets, ∃ a ∈ db.ledgerAccounts, a.id = w.ledgerAccountId ∧ a.kind = .wallet ∧
    w.currency = a.currency ∧ w.currentBalanceMinor = a.balanceMinor
  linked : ∀ a ∈ db.ledgerAccounts, a.kind = .wallet → ∃ w ∈ db.wallets, w.ledgerAccountId = a.id
  isSealed : ∀ t ∈ db.ledgerTransactions, t.sealedAt.isSome
  two_le : ∀ t ∈ db.ledgerTransactions, 2 ≤ (db.postingsOf t.id).length
  balanced : ∀ t ∈ db.ledgerTransactions, ((db.postingsOf t.id).map LedgerPosting.amountMinor).sum = 0
  currency : ∀ p ∈ db.ledgerPostings, ∀ t ∈ db.ledgerTransactions, t.id = p.ledgerTransactionId →
    ∀ a ∈ db.ledgerAccounts, a.id = p.accountId → a.currency = t.currency

namespace Books
variable {before after : Db}

theorem congr (h : Books before) (accounts : after.ledgerAccounts = before.ledgerAccounts)
    (wallets : after.wallets = before.wallets) (transactions : after.ledgerTransactions = before.ledgerTransactions)
    (postings : after.ledgerPostings = before.ledgerPostings) : Books after where
  balance := by
    rw [accounts, postings]
    exact h.balance
  owned := by
    rw [wallets, accounts]
    exact h.owned
  linked := by
    rw [accounts, wallets]
    exact h.linked
  isSealed := by
    rw [transactions]
    exact h.isSealed
  two_le := by
    simp only [transactions, Db.postingsOf, postings]
    exact h.two_le
  balanced := by
    simp only [transactions, Db.postingsOf, postings]
    exact h.balanced
  currency := by
    rw [accounts, transactions, postings]
    exact h.currency

/-- No account that a wallet does not own is a wallet's. -/
theorem kind_of_owned (h : Books before) {w : Wallet} (hw : w ∈ before.wallets) {a : LedgerAccount}
    (ha : a ∈ before.ledgerAccounts) (same : a.id = w.ledgerAccountId) : a.kind = .wallet := by
  obtain ⟨b, hb, id, kind, _⟩ := h.owned w hw
  rw [Table.eq_of_key_eq ha hb (same.trans id.symm)]
  exact kind

theorem moved_of_fresh (sound : before.Sound) {id : Uuid} (fresh : ∀ a ∈ before.ledgerAccounts, a.id ≠ id) :
    moved before.ledgerPostings.rows id = 0 := by
  refine total_of_not_mem fun mem => ?_
  obtain ⟨p, hp, rfl⟩ := List.mem_map.mp mem
  obtain ⟨a, ha, same⟩ := sound.account_of hp
  exact fresh a ha same

theorem opened (h : Books before) (sound : before.Sound) {draws : Draws} {userId : Uuid} {currency : Currency}
    (freshAccount : ∀ a ∈ before.ledgerAccounts, a.id ≠ (newAccount draws currency).id)
    (freshWallet : ∀ w ∈ before.wallets, w.id ≠ (newWallet draws userId currency).id)
    (accounts : after.ledgerAccounts = before.ledgerAccounts.put (newAccount draws currency))
    (wallets : after.wallets = before.wallets.put (newWallet draws userId currency))
    (transactions : after.ledgerTransactions = before.ledgerTransactions)
    (postings : after.ledgerPostings = before.ledgerPostings) : Books after := by
  have mem_account {a : LedgerAccount} : a ∈ after.ledgerAccounts ↔ a = newAccount draws currency ∨ a ∈ before.ledgerAccounts := by
    rw [accounts]
    exact Table.mem_put_of_fresh freshAccount
  have mem_wallet {w : Wallet} : w ∈ after.wallets ↔ w = newWallet draws userId currency ∨ w ∈ before.wallets := by
    rw [wallets]
    exact Table.mem_put_of_fresh freshWallet
  have same {id : Uuid} : after.postingsOf id = before.postingsOf id := by
    rw [Db.postingsOf, postings, Db.postingsOf]
  refine ⟨fun a ha => ?_, fun w hw => ?_, fun a ha wallet => ?_, fun t ht => ?_, fun t ht => ?_, fun t ht => ?_,
    fun p hp t ht own a ha on => ?_⟩
  · rw [postings]
    rcases mem_account.mp ha with rfl | ha
    · exact (moved_of_fresh sound freshAccount).symm
    · exact h.balance a ha
  · rcases mem_wallet.mp hw with rfl | hw
    · exact ⟨newAccount draws currency, mem_account.mpr (.inl rfl), rfl, rfl, rfl, rfl⟩
    · obtain ⟨a, ha, rest⟩ := h.owned w hw
      exact ⟨a, mem_account.mpr (.inr ha), rest⟩
  · rcases mem_account.mp ha with rfl | ha
    · exact ⟨newWallet draws userId currency, mem_wallet.mpr (.inl rfl), rfl⟩
    · obtain ⟨w, hw, link⟩ := h.linked a ha wallet
      exact ⟨w, mem_wallet.mpr (.inr hw), link⟩
  · exact h.isSealed t (transactions ▸ ht)
  · rw [same]
    exact h.two_le t (transactions ▸ ht)
  · rw [same]
    exact h.balanced t (transactions ▸ ht)
  · have hp : p ∈ before.ledgerPostings := postings ▸ hp
    rcases mem_account.mp ha with rfl | ha
    · obtain ⟨b, hb, same⟩ := sound.account_of hp
      exact absurd (same.trans on.symm) (freshAccount b hb)
    · exact h.currency p hp t (transactions ▸ ht) own a ha on

theorem closed (h : Books before) {draws : Draws} {w : Wallet} (mem : w ∈ before.wallets)
    (accounts : after.ledgerAccounts = before.ledgerAccounts) (wallets : after.wallets = before.wallets.put (closedWallet draws w))
    (transactions : after.ledgerTransactions = before.ledgerTransactions)
    (postings : after.ledgerPostings = before.ledgerPostings) : Books after := by
  have unchanged : Books { after with wallets := before.wallets } := h.congr accounts rfl transactions postings
  refine ⟨unchanged.balance, fun x hx => ?_, fun a ha wallet => ?_, unchanged.isSealed, unchanged.two_le,
    unchanged.balanced, unchanged.currency⟩
  · rw [wallets] at hx
    rw [accounts]
    rcases Table.mem_put.mp hx with rfl | ⟨hx, _⟩
    · exact h.owned w mem
    · exact h.owned x hx
  · rw [accounts] at ha
    obtain ⟨x, hx, link⟩ := h.linked a ha wallet
    rw [wallets]
    by_cases same : x.id = w.id
    · obtain rfl := Table.eq_of_key_eq hx mem same
      exact ⟨closedWallet draws x, Table.mem_put_self _ _, link⟩
    · exact ⟨x, Table.mem_put_of_ne hx same, link⟩

/-- The postings of a transaction once a movement has been posted. -/
theorem postingsOf_moved {m : Movement} (posts : Posts m before after) (sound : before.Sound) (id : Uuid) :
    after.postingsOf id = if id = m.opened.id then m.postings else before.postingsOf id := by
  rw [Db.postingsOf, posts.ledgerPostings, List.filter_append]
  split
  · rename_i same
    subst same
    rw [List.filter_eq_nil_iff.mpr, List.nil_append, List.filter_eq_self.mpr]
    · intro p hp
      simpa using m.own p hp
    · intro p hp own
      obtain ⟨t, ht, same⟩ := sound.transaction_of (p := p) hp
      exact (posts.fresh t ht).1 (same.trans (by simpa using own))
  · rename_i other
    have none : m.postings.filter (fun p => p.ledgerTransactionId = id) = [] := by
      rw [List.filter_eq_nil_iff]
      intro p hp
      rw [m.own p hp]
      simpa using Ne.symm other
    rw [none, List.append_nil]
    rfl

theorem posted (h : Books before) (sound : before.Sound) {m : Movement} (posts : Posts m before after) : Books after := by
  have wallets := posts.wallets_modify sound fun w hw a ha same => h.kind_of_owned hw ha same
  have mem_account {a : LedgerAccount} : a ∈ after.ledgerAccounts ↔ ∃ b ∈ before.ledgerAccounts, m.onAccount b = a := by
    rw [posts.ledgerAccounts]
    exact Table.mem_modify
  have mem_wallet {w : Wallet} : w ∈ after.wallets ↔ ∃ x ∈ before.wallets, m.onWallet x = w := by
    rw [wallets]
    exact Table.mem_modify
  have mem_transaction {t : LedgerTransaction} : t ∈ after.ledgerTransactions ↔ t ∈ before.ledgerTransactions ∨ t = m.sealed := by
    rw [Table.mem_def, posts.ledgerTransactions]
    simp [Table.mem_def]
  refine ⟨fun a ha => ?_, fun w hw => ?_, fun a ha wallet => ?_, fun t ht => ?_, fun t ht => ?_, fun t ht => ?_,
    fun p hp t ht own a ha on => ?_⟩
  · obtain ⟨b, hb, rfl⟩ := mem_account.mp ha
    rw [posts.ledgerPostings, moved, total_append, Movement.onAccount_balance, h.balance b hb]
    rfl
  · obtain ⟨x, hx, rfl⟩ := mem_wallet.mp hw
    obtain ⟨a, ha, id, kind, currency, balance⟩ := h.owned x hx
    refine ⟨m.onAccount a, mem_account.mpr ⟨a, ha, rfl⟩, ?_⟩
    simp [id, kind, currency, balance]
  · obtain ⟨b, hb, rfl⟩ := mem_account.mp ha
    obtain ⟨x, hx, link⟩ := h.linked b hb wallet
    exact ⟨m.onWallet x, mem_wallet.mpr ⟨x, hx, rfl⟩, by simpa using link⟩
  · rcases mem_transaction.mp ht with ht | rfl
    · exact h.isSealed t ht
    · rfl
  · rw [postingsOf_moved posts sound]
    rcases mem_transaction.mp ht with ht | rfl
    · rw [if_neg (posts.fresh t ht).1]
      exact h.two_le t ht
    · rw [if_pos Movement.sealed_id]
      exact m.two_le
  · rw [postingsOf_moved posts sound]
    rcases mem_transaction.mp ht with ht | rfl
    · rw [if_neg (posts.fresh t ht).1]
      exact h.balanced t ht
    · rw [if_pos Movement.sealed_id]
      exact m.balanced
  · obtain ⟨b, hb, rfl⟩ := mem_account.mp ha
    rw [Table.mem_def, posts.ledgerPostings, List.mem_append] at hp
    rcases hp with hp | hp
    · rcases mem_transaction.mp ht with ht | rfl
      · exact h.currency p hp t ht own b hb on
      · obtain ⟨t, ht, same⟩ := sound.transaction_of (p := p) hp
        exact absurd (same.trans own.symm) (posts.fresh t ht).1
    · have same : t = m.sealed := by
        rcases mem_transaction.mp ht with ht | rfl
        · exact absurd (own.trans (m.own p hp)) (posts.fresh t ht).1
        · rfl
      obtain ⟨x, hx, id⟩ := Movement.exists_of_id_mem (List.mem_map.mpr ⟨p, hp, rfl⟩ : p.accountId ∈ m.accountIds)
      have only : b = x.1 := Table.eq_of_key_eq hb (posts.accounts_mem x hx) (on.trans id.symm)
      rw [same, Movement.onAccount_currency, only]
      exact (m.admissible x hx).currency

theorem ledgers (h : Books before) (sound : before.Sound) (step : Ledgers before after) : Books after := by
  cases step with
  | same accounts wallets transactions postings => exact h.congr accounts wallets transactions postings
  | opened draws userId currency freshAccount freshWallet accounts wallets transactions postings =>
      exact h.opened sound freshAccount freshWallet accounts wallets transactions postings
  | closed draws w mem _ _ accounts wallets transactions postings =>
      exact h.closed mem accounts wallets transactions postings
  | moved m posts => exact h.posted sound posts

/-- Debits and credits of one currency cancel out. -/
theorem conserved {db : Db} (h : Books db) (sound : db.Sound) (currency : Currency) :
    ((db.ledgerAccounts.rows.filter fun a => a.currency = currency).map LedgerAccount.balanceMinor).sum = 0 :=
  balances_cancel (fun _ hp => sound.account_of hp) (fun _ hp => sound.transaction_of hp) h.balance h.balanced h.currency
    currency

end Books

/-! ## Every reachable state -/

theorem migrated_sound : migrated.Sound := by
  have rows (r : Row) : r ∈ migrated ↔ r = .ledgerAccount usdClearing ∨ r = .ledgerAccount ngnClearing := by
    have all : migrated.rows = [.ledgerAccount usdClearing, .ledgerAccount ngnClearing] := by decide
    rw [← Db.mem_rows, all]
    simp
  have different : ∀ k ∈ (Row.ledgerAccount usdClearing).keys, k ∉ (Row.ledgerAccount ngnClearing).keys := by decide
  refine ⟨fun r hr r' hr' k hk hk' => ?_, fun r hr k hk => ?_, fun r hr => ?_⟩
  · rcases (rows r).mp hr with rfl | rfl
    · rcases (rows r').mp hr' with rfl | rfl
      · rfl
      · exact absurd hk' (different k hk)
    · rcases (rows r').mp hr' with rfl | rfl
      · exact absurd hk (different k hk')
      · rfl
  · rcases (rows r).mp hr with rfl | rfl <;> cases hk
  · rcases (rows r).mp hr with rfl | rfl <;> exact Row.accept_eq_ok.mpr (by decide)

theorem migrated_books : Books migrated where
  balance := by
    intro a ha
    have zero : ∀ a ∈ migrated.ledgerAccounts.rows, a.balanceMinor = 0 := by decide
    exact zero a ha
  owned := fun w hw => absurd hw (Table.not_mem_empty w)
  linked := by
    intro a ha wallet
    have system : ∀ a ∈ migrated.ledgerAccounts.rows, a.kind = .system := by decide
    cases (system a ha).symm.trans wallet
  isSealed := fun t ht => absurd ht (Table.not_mem_empty t)
  two_le := fun t ht => absurd ht (Table.not_mem_empty t)
  balanced := fun t ht => absurd ht (Table.not_mem_empty t)
  currency := fun p hp => absurd hp (Table.not_mem_empty p)

section
variable {sha256Hex : String → String} {c : Config Db Settings Row Key DbError HttpException AttemptOutcome Result Request}

theorem reachable_books {initial : Db} (sound : initial.Sound) (books : Books initial)
    (h : (system sha256Hex initial).Reachable c) {i : Nat} (le : i ≤ c.log.length) :
    (stateAt initial c.log i).Sound ∧ Books (stateAt initial c.log i) := by
  refine @reachable_changes sha256Hex initial c (fun db => db.Sound ∧ Books db) (fun _ _ => True) (fun _ => trivial)
    (fun _ _ => trivial) ⟨sound, books⟩ ?_ h |>.1 i le
  intro base now i outcome ws _ _ _ ⟨sound, books⟩ accepts change
  exact ⟨⟨accepts.sound sound, books.ledgers sound (change.shape.ledgers accepts)⟩, trivial⟩

end

/-- The ledger invariant as the tables show it. -/
structure LedgerInvariant (db : Db) : Prop where
  accounts : ∀ a ∈ db.ledgerAccounts, a.balanceMinor =
    ((db.ledgerPostings.rows.filter fun p => p.accountId = a.id).map LedgerPosting.amountMinor).sum
  wallets : ∀ a ∈ db.ledgerAccounts, a.kind = .wallet → ∃ w ∈ db.wallets,
    (∀ x ∈ db.wallets, x.ledgerAccountId = a.id ↔ x = w) ∧ w.currency = a.currency ∧
      w.currentBalanceMinor = a.balanceMinor ∧ 0 ≤ w.currentBalanceMinor
  systems : ∀ a ∈ db.ledgerAccounts, a.kind = .system → ∀ w ∈ db.wallets, w.ledgerAccountId ≠ a.id
  transactions : ∀ t ∈ db.ledgerTransactions, t.sealedAt.isSome ∧ 2 ≤ (db.postingsOf t.id).length ∧
    ((db.postingsOf t.id).map LedgerPosting.accountId).Nodup ∧
    ((db.postingsOf t.id).map LedgerPosting.amountMinor).sum = 0 ∧
    ∀ p ∈ db.postingsOf t.id, p.amountMinor ≠ 0 ∧
      ∃ a ∈ db.ledgerAccounts, a.id = p.accountId ∧ a.currency = t.currency
  conserved : ∀ currency,
    ((db.ledgerAccounts.rows.filter fun a => a.currency = currency).map LedgerAccount.balanceMinor).sum = 0
  range : (∀ a ∈ db.ledgerAccounts, isBigInt a.balanceMinor) ∧ (∀ w ∈ db.wallets, isBigInt w.currentBalanceMinor) ∧
    ∀ p ∈ db.ledgerPostings, isBigInt p.amountMinor
  audit : AuditLedger.unbalancedOrUnsealedTransactions db = 0 ∧ AuditLedger.accountSnapshotMismatch db = 0 ∧
    AuditLedger.walletSnapshotMismatch db = 0 ∧ AuditLedger.postingCurrencyMismatch db = 0

namespace Books
variable {db : Db}

theorem accounts_distinct (sound : db.Sound) (id : Uuid) : ((db.postingsOf id).map LedgerPosting.accountId).Nodup := by
  refine List.Nodup.map_on (fun p hp q hq same => ?_) ((List.Nodup.of_map _ db.ledgerPostings.unique).filter _)
  obtain ⟨hp, own⟩ := Db.mem_postingsOf.mp hp
  obtain ⟨hq, own'⟩ := Db.mem_postingsOf.mp hq
  have slot : Row.ledgerPosting p = Row.ledgerPosting q :=
    sound.unique _ hp _ hq (.postingAccount p.ledgerTransactionId p.accountId) (by simp [Row.keys, Row.slots])
      (by simp [Row.keys, Row.slots, own, own', same])
  simpa using slot

/-- What a row passes at its table. -/
theorem checked (sound : db.Sound) {r : Row} (hr : r ∈ db) {c : String × Bool} (mem : c ∈ r.checks) : c.2 = true :=
  (Row.accept_eq_ok.mp (sound.checked r hr)).2 c mem

theorem invariant (h : Books db) (sound : db.Sound) : LedgerInvariant db := by
  have amounts : ∀ p ∈ db.ledgerPostings, isBigInt p.amountMinor ∧ p.amountMinor ≠ 0 := by
    intro p hp
    refine ⟨checked sound (r := .ledgerPosting p) hp (c := bigint p.amountMinor) (by simp [Row.checks]), ?_⟩
    have := checked sound (r := .ledgerPosting p) hp (c := ("LedgerPosting_nonzero_amount_check", p.amountMinor != 0))
      (by simp [Row.checks])
    simpa using this
  have balances : ∀ w ∈ db.wallets, isBigInt w.currentBalanceMinor ∧ 0 ≤ w.currentBalanceMinor := by
    intro w hw
    refine ⟨checked sound (r := .wallet w) hw (c := bigint w.currentBalanceMinor) (by simp [Row.checks]), ?_⟩
    have := checked sound (r := .wallet w) hw
      (c := ("Wallet_nonnegative_balance_check", 0 ≤ w.currentBalanceMinor)) (by simp [Row.checks])
    simpa using this
  have totals : ∀ a ∈ db.ledgerAccounts, a.balanceMinor =
      ((db.ledgerPostings.rows.filter fun p => p.accountId = a.id).map LedgerPosting.amountMinor).sum := by
    intro a ha
    rw [h.balance a ha]
    exact total_eq_sum_filter
  refine ⟨totals, fun a ha wallet => ?_, fun a ha system w hw link => ?_, fun t ht => ?_, h.conserved sound,
    ⟨fun a ha => ?_, fun w hw => (balances w hw).1, fun p hp => (amounts p hp).1⟩, ?_, ?_, ?_, ?_⟩
  · obtain ⟨w, hw, link⟩ := h.linked a ha wallet
    obtain ⟨b, hb, id, _, currency, balance⟩ := h.owned w hw
    obtain rfl := Table.eq_of_key_eq ha hb (link.symm.trans id.symm)
    refine ⟨w, hw, fun x hx => ⟨fun same => ?_, fun e => e ▸ link⟩, currency, balance, (balances w hw).2⟩
    have slot : Row.wallet x = Row.wallet w :=
      sound.unique _ hx _ hw (.walletAccount a.id) (by simp [Row.keys, Row.slots, same])
        (by simp [Row.keys, Row.slots, link])
    simpa using slot
  · cases system.symm.trans (h.kind_of_owned hw ha link.symm)
  · refine ⟨h.isSealed t ht, h.two_le t ht, accounts_distinct sound t.id, h.balanced t ht, fun p hp => ?_⟩
    obtain ⟨hp, own⟩ := Db.mem_postingsOf.mp hp
    obtain ⟨a, ha, on⟩ := sound.account_of hp
    exact ⟨(amounts p hp).2, a, ha, on, h.currency p hp t ht own.symm a ha on⟩
  · exact checked sound (r := .ledgerAccount a) ha (c := bigint a.balanceMinor) (by simp [Row.checks])
  · rw [AuditLedger.unbalancedOrUnsealedTransactions, List.countP_eq_zero]
    intro t ht
    have isSealed := Option.isSome_iff_ne_none.mp (h.isSealed t ht)
    have two_le := h.two_le t ht
    simp only [h.balanced t ht, Option.isNone_eq_false_iff.mpr (Option.isSome_iff_ne_none.mpr isSealed), bne_self_eq_false,
      Bool.or_false, Bool.false_or, decide_eq_true_eq]
    omega
  · rw [AuditLedger.accountSnapshotMismatch, List.countP_eq_zero]
    intro a ha
    simp [← totals a ha]
  · rw [AuditLedger.walletSnapshotMismatch, List.countP_eq_zero]
    intro w hw
    obtain ⟨a, ha, id, _, currency, balance⟩ := h.owned w hw
    rw [Table.find?_eq_some.mpr ⟨ha, id⟩]
    simp [currency, balance, balance ▸ (balances w hw).2]
  · rw [AuditLedger.postingCurrencyMismatch, List.countP_eq_zero]
    intro p hp
    obtain ⟨a, ha, on⟩ := sound.account_of hp
    obtain ⟨t, ht, own⟩ := sound.transaction_of hp
    rw [Table.find?_eq_some.mpr ⟨ha, on⟩, Table.find?_eq_some.mpr ⟨ht, own⟩]
    simp [h.currency p hp t ht own a ha on]

end Books

/-- However calls interleave, fail and commit, the ledger invariant holds. -/
theorem ledger_invariant {sha256Hex : String → String}
    {c : Config Db Settings Row Key DbError HttpException AttemptOutcome Result Request}
    (h : (system sha256Hex migrated).Reachable c) : LedgerInvariant (stateAt migrated c.log c.log.length) := by
  obtain ⟨sound, books⟩ := reachable_books migrated_sound migrated_books h le_rfl
  exact books.invariant sound

/-- A database as the migrations leave it, before the first call. -/
structure Opening (db : Db) : Prop where
  sound : db.Sound
  books : Books db
  closed : ∀ w ∈ db.wallets, w.status = .closed → w.currentBalanceMinor = 0
  transfers : db.transfers = .empty
  transferReversals : db.transferReversals = .empty
  idempotencyRecords : db.idempotencyRecords = .empty
  auditLogs : db.auditLogs = .empty
  outboxEvents : db.outboxEvents = .empty
  webhookDeliveries : db.webhookDeliveries = .empty
  payments : db.payments = .empty
  providerEvents : db.providerEvents = .empty

theorem migrated_opening : Opening migrated :=
  ⟨migrated_sound, migrated_books, fun w hw => absurd hw (Table.not_mem_empty w), rfl, rfl, rfl, rfl, rfl, rfl, rfl, rfl⟩

/-! ## A run -/

def sampleGroups (n m : Nat) : List (List Char) := [
  .replicate 8 '0', .replicate 4 '0', '4' :: .replicate 3 '0', '8' :: .replicate 3 '0',
  .replicate 8 '0' ++ ['1', hexDigit (n % 16), hexDigit (m / 16 % 16), hexDigit (m % 16)]]

theorem isUuidText_sampleGroups (n m : Nat) : isUuidText (.ofList (['-'].intercalate (sampleGroups n m))) := by
  have hex : ∀ d < 16, isLowerHex (hexDigit d) := by decide
  have digits : (sampleGroups n m).all (·.all isLowerHex) := by
    have others : isLowerHex '0' ∧ isLowerHex '1' ∧ isLowerHex '4' ∧ isLowerHex '8' := by decide
    simp [sampleGroups, others, hex (n % 16) (by omega), hex (m / 16 % 16) (by omega), hex (m % 16) (by omega)]
  have no_dash : ∀ g ∈ sampleGroups n m, '-' ∉ g := fun g hg mem =>
    Bool.noConfusion (List.all_eq_true.mp (List.all_eq_true.mp digits g hg) '-' mem)
  rw [isUuidText, String.toList_ofList, List.splitOn_intercalate '-' no_dash (by simp [sampleGroups]), digits, Bool.and_true]
  rfl

/-- An id by its last digits. -/
def sampleUuid (n m : Nat) : Uuid :=
  ⟨_, isUuidText_sampleGroups n m, toLower_of_isUuidText (isUuidText_sampleGroups n m)⟩

/-- The draws of the `n`-th call. -/
def sampleDraws (n : Nat) : Draws where
  id table := sampleUuid n table.ctorIdx
  reference := sampleUuid n 32
  posting accountId := sampleUuid n (48 + [usdClearing.id, sampleUuid 0 2].idxOf accountId)
  delivery _ := sampleUuid n 64
  createdAt _ := n
  date _ := n

def sampleHash (s : String) : String :=
  if s = "\x7b\"walletId\":\"00000000-0000-4000-8000-000000001001\",\"amountMinor\":\"5000\"\x7d" then
    "38c5c7d0d40e8d6d2380b344e15c1364d0eee1995ceb2bdffe238c0b78db1846"
  else if s = "\x7b\"transferId\":\"00000000-0000-4000-8000-000000001406\",\"reason\":\"duplicate\"\x7d" then
    "fc4bce9f9c8c03a57bd2f3fbfc01ecd2d3c70d09f5ecb797c99ad34d126684ae"
  else "edba09eaf8413837c1b731db4ce7fa5b820d7d21d6281073ea408931d85c0c39"

def sampleUser (n : Nat) (email : String) : Request :=
  .register (sampleDraws n) { email, passwordHash := "hash", firstName := "Ada", lastName := "Obi" }

theorem succeeded_terminal : PaymentStatus.succeeded ≠ .pending := by decide

def sampleFunding : VerifiedPaymentEvent where
  eventId := "evt-1"
  reference := "payment:" ++ (sampleDraws 2).reference.text
  amountMinor := "5000"
  currency := .usd
  status := .succeeded
  terminal := succeeded_terminal
  payloadHash := "edba09eaf8413837c1b731db4ce7fa5b820d7d21d6281073ea408931d85c0c39"

def sampleSubscriber : WebhookSubscription where
  id := sampleUuid 6 14
  userId := sampleUuid 0 0
  url := "https://hooks.example.com/ada"
  encryptedSecret := "v1:secret"
  createdAt := 6

/-- Two users register; the first is paid 5000, transfers half of it to the second, subscribes to events, and reverses
the transfer. -/
def sampleCalls : List Request := [
  sampleUser 0 "ada@example.com",
  sampleUser 1 "obi@example.com",
  .createPayment (sampleDraws 2) false (sampleUuid 0 0) (some "pay-1")
    { walletId := (sampleUuid 0 1).text, amountMinor := "5000" },
  .settle (fun _ => sampleDraws 3) sampleFunding .mock,
  .createTransfer (sampleDraws 4) (sampleUuid 0 0) (some "transfer-1")
    { sourceWalletId := (sampleUuid 0 1).text, destinationWalletId := some (sampleUuid 1 1).text, amountMinor := "2500" },
  .other .readCommitted [.webhookSubscription sampleSubscriber],
  .createReversal (sampleDraws 5) (sampleUuid 0 0) (sampleUuid 4 6).text (some "reversal-1") { reason := some "duplicate" }]

def sampleLog (n : Nat) : List (Entry Request Row) := (system sampleHash migrated).performAll (sampleCalls.take n) [] 0

/-- The state that the run leaves. -/
def sampleState : Db := stateAt migrated (sampleLog 7) 7

theorem sampleLog_seven : (sampleLog 7).length = 7 ∧
    sampleState.wallets.rows.map Wallet.currentBalanceMinor = [5000, 0] ∧
    sampleState.transfers.rows.map Transfer.id = [sampleUuid 4 6] ∧
    sampleState.transferReversals.rows.map TransferReversal.transferId = [sampleUuid 4 6] ∧
    sampleState.idempotencyRecords.rows.map IdempotencyRecord.key = ["transfer-1", "reversal-1"] ∧
    sampleState.auditLogs.rows.map AuditLog.transferId = [sampleUuid 4 6, sampleUuid 4 6] ∧
    sampleState.ledgerTransactions.rows.length = 3 ∧
    sampleState.outboxEvents.rows.length = 3 ∧
    sampleState.webhookDeliveries.rows.map WebhookDelivery.subscriptionId = [sampleSubscriber.id] := by
  decide +kernel

/-- The first calls of the run have been made. -/
theorem sample_reachable (n : Nat) : ∃ c, (system sampleHash migrated).Reachable c ∧ c.log = sampleLog n :=
  System.reachable_performAll _ _

theorem sampleLog_request {n : Nat} {e : Entry Request Row} (h : e ∈ sampleLog n) : e.request ∈ sampleCalls := by
  rcases System.request_of_mem_performAll h with none | mem
  · cases none
  · exact List.mem_of_mem_take mem

/-- Nothing in the run posts past the services. -/
theorem sampleLog_ordinary {n : Nat} {e : Entry Request Row} (h : e ∈ sampleLog n) (draws : Draws)
    (input : LedgerTransactionInput) : e.request ≠ .post draws input := by
  have mem := sampleLog_request h
  simp only [sampleCalls, sampleUser, List.mem_cons, List.not_mem_nil, or_false] at mem
  rcases mem with mem | mem | mem | mem | mem | mem | mem <;> rw [mem] <;> exact Request.noConfusion

theorem sampleState_reached : ∃ c, (system sampleHash migrated).Reachable c ∧ c.log = sampleLog 7 ∧ c.log.length = 7 ∧
    stateAt migrated c.log 7 = sampleState := by
  obtain ⟨c, reach, log⟩ := sample_reachable 7
  exact ⟨c, reach, log, log ▸ sampleLog_seven.1, log ▸ rfl⟩

attribute [irreducible] sampleState

theorem ledger_invariant_sample : sampleState.wallets.rows.map Wallet.currentBalanceMinor = [5000, 0] ∧
    LedgerInvariant sampleState := by
  obtain ⟨c, reach, _, length, state⟩ := sampleState_reached
  have invariant := ledger_invariant reach
  rw [length, state] at invariant
  exact ⟨sampleLog_seven.2.1, invariant⟩

end Fintech
