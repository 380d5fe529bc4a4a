import Fintech.Proof.Execution
import Fintech.Proof.LedgerInput
import Fintech.Proof.Postable

/-!
# What is posted

The exact behaviour of `LedgerService.postWithinTransaction`: when it succeeds, and what it leaves behind.
-/

namespace Fintech
open Relational Transactional

/-! ## The writes of a movement are executed -/

/-- The movement is of what `db` holds, and its new rows are new there. -/
structure Movement.Ready (m : Movement) (db : Db) : Prop where
  transaction : ∀ t ∈ db.ledgerTransactions, t.id ≠ m.opened.id ∧ t.reference ≠ m.opened.reference
  postings : ∀ p ∈ m.postings, ∀ q ∈ db.ledgerPostings, q.id ≠ p.id
  nodup : (m.postings.map LedgerPosting.id).Nodup
  accounts : ∀ a ∈ m.accounts, a.1 ∈ db.ledgerAccounts ∧ a.2 = db.walletOf a.1.id
  check : (Row.ledgerTransaction m.opened).accept = .ok ()
  unsealed : m.opened.sealedAt = none
  timed : m.opened.createdAt ≤ m.sealedAt

namespace Movement
variable {l : Settings} {db : Db} {m : Movement}

theorem Ready.opened (h : m.Ready db) (write : l.ledgerWrite) : (Write.insert (.ledgerTransaction m.opened)).Executed l db := by
  have triggered : beforeInsert db l (.ledgerTransaction m.opened) = .ok () := by
    simp [beforeInsert, protectLedgerTransaction, write, h.unsealed, bind_unit_eq_ok, -bind_eq_ok]
  refine ⟨⟨⟨db, l, triggered⟩, h.check, fun k hk => ?_, fun k hk => absurd hk List.not_mem_nil⟩, triggered⟩
  simp only [Row.keys, Row.pk, Row.slots, List.mem_cons, List.not_mem_nil, or_false] at hk
  rcases hk with rfl | rfl
  · apply Slice.ledgerTransactions.free rfl
    intro t ht
    simpa [Row.keys, Row.pk, Row.slots] using (h.transaction t ht).1.symm
  · apply Slice.ledgerTransactions.free rfl
    intro t ht
    simpa [Row.keys, Row.pk, Row.slots] using (h.transaction t ht).2.symm

/-- The postings are inserted one by one, while their transaction is not sealed. -/
theorem Ready.posted (h : m.Ready db) (sound : db.Sound) (write : l.ledgerWrite) :
    Executes l (db.put (.ledgerTransaction m.opened)) (m.postings.flatMap fun p => [.insert (.ledgerPosting p)]) := by
  have owners : ∀ q ∈ db.ledgerPostings, q.ledgerTransactionId ≠ m.opened.id := by
    intro q hq same
    have mem : Row.ledgerPosting q ∈ db := hq
    have refers : Key.row Slice.ledgerTransactions.name q.ledgerTransactionId ∈ (Row.ledgerPosting q).references := by
      simp [Row.references]
    obtain ⟨t, ht, id⟩ := Slice.ledgerTransactions.exists_of_reference sound mem refers
    exact (h.transaction t ht).1 (id.trans same)
  apply executes_flatMap (P := fun done db' => db'.ledgerTransactions = db.ledgerTransactions.put m.opened ∧
    db'.ledgerAccounts = db.ledgerAccounts ∧ ∀ q ∈ db'.ledgerPostings, q ∈ db.ledgerPostings ∨ q ∈ done)
  · exact ⟨rfl, rfl, fun q hq => .inl hq⟩
  · rintro done p rest db' split ⟨transactions, accounts, postings⟩
    have hp : p ∈ m.postings := by simp [split]
    have earlier : ∀ q ∈ db'.ledgerPostings, q.id ≠ p.id ∧
        ¬ (q.ledgerTransactionId = p.ledgerTransactionId ∧ q.accountId = p.accountId) := by
      intro q hq
      rcases postings q hq with old | new
      · exact ⟨h.postings p hp q old, fun same => owners q old (same.1.trans (m.own p hp))⟩
      · have ids := h.nodup
        have distinct := m.distinct
        rw [split, List.map_append, List.nodup_append] at ids distinct
        exact ⟨ids.2.2 _ (List.mem_map_of_mem new) _ (by simp),
          fun same => distinct.2.2 _ (List.mem_map_of_mem new) _ (by simp) same.2⟩
    have opened : db'.ledgerTransactions.find? p.ledgerTransactionId = some m.opened := by
      rw [transactions, m.own p hp]
      exact Table.find?_put_self _ _
    have triggered : beforeInsert db' l (.ledgerPosting p) = .ok () := by
      simp [beforeInsert, protectLedgerPosting, write, opened, h.unsealed, bind_unit_eq_ok, -bind_eq_ok]
    refine ⟨⟨⟨⟨⟨db', l, triggered⟩, ?check, ?fresh, ?referenced⟩, triggered⟩, trivial⟩, transactions, accounts, ?later⟩
    case check =>
      apply Row.accept_eq_ok.mpr
      simpa [Row.texts, Row.checks, bigint] using ⟨m.bigint p hp, m.nonzero p hp⟩
    case fresh =>
      intro k hk
      simp only [Row.keys, Row.pk, Row.slots, List.mem_cons, List.not_mem_nil, or_false] at hk
      rcases hk with rfl | rfl
      · apply Slice.ledgerPostings.free rfl
        intro q hq
        simpa [Row.keys, Row.pk, Row.slots] using (earlier q hq).1.symm
      · apply Slice.ledgerPostings.free rfl
        intro q hq
        simpa [Row.keys, Row.pk, Row.slots, eq_comm] using (earlier q hq).2
    case referenced =>
      intro k hk
      simp only [Row.references, List.mem_cons, List.not_mem_nil, or_false] at hk
      rcases hk with rfl | rfl
      · rw [m.own p hp]
        exact Slice.ledgerTransactions.taken (Table.find?_eq_some.mp opened).1
      · obtain ⟨a, ha, same⟩ := exists_of_id_mem (List.mem_map_of_mem (f := LedgerPosting.accountId) hp)
        rw [← same]
        have there : a.1 ∈ db'.ledgerAccounts := accounts ▸ (h.accounts a ha).1
        exact Slice.ledgerAccounts.taken there
    case later =>
      intro q hq
      rcases Table.mem_put.mp hq with rfl | ⟨hq, _⟩
      · exact .inr (by simp)
      · rcases postings q hq with old | new
        · exact .inl old
        · exact .inr (by simp [new])

/-- The update of an account, with that of its wallet. -/
theorem executes_account (sound : db.Sound) (write : l.ledgerWrite) {db' : Db} (le : Store.Le db db')
    {a : LedgerAccount × Option Wallet} (ha : a ∈ m.accounts) (mem : a.1 ∈ db.ledgerAccounts)
    (owner : a.2 = db.walletOf a.1.id) (account : a.1 ∈ db'.ledgerAccounts) (wallet : db'.walletOf a.1.id = a.2) :
    Executes l db' (m.accountWrites a) := by
  have admissible := m.admissible a ha
  obtain ⟨texts, checked⟩ := Row.accept_eq_ok.mp (sound.checked (.ledgerAccount a.1) mem)
  have updated : (Write.update (.ledgerAccount a.1) (.ledgerAccount (m.onAccount a.1))).Executed l db' := by
    have triggered : beforeUpdate l (.ledgerAccount a.1) (.ledgerAccount (m.onAccount a.1)) = .ok () := by
      simp [beforeUpdate, protectLedgerAccountIdentity, write, onAccount, bind_unit_eq_ok, -bind_eq_ok]
    refine ⟨⟨account, rfl, ⟨l, triggered⟩, ?_, fun k hk out => absurd hk out, fun k hk => absurd hk List.not_mem_nil⟩, triggered⟩
    refine Row.accept_eq_ok.mpr ⟨texts, ?_⟩
    have range := admissible.range
    have funded := admissible.funded
    simp only [Row.checks, List.mem_cons, List.not_mem_nil, or_false, forall_eq_or_imp, forall_eq] at checked ⊢
    exact ⟨range, Bool.or_eq_true_iff.mpr (funded.imp id decide_eq_true), checked.2.2⟩
  rw [accountWrites, executes_cons]
  refine ⟨updated, ?_⟩
  cases there : a.2 with
  | none => trivial
  | some w =>
      rw [Option.map_some, Option.toList_some, executes_cons]
      have link := m.linked a ha w there
      obtain ⟨hw, _⟩ := Db.walletOf_eq_some (wallet.trans there)
      obtain ⟨hw', _⟩ := Db.walletOf_eq_some (owner.symm.trans there)
      have kind : a.1.kind = .wallet := by
        cases kind : a.1.kind with
        | wallet => rfl
        | system =>
            rw [admissible.system kind] at there
            cases there
      obtain ⟨x, same, _, snapshot, _⟩ := admissible.wallet kind
      obtain rfl : w = x := Option.some.inj (there.symm.trans same)
      have triggered : beforeUpdate l (.wallet w) (.wallet (m.onWallet w)) = .ok () := by
        simp [beforeUpdate, protectWallet, write, bind_unit_eq_ok, -bind_eq_ok]
      refine ⟨⟨⟨?mem, by simp [Row.pk], ⟨l, triggered⟩, ?check, ?fresh, ?referenced⟩, triggered⟩, trivial⟩
      case mem => exact Db.mem_put.mpr (.inr ⟨hw, by simp [Row.pk]⟩)
      case check =>
        refine Row.accept_eq_ok.mpr ⟨by simp [Row.texts], ?_⟩
        have range := admissible.range
        have funded := admissible.funded
        have policy : a.1.allowNegative = false := by
          have policy := checked ("LedgerAccount_kind_policy_check", (a.1.kind == .system && a.1.systemKey.isSome) ||
            (a.1.kind == .wallet && a.1.systemKey.isNone && !a.1.allowNegative)) (by simp [Row.checks])
          simp only [kind] at policy
          cases negative : a.1.allowNegative with
          | false => rfl
          | true => simp [negative] at policy
        have balance : (m.onWallet w).currentBalanceMinor = a.1.balanceMinor + moved m.postings a.1.id := by
          rw [onWallet_balance, snapshot, link, amount]
        rw [policy, Bool.false_eq_true, false_or] at funded
        simp only [Row.checks, List.mem_cons, List.not_mem_nil, or_false, forall_eq_or_imp, forall_eq, balance]
        exact ⟨range, by simpa using funded⟩
      case fresh =>
        intro k hk out
        exact absurd (by simpa [Row.slots] using hk) out
      case referenced =>
        intro k hk
        have old : k ∈ (Row.wallet w).references := by simpa [Row.references] using hk
        exact taken_of_le (Store.le_trans le (Store.le_apply _ _)) old (sound.referenced _ hw' k old)

/-- At its turn every account is as it was before, and so is its wallet. -/
theorem Ready.turn (h : m.Ready db) {db' : Db} (accounts : db'.ledgerAccounts = db.ledgerAccounts)
    (wallets : db'.wallets = db.wallets) {done rest : List (LedgerAccount × Option Wallet)} {a : LedgerAccount × Option Wallet}
    (split : m.accounts = done ++ a :: rest) :
    (db'.write (done.flatMap m.accountWrites)).ledgerAccounts.find? a.1.id = some a.1 ∧
      (db'.write (done.flatMap m.accountWrites)).walletOf a.1.id = a.2 := by
  have distinct : (m.accounts.map fun a => a.1.id).Nodup := m.perm.nodup_iff.mpr m.distinct
  have owner (a) (ha : a ∈ m.accounts) : a.2 = db'.walletOf a.1.id := by
    rw [(h.accounts a ha).2, Db.walletOf, Db.walletOf, wallets]
  have ha : a ∈ m.accounts := by simp [split]
  have before : ∀ b ∈ done, b ∈ m.accounts := fun b hb => by simp [split, hb]
  rw [split, List.map_append, List.nodup_append] at distinct
  have other : a.1.id ∉ done.map fun a => a.1.id := fun mem => distinct.2.2 _ mem a.1.id (by simp) rfl
  obtain ⟨account, wallet⟩ := m.frame (fun b hb => owner b (before b hb)) other distinct.1
  rw [accounts] at account
  exact ⟨account.trans (Table.find?_key (h.accounts a ha).1), wallet.trans (owner a ha).symm⟩

/-- The accounts are updated one by one, each as it was before. -/
theorem Ready.updated (h : m.Ready db) (sound : db.Sound) (write : l.ledgerWrite) {db' : Db} (le : Store.Le db db')
    (accounts : db'.ledgerAccounts = db.ledgerAccounts) (wallets : db'.wallets = db.wallets) :
    Executes l db' (m.accounts.flatMap m.accountWrites) := by
  apply executes_flatMap (P := fun done x => x = db'.write (done.flatMap m.accountWrites))
  · rfl
  · rintro done a rest x split rfl
    have ha : a ∈ m.accounts := by simp [split]
    obtain ⟨account, wallet⟩ := h.turn accounts wallets split
    refine ⟨?_, by simp⟩
    exact executes_account sound write (Store.le_trans le (le_applyAll _ _)) ha (h.accounts a ha).1 (h.accounts a ha).2
      (Table.find?_eq_some.mp account).1 wallet

theorem Ready.sealed (h : m.Ready db) (write : l.ledgerWrite) {db' : Db}
    (there : m.opened ∈ db'.ledgerTransactions) :
    (Write.update (.ledgerTransaction m.opened) (.ledgerTransaction m.sealed)).Executed l db' := by
  have triggered : beforeUpdate l (.ledgerTransaction m.opened) (.ledgerTransaction m.sealed) = .ok () := by
    simp [beforeUpdate, protectLedgerTransaction, write, Movement.sealed, h.unsealed, bind_unit_eq_ok, -bind_eq_ok]
  refine ⟨⟨there, rfl, ⟨l, triggered⟩, ?_, fun k hk out => absurd hk out, fun k hk => absurd hk List.not_mem_nil⟩, triggered⟩
  obtain ⟨texts, check⟩ := Row.accept_eq_ok.mp h.check
  refine Row.accept_eq_ok.mpr ⟨texts, ?_⟩
  simp only [Row.checks, varchar, List.mem_cons, List.not_mem_nil, or_false, forall_eq_or_imp, forall_eq] at check ⊢
  exact ⟨check.1, check.2.1, check.2.2.1, decide_eq_true h.timed⟩

/-- The writes before the accounts are updated. -/
def records (m : Movement) : List Write :=
  .insert (.ledgerTransaction m.opened) :: m.postings.map fun p => .insert (.ledgerPosting p)

theorem table_records {ρ : Type} [Keyed ρ Uuid] (slice : Slice ρ) (h : ∀ t, slice.of (.ledgerTransaction t) = none)
    (h' : ∀ p, slice.of (.ledgerPosting p) = none) : slice.table (db.write m.records) = slice.table db := by
  rw [records, Slice.table_write, Slice.written_cons, Slice.written_map]
  simp [h, h']

theorem transactions_records :
    (db.write (m.records ++ m.accounts.flatMap m.accountWrites)).ledgerTransactions = db.ledgerTransactions.put m.opened := by
  have transactions := Slice.ledgerTransactions.table_write db (m.records ++ m.accounts.flatMap m.accountWrites)
  rw [records, Slice.written_append, Slice.written_cons, Slice.written_map,
    written_otherAccounts (fun _ => rfl) fun _ => rfl] at transactions
  simpa [records] using transactions

theorem writes_eq : m.writes = m.records ++ m.accounts.flatMap m.accountWrites ++
    [.update (.ledgerTransaction m.opened) (.ledgerTransaction m.sealed)] := rfl

theorem Ready.executes (h : m.Ready db) (sound : db.Sound) (write : l.ledgerWrite) : Executes l db m.writes := by
  rw [writes_eq, executes_append, executes_append]
  refine ⟨⟨⟨h.opened write, ?_⟩, ?_⟩, ?_, trivial⟩
  · rw [List.map_eq_flatMap]
    exact h.posted sound write
  · exact h.updated sound write (le_applyAll _ _) (table_records .ledgerAccounts (fun _ => rfl) fun _ => rfl)
      (table_records .wallets (fun _ => rfl) fun _ => rfl)
  · apply h.sealed write
    rw [transactions_records]
    exact Table.mem_put_self _ _

end Movement

/-! ## When a posting succeeds -/

/-- What the database draws for a posting is new. -/
structure Draws.FreshPosting (draws : Draws) (db : Db) : Prop where
  transaction : ∀ t ∈ db.ledgerTransactions, t.id ≠ draws.id .ledgerTransaction
  postings : ∀ a ∈ db.ledgerAccounts, ∀ p ∈ db.ledgerPostings, p.id ≠ draws.posting a.id
  distinct : ∀ a ∈ db.ledgerAccounts, ∀ b ∈ db.ledgerAccounts, draws.posting a.id = draws.posting b.id → a = b
  timed : draws.createdAt .ledgerTransaction ≤ draws.date .ledgerTransaction

/-- The account takes the posting: it exists, has the currency and an active wallet, and may show the new balance. -/
structure Takes (db : Db) (currency : Currency) (p : LedgerPostingInput) (a : LedgerAccount) : Prop where
  mem : a ∈ db.ledgerAccounts
  named : a.id.text = p.accountId
  currency : a.currency = currency
  active : a.kind = .wallet → ∀ w ∈ db.wallets, w.ledgerAccountId = a.id → w.status = .active
  range : -2 ^ 63 ≤ a.balanceMinor + p.amountMinor ∧ a.balanceMinor + p.amountMinor < 2 ^ 63
  funded : a.allowNegative ∨ 0 ≤ a.balanceMinor + p.amountMinor

/-- What the services and the unique index on the reference require. -/
structure Admitted (db : Db) (input : LedgerTransactionInput) : Prop where
  normalizes : ∃ normalized, normalizeLedgerTransactionInput input = .ok normalized
  accounts : ∀ p ∈ input.postings, ∃ a, Takes db input.currency p a
  unused : ∀ t ∈ db.ledgerTransactions, t.reference ≠ jsTrim input.reference

/-- And what the text columns require. -/
structure Postable (db : Db) (input : LedgerTransactionInput) : Prop extends Admitted db input where
  texts : ∀ s ∈ jsTrim input.reference :: ((input.description.map jsTrim).filter (· ≠ "")).toList, isText s = true

namespace LedgerService
variable {db : Db} {input : LedgerTransactionInput}

/-- The checks pass every posting that its account takes. -/
theorem nextBalance_of_takes (paired : Paired db) {ids : List String} {currency : Currency} {p : LedgerPostingInput}
    (mem : p.accountId ∈ ids) (h : ∃ a, Takes db currency p a) :
    ∃ next, nextBalance (findAccounts ids db) currency p = .ok next := by
  obtain ⟨a, takes⟩ := h
  have same {b : LedgerAccount} (hb : b ∈ db.ledgerAccounts) (named : b.id.text = p.accountId) : b = a :=
    Table.eq_of_key_eq hb takes.mem (Uuid.ext (named.trans takes.named.symm))
  cases result : nextBalance (findAccounts ids db) currency p with
  | ok next => exact ⟨next, rfl⟩
  | error e =>
      cases refusal_of_nextBalance paired mem result with
      | missing absent => exact absurd takes.named (absent a takes.mem)
      | currency b hb named other =>
          obtain rfl := same hb named
          exact absurd takes.currency other
      | inactive b w hb named hw link inactive =>
          obtain rfl := same hb named
          cases kind : b.kind with
          | wallet => exact absurd (takes.active kind w hw link) inactive
          | system =>
              obtain ⟨x, hx, id, wallet, _⟩ := paired.owned w hw
              obtain rfl := Table.eq_of_key_eq hx hb (id.trans link)
              cases kind.symm.trans wallet
      | range b hb named _ past =>
          obtain rfl := same hb named
          exact absurd (isBigInt_iff.mpr takes.range) past
      | funds b hb named _ nonnegative short =>
          obtain rfl := same hb named
          rcases takes.funded with negative | enough
          · exact absurd negative nonnegative
          · exact absurd enough (not_le.mpr short)

/-- The accounts found are those of the postings, one for each. -/
theorem length_findAccounts (distinct : (input.postings.map LedgerPostingInput.accountId).Nodup)
    (h : ∀ p ∈ input.postings, ∃ a ∈ db.ledgerAccounts, a.id.text = p.accountId) :
    (findAccounts (input.postings.map LedgerPostingInput.accountId) db).length = input.postings.length := by
  set ids := input.postings.map LedgerPostingInput.accountId with hids
  have names : ((findAccounts ids db).map fun a => a.1.id.text).Nodup := by
    have texts := (findAccounts_distinct ids db).map (f := Uuid.text) fun _ _ same => Uuid.ext same
    rwa [List.map_map] at texts
  have perm : ((findAccounts ids db).map fun a => a.1.id.text).Perm ids := by
    rw [List.perm_ext_iff_of_nodup names distinct]
    intro id
    constructor
    · intro mem
      obtain ⟨a, ha, rfl⟩ := List.mem_map.mp mem
      obtain ⟨_, ⟨id, hid, parsed⟩, _⟩ := mem_findAccounts.mp ha
      obtain ⟨p, hp, rfl⟩ := List.mem_map.mp hid
      obtain ⟨b, _, named⟩ := h p hp
      rw [← named, Uuid.parse?_text, Option.some.injEq] at parsed
      rw [← parsed, named]
      exact hid
    · intro mem
      obtain ⟨p, hp, rfl⟩ := List.mem_map.mp mem
      obtain ⟨a, ha, named⟩ := h p hp
      refine List.mem_map.mpr ⟨(a, db.walletOf a.id), mem_findAccounts.mpr ⟨ha, ⟨_, mem, ?_⟩, rfl⟩, named⟩
      rw [← named, Uuid.parse?_text]
  simpa [hids] using perm.length_eq

end LedgerService

theorem Postable.wellFormed {db : Db} {input : LedgerTransactionInput} (h : Postable db input) : WellFormed input := by
  obtain ⟨normalized, ok⟩ := h.normalizes
  exact (normalize_eq_ok.mp ok).1

theorem Postable.known {db : Db} {input : LedgerTransactionInput} (h : Postable db input) :
    ∀ p ∈ input.postings, ∃ a ∈ db.ledgerAccounts, a.id.text = p.accountId := by
  intro p hp
  obtain ⟨a, takes⟩ := h.accounts p hp
  exact ⟨a, takes.mem, takes.named⟩

/-- The movement of a posting that succeeds. -/
structure Prepared (draws : Draws) (input : LedgerTransactionInput) (db : Db) (m : Movement) (next : List (Uuid × Int)) :
    Prop where
  ready : m.Ready db
  opened : m.opened = LedgerService.openedTransaction draws input.trimmed
  sealedAt : m.sealedAt = draws.date .ledgerTransaction
  date : m.date = draws.date .wallet
  accounts : m.accounts = LedgerService.findAccounts (input.postings.map LedgerPostingInput.accountId) db
  balances : input.postings.mapM (LedgerService.nextBalance m.accounts input.currency) = .ok next
  posted : input.postings.mapM (LedgerService.postingRow draws (draws.id .ledgerTransaction)) = .ok m.postings
  lookup : ∀ a ∈ m.accounts, next.lookup a.1.id = some (a.1.balanceMinor + m.amount a.1.id)
  records : List.Forall₂ (fun p (row : LedgerPosting) => row.accountId.text = p.accountId ∧ row.amountMinor = p.amountMinor)
    input.postings m.postings

theorem Postable.prepared {db : Db} {input : LedgerTransactionInput} {draws : Draws} (h : Postable db input)
    (paired : Paired db) (fresh : draws.FreshPosting db) : ∃ m next, Prepared draws input db m next := by
  have wellFormed := h.wellFormed
  have count := LedgerService.length_findAccounts wellFormed.distinct h.known
  obtain ⟨next, balances⟩ := exists_mapM_eq_ok fun p hp =>
    LedgerService.nextBalance_of_takes paired (List.mem_map_of_mem (f := LedgerPostingInput.accountId) hp) (h.accounts p hp)
  have rows : ∀ p ∈ input.postings, ∃ row, LedgerService.postingRow draws (draws.id .ledgerTransaction) p = .ok row := by
    intro p hp
    obtain ⟨u, cast, _⟩ := castUuid_of_isUuidV4 (wellFormed.accounts p hp)
    exact ⟨_, bind_eq_ok.mpr ⟨u, cast, rfl⟩⟩
  obtain ⟨rows, posted⟩ := exists_mapM_eq_ok rows
  have norm := Normalized.of_ok (normalize_eq_ok.mpr ⟨wellFormed, rfl⟩)
  obtain ⟨m, opened, sealedAt, date, rfl, accounts, lookup, records⟩ := LedgerService.exists_movement norm count
    (mapM_eq_ok.mp balances) (mapM_eq_ok.mp posted)
  have owner : ∀ row ∈ m.postings, ∃ a ∈ db.ledgerAccounts, a.id = row.accountId ∧ row.id = draws.posting a.id := by
    intro row hrow
    obtain ⟨p, ⟨hp, made⟩⟩ := exists_of_forall₂ (forall₂_mem (mapM_eq_ok.mp posted)) hrow
    obtain ⟨a, takes⟩ := h.accounts p hp
    rw [LedgerService.postingRow_eq_ok takes.named made.2]
    exact ⟨a, takes.mem, rfl, rfl⟩
  refine ⟨m, next, ⟨?transaction, ?postings, ?nodup, ?accounts, ?check, ?unsealed, ?timed⟩, opened, sealedAt, date, accounts, ?_,
    posted, lookup, records⟩
  case transaction =>
    intro t ht
    rw [opened]
    exact ⟨fresh.transaction t ht, h.unused t ht⟩
  case postings =>
    intro row hrow q hq
    obtain ⟨a, ha, _, id⟩ := owner row hrow
    rw [id]
    exact fresh.postings a ha q hq
  case nodup =>
    apply m.distinct.of_map.map_on
    intro row hrow row' hrow' same
    obtain ⟨a, ha, account, id⟩ := owner row hrow
    obtain ⟨b, hb, account', id'⟩ := owner row' hrow'
    have equal := fresh.distinct a ha b hb (id.symm.trans (same.trans id'))
    exact List.inj_on_of_nodup_map m.distinct hrow hrow' (account.symm.trans (equal ▸ account'))
  case accounts =>
    intro a ha
    rw [accounts] at ha
    obtain ⟨mem, _, owner⟩ := LedgerService.mem_findAccounts.mp ha
    exact ⟨mem, owner⟩
  case check =>
    have checks := Row.check_eq_ok.mp (wellFormed.transaction_check (t := m.opened) (by rw [opened]; rfl) (by rw [opened]; rfl)
      (by rw [opened]; rfl))
    refine Row.accept_eq_ok.mpr ⟨?_, checks⟩
    rw [opened]
    exact h.texts
  case unsealed =>
    rw [opened]
    rfl
  case timed =>
    rw [opened, sealedAt]
    exact fresh.timed
  · rw [accounts]
    exact balances

/-! ## The statements -/

section
variable {s : Db} {l : Settings} {v : View Settings Row Key} {ws : List Write} {m : Movement}

/-- The trigger after the update of an account updates its wallet, if it has one. -/
theorem sync_executed (ws : List Write) {db : Db} (sound : db.Sound) {a : LedgerAccount × Option Wallet} (ha : a ∈ m.accounts)
    (wallet : db.walletOf a.1.id = a.2) (executes : Executes l db (m.accountWrites a)) :
    ∃ vs, m.accountWrites a = .update (.ledgerAccount a.1) (.ledgerAccount (m.onAccount a.1)) :: vs ∧
      syncWalletBalanceFromLedgerAccount db
          (l.after (ws ++ [.update (.ledgerAccount a.1) (.ledgerAccount (m.onAccount a.1))])) a.1 (m.onAccount a.1) m.date =
        .ok (l.after (ws ++ m.accountWrites a), vs.map Write.row) := by
  refine ⟨_, rfl, ?_⟩
  obtain ⟨_, rest⟩ := executes
  cases kind : a.1.kind with
  | system =>
      have none := (m.admissible a ha).system kind
      simp [syncWalletBalanceFromLedgerAccount, kind, none, Movement.accountWrites]
  | wallet =>
      have changes : a.1.balanceMinor + m.amount a.1.id ≠ a.1.balanceMinor := by
        have := Movement.amount_ne_zero (Movement.id_mem ha)
        omega
      obtain ⟨w, owner, _, snapshot, _⟩ := (m.admissible a ha).wallet kind
      have link := m.linked a ha w owner
      have moved : ({ w with currentBalanceMinor := (m.onAccount a.1).balanceMinor, updatedAt := m.date } : Wallet) =
          m.onWallet w := by
        rw [Movement.onWallet, if_pos (link ▸ Movement.id_mem ha), snapshot, link]
        rfl
      rw [owner] at wallet rest
      have second : (Write.update (.wallet w) (.wallet (m.onWallet w))).Executed l db := by
        obtain ⟨⟨accepted, triggered⟩, _⟩ := rest
        refine ⟨⟨(Db.walletOf_eq_some wallet).1, accepted.pk, accepted.allowed, accepted.check, fun k hk out => ?_,
          fun k hk => ?_⟩, triggered⟩
        · exact absurd (by simpa [Row.slots] using hk) out
        · exact sound.referenced (.wallet w) (Db.walletOf_eq_some wallet).1 k (by simpa [Row.references] using hk)
      have synced := @Write.Executed.update_eq l db
        (ws ++ [.update (.ledgerAccount a.1) (.ledgerAccount (m.onAccount a.1))]) _ _ second
      rw [← moved] at synced
      rw [syncWalletBalanceFromLedgerAccount, if_pos ⟨kind, changes⟩, Movement.onAccount_id, wallet]
      refine bind_eq_ok.mpr ⟨_, synced, ?_⟩
      rw [Movement.onAccount_balance] at moved
      simp only [Movement.accountWrites, owner, Option.map_some, Option.toList_some, pure, Except.pure, List.map_cons,
        List.map_nil, Write.row_update, Movement.onAccount_balance, moved, List.append_assoc, List.cons_append,
        List.nil_append]

/-- The update of an account, with the wallet that its trigger updates. -/
theorem runs_updateLedgerAccount (h : Stands l v ws) (sound : (s.write ws).Sound) {a : LedgerAccount × Option Wallet}
    (ha : a ∈ m.accounts) (account : (s.write ws).ledgerAccounts.find? a.1.id = some a.1)
    (wallet : (s.write ws).walletOf a.1.id = a.2) (executes : Executes l (s.write ws) (m.accountWrites a)) :
    (updateLedgerAccount a.1.id (a.1.balanceMinor + m.amount a.1.id) m.date).Runs s
      (fun r v' => r = .ok () ∧ Stands l v' (ws ++ m.accountWrites a)) v := by
  obtain ⟨vs, writes, sync⟩ := sync_executed ws sound ha wallet executes
  refine runs_last (e := { locals := l.after (ws ++ m.accountWrites a), writes := (m.accountWrites a).map Write.row }) ?_
    ⟨rfl, h.wrote _ rfl rfl⟩
  rw [h.seen, h.locals, account]
  refine bind_eq_ok.mpr ⟨_, executes.1.update_eq, bind_eq_ok.mpr ⟨_, sync, ?_⟩⟩
  simp [writes, pure, Except.pure, Movement.onAccount]

/-- Where a posting is possible it succeeds, and writes its movement. -/
theorem runs_postWithinTransaction {draws : Draws} {input : LedgerTransactionInput} (h : Stands l v ws)
    (sound : (s.write ws).Sound) (paired : Paired (s.write ws)) (fresh : draws.FreshPosting (s.write ws))
    (postable : Postable (s.write ws) input) :
    (LedgerService.postWithinTransaction draws input).Runs s (fun r v' => ∃ m next postings, r = .ok (m.sealed, postings) ∧
      Prepared draws input (s.write ws) m next ∧ Executes { l with ledgerWrite := true } (s.write ws) m.writes ∧
      Stands { l with ledgerWrite := true } v' (ws ++ m.writes)) v := by
  obtain ⟨m, next, prepared⟩ := postable.prepared paired fresh
  have wellFormed := postable.wellFormed
  have count := LedgerService.length_findAccounts wellFormed.distinct postable.known
  have balances : input.postings.mapM (LedgerService.nextBalance
      (LedgerService.findAccounts (input.postings.map LedgerPostingInput.accountId) (s.write ws)) input.currency) = .ok next := by
    rw [← prepared.accounts]
    exact prepared.balances
  have casts : ∀ id ∈ input.postings.map LedgerPostingInput.accountId, ∃ u, castUuid id = .ok u := by
    intro id hid
    obtain ⟨p, hp, rfl⟩ := List.mem_map.mp hid
    obtain ⟨u, cast, _⟩ := castUuid_of_isUuidV4 (wellFormed.accounts p hp)
    exact ⟨u, cast⟩
  obtain ⟨ids, cast⟩ := exists_mapM_eq_ok casts
  have opened : LedgerService.openedTransaction draws input.trimmed = m.opened := prepared.opened.symm
  have id : m.opened.id = draws.id .ledgerTransaction := by rw [← opened]; rfl
  set l' : Settings := { l with ledgerWrite := true }
  have executes : Executes l' (s.write ws) m.writes := prepared.ready.executes sound rfl
  have whole := executes
  rw [Movement.writes_eq, executes_append, executes_append, Movement.records, executes_cons] at executes
  obtain ⟨⟨⟨first, insertions⟩, updates⟩, sealing, _⟩ := executes
  unfold LedgerService.postWithinTransaction
  refine runs_lift (normalize_eq_ok.mpr ⟨wellFormed, rfl⟩) ?_
  refine runs_lock h (bind_eq_ok.mpr ⟨ids, cast, rfl⟩) fun v₁ h₁ => ?_
  refine runs_read h₁ fun v₂ h₂ => ?_
  refine runs_throwIf ?_ ?_
  · rw [not_not, List.length_map]
    exact count
  refine runs_lift balances ?_
  refine runs_setConfig h₂ rfl fun v₃ h₃ => ?_
  refine runs_create h₃ ?_ fun v₄ h₄ => ?_
  · change (Write.insert (.ledgerTransaction (LedgerService.openedTransaction draws input.trimmed))).Executed l' (s.write ws)
    rw [opened]
    exact first
  change Stands l' v₄ (ws ++ [.insert (.ledgerTransaction (LedgerService.openedTransaction draws input.trimmed))]) at h₄
  rw [opened] at h₄
  refine runs_createMany (m.postings.map .ledgerPosting) h₄ (bind_eq_ok.mpr ⟨_, prepared.posted, rfl⟩) ?_ fun v₅ h₅ => ?_
  · rw [Db.write_append, List.map_map]
    exact insertions
  have records : ws ++ [.insert (.ledgerTransaction m.opened)] ++ (m.postings.map Row.ledgerPosting).map .insert =
      ws ++ m.records := by
    simp [Movement.records, Function.comp_def]
  rw [records] at h₅
  have accountsThen : (s.write (ws ++ m.records)).ledgerAccounts = (s.write ws).ledgerAccounts := by
    rw [Db.write_append]
    exact Movement.table_records .ledgerAccounts (fun _ => rfl) fun _ => rfl
  have walletsThen : (s.write (ws ++ m.records)).wallets = (s.write ws).wallets := by
    rw [Db.write_append]
    exact Movement.table_records .wallets (fun _ => rfl) fun _ => rfl
  rw [← Db.write_append, ← Movement.records] at updates
  have recorded : (s.write (ws ++ m.records)).Sound := by
    have accepts : Accepts (s.write ws) m.records := Executes.accepts ⟨first, insertions⟩
    rw [Db.write_append]
    exact accepts.sound sound
  change (Prog.each _ ((LedgerService.findAccounts (input.postings.map LedgerPostingInput.accountId) (s.write ws)).map
    Prod.fst) >>= _ : Tx LedgerService.Posted).Runs s _ v₅
  rw [← prepared.accounts]
  refine runs_each (g := m.accountWrites) h₅ ?turn fun v₆ h₆ => ?_
  case turn =>
    intro done a rest v split h
    have ha : a ∈ m.accounts := by simp [split]
    obtain ⟨there, wallet⟩ := prepared.ready.turn accountsThen walletsThen split
    rw [← Db.write_append] at there wallet
    rw [split, List.flatMap_append, List.flatMap_cons, executes_append, executes_append, ← Db.write_append] at updates
    have accepted : (s.write (ws ++ m.records ++ done.flatMap m.accountWrites)).Sound := by
      rw [Db.write_append]
      exact updates.1.accepts.sound recorded
    refine runs_orThrow (prepared.lookup a ha) ?_
    rw [← prepared.date]
    exact runs_updateLedgerAccount h accepted ha there wallet updates.2.1
  have transactions : (s.write (ws ++ m.records ++ m.accounts.flatMap m.accountWrites)).ledgerTransactions =
      (s.write ws).ledgerTransactions.put m.opened := by
    rw [List.append_assoc, Db.write_append]
    exact Movement.transactions_records
  have there : (s.write (ws ++ m.records ++ m.accounts.flatMap m.accountWrites)).ledgerTransactions.find?
      (draws.id .ledgerTransaction) = some m.opened := by
    rw [transactions, ← id]
    exact Table.find?_put_self _ m.opened
  have seals : ({ m.opened with sealedAt := some (draws.date .ledgerTransaction) } : LedgerTransaction) = m.sealed := by
    rw [← prepared.sealedAt]
    rfl
  refine runs_update h₆ there ?_ fun v₇ h₇ => ?_
  · rw [seals]
    simpa [Movement.records] using sealing
  rw [seals] at h₇
  have all : ws ++ m.records ++ m.accounts.flatMap m.accountWrites ++
      [.update (.ledgerTransaction m.opened) (.ledgerTransaction m.sealed)] = ws ++ m.writes := by
    simp [Movement.writes_eq]
  rw [all] at h₇
  have found : (s.write (ws ++ m.writes)).ledgerTransactions.find? (draws.id .ledgerTransaction) = some m.sealed := by
    have table := Slice.ledgerTransactions.table_write (s.write ws) m.writes
    rw [Movement.written_ledgerTransactions, Table.putAll_cons, Table.putAll_cons, Table.putAll_nil] at table
    rw [Db.write_append, ← id]
    exact (congrArg (·.find? m.opened.id) table).trans (Table.find?_put_self _ m.sealed)
  obtain ⟨postings, reply⟩ : ∃ postings, LedgerService.findPosted (draws.id .ledgerTransaction) (s.write (ws ++ m.writes)) =
      .ok (m.sealed, postings) := ⟨_, bind_eq_ok.mpr ⟨m.sealed, findOrThrow_eq_ok.mpr found, rfl⟩⟩
  refine runs_last (a := (m.sealed, postings)) (e := { locals := v₇.locals }) ?_
    ⟨m, next, postings, rfl, prepared, whole, h₇.quiet rfl rfl⟩
  rw [h₇.seen]
  exact bind_eq_ok.mpr ⟨_, reply, rfl⟩

end

/-! ## Exactly when, and exactly what -/

/-- What the input posts to the account. -/
def LedgerTransactionInput.amount (input : LedgerTransactionInput) (accountId : Uuid) : Int :=
  ((input.postings.find? fun p => p.accountId = accountId.text).map LedgerPostingInput.amountMinor).getD 0

/-- The rows that `after` has for those of `before`, and the new ones. -/
structure PostedExactly (draws : Draws) (input : LedgerTransactionInput) (before after : Db) (t : LedgerTransaction) : Prop where
  accounts : after.ledgerAccounts.rows = before.ledgerAccounts.rows.map fun a =>
    { a with balanceMinor := a.balanceMinor + input.amount a.id }
  wallets : after.wallets.rows = before.wallets.rows.map fun w =>
    if input.postings.any fun p => p.accountId = w.ledgerAccountId.text then
      { w with
        currentBalanceMinor := w.currentBalanceMinor + input.amount w.ledgerAccountId, updatedAt := draws.date .wallet }
    else w
  paired : Paired after
  transactions : after.ledgerTransactions.rows = before.ledgerTransactions.rows ++ [t]
  transaction : t = {
    id := draws.id .ledgerTransaction, reference := jsTrim input.reference, currency := input.currency,
    description := (input.description.map jsTrim).filter (· ≠ ""), createdAt := draws.createdAt .ledgerTransaction,
    sealedAt := some (draws.date .ledgerTransaction) }
  postings : ∃ rows, after.ledgerPostings.rows = before.ledgerPostings.rows ++ rows ∧
    (∀ row ∈ rows, row.ledgerTransactionId = t.id) ∧
    rows.map (fun row => (row.accountId.text, row.amountMinor)) = input.postings.map fun p => (p.accountId, p.amountMinor)
  others : ∀ r : Row, ¬ r.isLedger → (r ∈ after ↔ r ∈ before)

section
variable {draws : Draws} {input : LedgerTransactionInput} {db before after : Db} {m : Movement}

/-- The account is posted to, in the movement as in the input. -/
theorem posted_iff (records : List.Forall₂ (fun p (row : LedgerPosting) => row.accountId.text = p.accountId ∧
    row.amountMinor = p.amountMinor) input.postings m.postings) (id : Uuid) :
    id ∈ m.accountIds ↔ input.postings.any fun p => p.accountId = id.text := by
  rw [List.any_eq_true]
  constructor
  · intro mem
    obtain ⟨row, hrow, rfl⟩ := List.mem_map.mp mem
    obtain ⟨p, hp, account, _⟩ := exists_of_forall₂ records hrow
    exact ⟨p, hp, by simp [account]⟩
  · rintro ⟨p, hp, named⟩
    obtain ⟨row, hrow, account, _⟩ := exists_of_forall₂ records.flip hp
    refine List.mem_map.mpr ⟨row, hrow, Uuid.ext ?_⟩
    simpa [account] using named

theorem amount_eq (records : List.Forall₂ (fun p (row : LedgerPosting) => row.accountId.text = p.accountId ∧
    row.amountMinor = p.amountMinor) input.postings m.postings) (id : Uuid) : m.amount id = input.amount id := by
  rw [LedgerTransactionInput.amount]
  cases found : input.postings.find? fun p => p.accountId = id.text with
  | none =>
      have out : id ∉ m.accountIds := by
        rw [posted_iff records, List.any_eq_true]
        rintro ⟨p, hp, named⟩
        exact List.find?_eq_none.mp found p hp named
      rw [Movement.amount_of_not_mem out]
      rfl
  | some p =>
      obtain ⟨row, hrow, account, amount⟩ := exists_of_forall₂ records.flip (List.mem_of_find?_eq_some found)
      have named : p.accountId = id.text := by simpa using List.find?_some found
      obtain rfl : row.accountId = id := Uuid.ext (account.trans named)
      rw [Movement.amount_of_mem hrow, amount]
      rfl

theorem Paired.posts (h : Paired before) (posts : Posts m before after) (sound : before.Sound) : Paired after := by
  have wallets := posts.wallets_modify sound fun w hw a ha link => by
    obtain ⟨b, hb, id, kind, _⟩ := h.owned w hw
    obtain rfl := Table.eq_of_key_eq hb ha (id.trans link.symm)
    exact kind
  constructor
  · intro w' hw'
    rw [wallets, Table.mem_modify] at hw'
    obtain ⟨w, hw, rfl⟩ := hw'
    obtain ⟨a, ha, id, kind, currency, snapshot⟩ := h.owned w hw
    refine ⟨m.onAccount a, ?_, by simpa using id, kind, by simpa using currency, by simp [snapshot, id]⟩
    rw [posts.ledgerAccounts]
    exact Table.mem_modify.mpr ⟨a, ha, rfl⟩
  · intro a' ha' kind
    rw [posts.ledgerAccounts] at ha'
    obtain ⟨a, ha, rfl⟩ := Table.mem_modify.mp ha'
    obtain ⟨w, hw, link⟩ := h.linked a ha kind
    refine ⟨m.onWallet w, ?_, by simpa using link⟩
    rw [wallets]
    exact Table.mem_modify.mpr ⟨w, hw, rfl⟩

/-- Nothing but the four ledger tables changes. -/
theorem Movement.others (db : Db) {r : Row} (other : ¬ r.isLedger) : r ∈ db.write m.writes ↔ r ∈ db := by
  have each : ∀ w ∈ m.writes, w.row.isLedger := by
    intro w hw
    simp only [writes, List.mem_append, List.mem_cons, List.mem_map, List.mem_flatMap, List.not_mem_nil, or_false] at hw
    rcases hw with ((rfl | ⟨p, _, rfl⟩) | ⟨a, _, hw⟩) | rfl
    · rfl
    · rfl
    · simp only [accountWrites, List.mem_cons, Option.mem_toList, Option.map_eq_some_iff] at hw
      rcases hw with rfl | ⟨x, _, rfl⟩ <;> rfl
    · rfl
  suffices h : ∀ ws : List Write, (∀ w ∈ ws, w.row.isLedger) → ∀ db : Db, (r ∈ db.write ws ↔ r ∈ db) from h _ each db
  intro ws
  induction ws with
  | nil => exact fun _ _ => Iff.rfl
  | cons w ws ih =>
      intro ledger db
      rw [Db.write_cons, ih fun v hv => ledger v (List.mem_cons_of_mem w hv), Db.mem_put]
      have own := ledger w List.mem_cons_self
      constructor
      · rintro (rfl | ⟨mem, _⟩)
        · exact absurd own other
        · exact mem
      · intro mem
        refine .inr ⟨mem, fun same => other ?_⟩
        have table := Row.table_eq_of_pk_eq same
        revert own table
        cases r <;> cases w.row <;> simp [Row.isLedger, Row.table]

theorem posts_of_accepts (h : Accepts db m.writes) : Posts m db (db.write m.writes) := by
  have posts := @Posts.of_accepts m db [] [] (by simpa using h) (by simp [Clear]) (by simp [Clear])
  simpa using posts

theorem Prepared.exactly {next : List (Uuid × Int)} (h : Prepared draws input before m next) (sound : before.Sound)
    (paired : Paired before) (accepts : Accepts before m.writes) :
    PostedExactly draws input before (before.write m.writes) m.sealed := by
  have posts := posts_of_accepts accepts
  have wallets := posts.wallets_modify sound fun w hw a ha link => by
    obtain ⟨b, hb, id, kind, _⟩ := paired.owned w hw
    obtain rfl := Table.eq_of_key_eq hb ha (id.trans link.symm)
    exact kind
  refine ⟨?accounts, ?wallets, paired.posts posts sound, posts.ledgerTransactions, ?transaction, ?postings,
    fun r other => Movement.others before other⟩
  case accounts =>
    rw [posts.ledgerAccounts]
    refine List.map_congr_left fun a _ => ?_
    rw [Movement.onAccount, amount_eq h.records]
  case wallets =>
    rw [wallets]
    refine List.map_congr_left fun w _ => ?_
    rw [Movement.onWallet, amount_eq h.records, h.date]
    simp only [posted_iff h.records]
  case transaction =>
    rw [Movement.sealed, h.opened, h.sealedAt]
    rfl
  case postings =>
    refine ⟨m.postings, posts.ledgerPostings, m.own, ?_⟩
    exact (map_eq_map_of_forall₂ h.records fun p row same => by rw [same.1, same.2]).symm

/-- A posting that succeeds was possible. -/
theorem Postable.of_posts (sound : db.Sound) (posts : Posts m db after) (records : Records draws input m)
    (accepted : (Row.ledgerTransaction m.opened).accept = .ok ())
    (normalizes : ∃ normalized, normalizeLedgerTransactionInput input = .ok normalized) : Postable db input := by
  refine ⟨⟨normalizes, fun p hp => ?_, fun t ht => ?_⟩, fun s hs => ?_⟩
  · obtain ⟨row, hrow, account, amount⟩ := exists_of_forall₂ records.postings.flip hp
    obtain ⟨a, ha, id⟩ := Movement.exists_of_id_mem (List.mem_map_of_mem (f := LedgerPosting.accountId) hrow)
    have admissible := m.admissible a ha
    have mem := posts.accounts_mem a ha
    have moved : moved m.postings a.1.id = p.amountMinor := by
      rw [id, ← amount]
      exact Movement.amount_of_mem hrow
    rw [moved] at admissible
    refine ⟨a.1, mem, ?_, ?_, ?_, isBigInt_iff.mp admissible.range, admissible.funded⟩
    · rw [id, account]
    · rw [admissible.currency, records.currency]
    · intro kind w hw link
      obtain ⟨x, owns, _, _, active⟩ := admissible.wallet kind
      have hx : x ∈ m.wallets := List.mem_filterMap.mpr ⟨a, ha, owns⟩
      have same : Row.wallet w = Row.wallet x := by
        refine sound.unique _ hw _ (posts.wallets_mem x hx) (.walletAccount w.ledgerAccountId) ?_ ?_
        · simp [Row.keys, Row.slots]
        · simp [Row.keys, Row.slots, m.linked a ha x owns, link]
      obtain rfl : w = x := by simpa using same
      exact active
  · rw [← records.reference]
    exact (posts.fresh t ht).2
  · apply (Row.accept_eq_ok.mp accepted).1
    simpa [Row.texts, records.reference, records.description] using hs

/-- A posting on its own, in a state of the database. -/
abbrev LedgerService.postOn (db : Db) (settings : Settings) (draws : Draws) (input : LedgerTransactionInput) :
    Except DbError (Except HttpException LedgerService.Posted × View Settings Row Key) :=
  (LedgerService.postWithinTransaction draws input).run (fun _ => db) { locals := settings }

theorem postOn_postable (sound : db.Sound) {settings : Settings} {posted : LedgerService.Posted} {view : View Settings Row Key}
    (ran : LedgerService.postOn db settings draws input = .ok (.ok posted, view)) : Postable db input := by
  cases normal : normalizeLedgerTransactionInput input with
  | error e =>
      rw [LedgerService.postOn, LedgerService.postWithinTransaction, normal] at ran
      cases ran
  | ok normalized =>
      have ensures : (LedgerService.postWithinTransaction draws input).Ensures (fun _ => db)
          (fun r _ => ∀ posted, r = .ok posted → Postable db input) { locals := settings } := by
        apply ensures_postWithinTransaction (Tracks.start settings)
        · intro v' e failure tracks posted failed
          cases failed
        · intro v' m postings records tracks posted _
          have accepts : Accepts db m.writes := by simpa using tracks.accepted db (Settled.snapshot db)
          exact .of_posts sound (posts_of_accepts accepts) records accepts.1.check ⟨normalized, normal⟩
      have holds := ensures.holds ran
      exact holds posted rfl

theorem postOn_succeeds (sound : db.Sound) (paired : Paired db) (fresh : draws.FreshPosting db) (settings : Settings)
    (postable : Postable db input) : ∃ posted view, LedgerService.postOn db settings draws input = .ok (.ok posted, view) ∧
      PostedExactly draws input db (applyAll db view.writes) posted.1 := by
  have runs := runs_postWithinTransaction (s := db) (Stands.start settings) sound paired fresh postable
  obtain ⟨_, view, ran, m, next, postings, rfl, prepared, executes, stands⟩ := runs.run
  refine ⟨_, view, ran, ?_⟩
  rw [stands.seen]
  exact prepared.exactly sound paired executes.accepts

theorem postOn_fails (settings : Settings) {e : HttpException} {view : View Settings Row Key}
    (ran : LedgerService.postOn db settings draws input = .ok (.error e, view)) : view.writes = [] := by
  have ensures : (LedgerService.postWithinTransaction draws input).Ensures (fun _ => db)
      (fun r v => ∀ e, r = .error e → v.writes = []) { locals := settings } := by
    apply ensures_postWithinTransaction (Tracks.start settings)
    · intro v' e failure tracks _ _
      exact tracks.writes
    · intro v' m postings records tracks e done
      cases done
  have holds := ensures.holds ran
  exact holds e rfl

end

/-- A posting succeeds exactly when it is possible; then the accounts and wallets posted to show the sums, one sealed
transaction with those postings is new and all else is as it was; and when a check fails nothing is written. -/
theorem posting_exact {db : Db} (sound : db.Sound) (paired : Paired db) {draws : Draws} (fresh : draws.FreshPosting db)
    (settings : Settings) (input : LedgerTransactionInput) :
    ((∃ posted view, LedgerService.postOn db settings draws input = .ok (.ok posted, view)) ↔ Postable db input) ∧
    (∀ posted view, LedgerService.postOn db settings draws input = .ok (.ok posted, view) →
      PostedExactly draws input db (applyAll db view.writes) posted.1) ∧
    ∀ e view, LedgerService.postOn db settings draws input = .ok (.error e, view) → view.writes = [] := by
  refine ⟨⟨?possible, ?succeeds⟩, ?exactly, fun e view ran => postOn_fails settings ran⟩
  case possible =>
    intro ⟨posted, view, ran⟩
    exact postOn_postable sound ran
  case succeeds =>
    intro postable
    obtain ⟨posted, view, ran, _⟩ := postOn_succeeds sound paired fresh settings postable
    exact ⟨posted, view, ran⟩
  case exactly =>
    intro posted view ran
    obtain ⟨posted', view', ran', exactly⟩ := postOn_succeeds sound paired fresh settings (postOn_postable sound ran)
    rw [ran] at ran'
    cases ran'
    exact exactly

def samplePost (reference : String) : LedgerTransactionInput where
  reference := reference
  currency := .usd
  postings := [⟨usdClearing.id.text, -5000⟩, ⟨((sampleDraws 0).id .ledgerAccount).text, 5000⟩]

/-- The database of the samples: one user with a wallet. -/
theorem samplePost_state : ∃ db : Db, db = stateAt migrated (sampleLog 1) 1 ∧ db.Sound ∧ Paired db ∧
    (sampleDraws 2).FreshPosting db := by
  obtain ⟨c, reach, log⟩ := sample_reachable 1
  have empty : (sampleLog 1).length = 1 ∧ (stateAt migrated (sampleLog 1) 1).ledgerTransactions.rows = [] ∧
      (stateAt migrated (sampleLog 1) 1).ledgerPostings.rows = [] ∧
      ∀ a ∈ (stateAt migrated (sampleLog 1) 1).ledgerAccounts.rows, ∀ b ∈ (stateAt migrated (sampleLog 1) 1).ledgerAccounts.rows,
        (sampleDraws 2).posting a.id = (sampleDraws 2).posting b.id → a = b := by
    decide
  rw [← log] at empty
  obtain ⟨length, transactions, postings, distinct⟩ := empty
  obtain ⟨sound, books⟩ := reachable_books migrated_sound migrated_books reach length.ge
  refine ⟨_, by rw [← log], sound, books.paired, ?_, ?_, distinct, ?_⟩
  · simp [Table.mem_def, transactions]
  · simp [Table.mem_def, postings]
  · exact le_refl (2 : Int)

theorem samplePost_succeeds :
    LedgerService.postOn (stateAt migrated (sampleLog 1) 1) {} (sampleDraws 2) (samplePost " funding-1") matches .ok (.ok _, _) := by
  decide

theorem posting_exact_sample : ∃ (db : Db) (posted : LedgerService.Posted) (view : View Settings Row Key),
    LedgerService.postOn db {} (sampleDraws 2) (samplePost " funding-1") = .ok (.ok posted, view) ∧
    PostedExactly (sampleDraws 2) (samplePost " funding-1") db (applyAll db view.writes) posted.1 := by
  obtain ⟨db, rfl, sound, paired, fresh⟩ := samplePost_state
  have succeeds := samplePost_succeeds
  cases ran : LedgerService.postOn (stateAt migrated (sampleLog 1) 1) {} (sampleDraws 2) (samplePost " funding-1") with
  | error d => simp [ran] at succeeds
  | ok result =>
      obtain ⟨outcome, view⟩ := result
      cases outcome with
      | error e => simp [ran] at succeeds
      | ok posted => exact ⟨_, posted, view, ran, (posting_exact sound paired fresh {} (samplePost " funding-1")).2.1 posted view ran⟩

/-- A reference with U+0000 passes every check, and then PostgreSQL refuses it. -/
theorem admitted_posting_refused : ¬ ∀ db : Db, db.Sound → Paired db → ∀ draws : Draws, draws.FreshPosting db →
    ∀ settings input, Admitted db input →
      ∃ posted view, LedgerService.postOn db settings draws input = .ok (.ok posted, view) := by
  intro succeeds
  obtain ⟨db, same, sound, paired, fresh⟩ := samplePost_state
  have admitted : Admitted db (samplePost "a\x00b") := by
    have facts : (normalizeLedgerTransactionInput (samplePost "a\x00b")).toBool ∧
        (stateAt migrated (sampleLog 1) 1).ledgerTransactions.rows = [] ∧
        ∀ p ∈ (samplePost "a\x00b").postings, ∃ a ∈ (stateAt migrated (sampleLog 1) 1).ledgerAccounts.rows,
          a.id.text = p.accountId ∧ a.currency = .usd ∧
          (∀ w ∈ (stateAt migrated (sampleLog 1) 1).wallets.rows, w.status = .active) ∧
          (-2 ^ 63 ≤ a.balanceMinor + p.amountMinor ∧ a.balanceMinor + p.amountMinor < 2 ^ 63) ∧
          (a.allowNegative ∨ 0 ≤ a.balanceMinor + p.amountMinor) := by
      decide
    rw [← same] at facts
    obtain ⟨normalizes, empty, takes⟩ := facts
    refine ⟨⟨_, eq_ok_getD normalizes (samplePost "a\x00b")⟩, fun p hp => ?_, ?_⟩
    · obtain ⟨a, ha, named, currency, active, range, funded⟩ := takes p hp
      exact ⟨a, ha, named, currency, fun _ w hw _ => active w hw, range, funded⟩
    · simp [Table.mem_def, empty]
  obtain ⟨posted, view, ran⟩ := succeeds db sound paired _ fresh {} _ admitted
  have refused : ¬ LedgerService.postOn (stateAt migrated (sampleLog 1) 1) {} (sampleDraws 2) (samplePost "a\x00b") matches
      .ok (.ok _, _) := by
    decide
  rw [← same, ran] at refused
  exact refused rfl

end Fintech
