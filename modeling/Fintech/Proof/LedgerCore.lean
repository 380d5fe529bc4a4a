import Fintech.Model.LedgerCore
import Fintech.Proof.Books
import Mathlib.Algebra.Order.BigOperators.Group.List

/-!
# What the ledger migration leaves behind

First every statement of the migration succeeds, with explicit rows in each table; then the rows show
that the balances are kept and the books are in order.
-/

namespace Fintech.LedgerCore
open Relational Transactional DoubleEntry

theorem check_eq_ok {r : Row} (h : ∀ c ∈ r.checks, c.1 ≠ "LedgerTransaction_sealed_time_check" → c.2 = true) :
    check r = .ok () := by
  have none : (r.checks.filter fun c => c.1 ≠ "LedgerTransaction_sealed_time_check").find? (fun c => !c.2) = none := by
    rw [List.find?_eq_none]
    intro c hc
    rw [List.mem_filter] at hc
    simp [h c hc.1 (by simpa using hc.2)]
  unfold check
  rw [none]

/-! ## Inserting rows -/

/-- Rows that pass their checks, are new and refer to what is there are all inserted. -/
theorem insertAll_eq_ok {db : Db} {rows : List Row} (checks : ∀ r ∈ rows, check r = .ok ())
    (fresh : ∀ r ∈ rows, ∀ k ∈ indexed r, db.taken k = false)
    (distinct : rows.Pairwise fun r s => ∀ k ∈ indexed s, k ∉ r.keys)
    (references : ∀ r ∈ rows, ∀ k ∈ r.references, db.taken k) : insertAll db rows = .ok (applyAll db rows) := by
  induction rows generalizing db with
  | nil => rfl
  | cons r rows ih =>
      simp only [List.forall_mem_cons, List.pairwise_cons] at checks fresh distinct references
      have first : insert db r = .ok (db.put r) := by
        unfold insert
        rw [checks.1, failIf, failIf, if_neg, if_neg]
        · rfl
        · push Not
          exact references.1
        · push Not
          intro k hk
          simp [fresh.1 k hk]
      have rest : insertAll (db.put r) rows = .ok (applyAll (db.put r) rows) := by
        refine ih checks.2 (fun s hs k hk => ?_) distinct.2 (fun s hs k hk => ?_)
        · exact not_taken_of_same (Store.same_apply db (distinct.1 s hs k hk)) (fresh.2 s hs k hk)
        · exact taken_of_le (Store.le_apply db r) hk (references.2 s hs k hk)
      simp only [insertAll, List.foldlM_cons, first]
      exact rest

/-! ## The rows of each table -/

section
variable {ρ : Type} [Keyed ρ Uuid] {db : Db} (slice : Slice ρ)

theorem table_applyAll (rows : List ρ) : slice.table (applyAll db (rows.map slice.row)) = (slice.table db).putAll rows := by
  induction rows generalizing db with
  | nil => rfl
  | cons r rows ih =>
      rw [List.map_cons, applyAll_cons, ih, store_apply, slice.put, Slice.of_row]
      rfl

theorem table_applyAll_of_ne {σ : Type} [Keyed σ Uuid] (other : Slice σ) (ne : other.name ≠ slice.name) (rows : List ρ) :
    other.table (applyAll db (rows.map slice.row)) = other.table db := by
  induction rows generalizing db with
  | nil => rfl
  | cons r rows ih =>
      have skip : other.of (slice.row r) = none := Slice.of_eq_none _ (by rw [slice.row_table]; exact ne.symm)
      rw [List.map_cons, applyAll_cons, ih, store_apply, other.put, skip]
      rfl

/-- New rows of one table have been appended to it. -/
structure Grown (rows : List ρ) (db db' : Db) : Prop where
  rows : (slice.table db').rows = (slice.table db).rows ++ rows
  others : ∀ {σ : Type} [Keyed σ Uuid] (other : Slice σ), other.name ≠ slice.name → other.table db' = other.table db

theorem grown_applyAll {rows : List ρ} (fresh : ∀ r ∈ rows, ∀ s ∈ slice.table db, key s ≠ key r)
    (distinct : rows.Pairwise fun r s => key r ≠ key s) : Grown slice rows db (applyAll db (rows.map slice.row)) where
  rows := by
    rw [table_applyAll, Table.rows_putAll_of_fresh _ _ fresh (List.pairwise_map.mpr distinct)]
  others other ne := table_applyAll_of_ne slice other ne rows

end

/-- What the migration hashes for a wallet. -/
def hashed (w : PreLedgerWallet) : List String :=
  ["opening-ledger-transaction:" ++ w.id.text, "opening-wallet-posting:" ++ w.id.text,
    "opening-clearing-posting:" ++ w.id.text]

/-- A table of wallets that can be migrated: balances are of type `BIGINT`, and no two of the hashed
strings collide. -/
structure Migratable (md5 : String → Uuid) (wallets : Table PreLedgerWallet) : Prop where
  unseeded : ∀ w ∈ wallets, ∀ currency, w.id ≠ clearingId currency
  nonneg : ∀ w ∈ wallets, 0 ≤ w.currentBalanceMinor
  bigint : ∀ w ∈ wallets, isBigInt w.currentBalanceMinor
  totals : ∀ currency, total PreLedgerWallet.currency PreLedgerWallet.currentBalanceMinor wallets.rows currency ≤ 2 ^ 63
  injective : Set.InjOn md5 { s | ∃ w ∈ wallets, s ∈ hashed w }

/-! ## Every statement succeeds -/

def fundedWallets (wallets : Table PreLedgerWallet) : List Wallet :=
  (linkedTable wallets).rows.filter fun w => w.currentBalanceMinor ≠ 0

theorem mem_fundedWallets {wallets : Table PreLedgerWallet} {x : Wallet} :
    x ∈ fundedWallets wallets ↔ ∃ w ∈ wallets, w.currentBalanceMinor ≠ 0 ∧ linked w = x := by
  simp only [fundedWallets, linkedTable, List.mem_filter, List.mem_map, decide_eq_true_eq, Table.mem_def]
  constructor
  · rintro ⟨⟨w, hw, rfl⟩, ne⟩
    exact ⟨w, hw, ne, rfl⟩
  · rintro ⟨w, hw, ne, rfl⟩
    exact ⟨⟨w, hw, rfl⟩, ne⟩

theorem fundedWallets_distinct (wallets : Table PreLedgerWallet) :
    (fundedWallets wallets).Pairwise fun x y => x.id ≠ y.id :=
  List.Pairwise.filter _ (List.pairwise_map.mp (linkedTable wallets).unique)

/-- The rows that the migration leaves. -/
structure Tables (md5 : String → Uuid) (now : Time) (wallets : Table PreLedgerWallet) (db : Db) : Prop where
  kept : db.wallets = linkedTable wallets
  accounts : db.ledgerAccounts.rows =
    (usdClearing :: ngnClearing :: wallets.rows.map walletAccount).map (settled (linkedTable wallets).rows)
  transactions : db.ledgerTransactions.rows = (fundedWallets wallets).map (openingTransaction md5 now)
  postings : db.ledgerPostings.rows =
    (fundedWallets wallets).map (walletPosting md5) ++ (fundedWallets wallets).map (clearingPosting md5)

theorem insert_accounts (db : Db) (accounts : List LedgerAccount) (checks : ∀ a ∈ accounts, check (.ledgerAccount a) = .ok ())
    (fresh : ∀ a ∈ accounts, ∀ b ∈ db.ledgerAccounts, b.id ≠ a.id) (distinct : accounts.Pairwise fun a b => a.id ≠ b.id) :
    ∃ db', insertAll db (accounts.map .ledgerAccount) = .ok db' ∧ Grown .ledgerAccounts accounts db db' := by
  refine ⟨_, ?_, grown_applyAll .ledgerAccounts fresh distinct⟩
  apply insertAll_eq_ok
  · intro r hr
    obtain ⟨a, ha, rfl⟩ := List.mem_map.mp hr
    exact checks a ha
  · intro r hr k hk
    obtain ⟨a, ha, rfl⟩ := List.mem_map.mp hr
    rw [indexed, List.mem_singleton] at hk
    subst hk
    rw [← Bool.not_eq_true]
    intro taken
    obtain ⟨b, hb, same⟩ := Slice.ledgerAccounts.exists_of_taken taken
    exact fresh a ha b hb same
  · refine List.pairwise_map.mpr (distinct.imp fun ne k hk => ?_)
    rw [indexed, List.mem_singleton] at hk
    subst hk
    simpa [Row.keys, Row.pk, Row.slots] using ne.symm
  · intro r hr
    obtain ⟨a, ha, rfl⟩ := List.mem_map.mp hr
    simp [Row.references]

theorem insert_transactions (db : Db) (ts : List LedgerTransaction) (checks : ∀ t ∈ ts, check (.ledgerTransaction t) = .ok ())
    (fresh : db.ledgerTransactions = .empty)
    (distinct : ts.Pairwise fun t u => t.id ≠ u.id ∧ t.reference ≠ u.reference) :
    ∃ db', insertAll db (ts.map .ledgerTransaction) = .ok db' ∧ Grown .ledgerTransactions ts db db' := by
  have new : ∀ t ∈ ts, ∀ u ∈ db.ledgerTransactions, u.id ≠ t.id := by
    rw [fresh]
    intro t _ u hu
    exact absurd hu (Table.not_mem_empty u)
  refine ⟨_, ?_, grown_applyAll .ledgerTransactions new (distinct.imp And.left)⟩
  apply insertAll_eq_ok
  · intro r hr
    obtain ⟨t, ht, rfl⟩ := List.mem_map.mp hr
    exact checks t ht
  · intro r hr k hk
    obtain ⟨t, ht, rfl⟩ := List.mem_map.mp hr
    rw [Db.not_taken_iff]
    intro s hs
    cases s with
    | ledgerTransaction u =>
        rw [Db.ledgerTransaction_mem, fresh] at hs
        exact absurd hs (Table.not_mem_empty u)
    | _ =>
        simp only [indexed, Row.keys, Row.pk, Row.slots, List.mem_cons, List.not_mem_nil, or_false] at hk
        rcases hk with rfl | rfl <;> simp [Row.keys, Row.pk, Row.slots]
  · refine List.pairwise_map.mpr (distinct.imp fun ne k hk => ?_)
    simp only [indexed, Row.keys, Row.pk, Row.slots, List.mem_cons, List.not_mem_nil, or_false] at hk
    rcases hk with rfl | rfl
    · simpa [Row.keys, Row.pk, Row.slots] using ne.1.symm
    · simpa [Row.keys, Row.pk, Row.slots] using ne.2.symm
  · intro r hr
    obtain ⟨t, ht, rfl⟩ := List.mem_map.mp hr
    simp [Row.references]

theorem insert_postings (db : Db) (ps : List LedgerPosting) (checks : ∀ p ∈ ps, check (.ledgerPosting p) = .ok ())
    (fresh : ∀ p ∈ ps, ∀ q ∈ db.ledgerPostings, q.id ≠ p.id ∧ q.accountId ≠ p.accountId)
    (distinct : ps.Pairwise fun p q => p.id ≠ q.id ∧ p.ledgerTransactionId ≠ q.ledgerTransactionId)
    (transactions : ∀ p ∈ ps, ∃ t ∈ db.ledgerTransactions, t.id = p.ledgerTransactionId)
    (accounts : ∀ p ∈ ps, ∃ a ∈ db.ledgerAccounts, a.id = p.accountId) :
    ∃ db', insertAll db (ps.map .ledgerPosting) = .ok db' ∧ Grown .ledgerPostings ps db db' := by
  refine ⟨_, ?_, grown_applyAll .ledgerPostings (fun p hp q hq => (fresh p hp q hq).1) (distinct.imp And.left)⟩
  apply insertAll_eq_ok
  · intro r hr
    obtain ⟨p, hp, rfl⟩ := List.mem_map.mp hr
    exact checks p hp
  · intro r hr k hk
    obtain ⟨p, hp, rfl⟩ := List.mem_map.mp hr
    simp only [indexed, Row.keys, Row.pk, Row.slots, List.mem_cons, List.not_mem_nil, or_false] at hk
    rw [Db.not_taken_iff]
    intro s hs
    cases s with
    | ledgerPosting q =>
        obtain ⟨id, account⟩ := fresh p hp q hs
        rcases hk with rfl | rfl
        · simpa [Row.keys, Row.pk, Row.slots] using id.symm
        · simpa [Row.keys, Row.pk, Row.slots] using fun _ => account.symm
    | _ => rcases hk with rfl | rfl <;> simp [Row.keys, Row.pk, Row.slots]
  · refine List.pairwise_map.mpr (distinct.imp fun ne k hk => ?_)
    simp only [indexed, Row.keys, Row.pk, Row.slots, List.mem_cons, List.not_mem_nil, or_false] at hk
    rcases hk with rfl | rfl
    · simpa [Row.keys, Row.pk, Row.slots] using ne.1.symm
    · simpa [Row.keys, Row.pk, Row.slots] using fun same => absurd same ne.2.symm
  · intro r hr k hk
    obtain ⟨p, hp, rfl⟩ := List.mem_map.mp hr
    simp only [Row.references, List.mem_cons, List.not_mem_nil, or_false] at hk
    rcases hk with rfl | rfl
    · obtain ⟨t, ht, same⟩ := transactions p hp
      exact Db.taken_row.mpr ⟨.ledgerTransaction t, ht, by rw [Row.pk, same]⟩
    · obtain ⟨a, ha, same⟩ := accounts p hp
      exact Db.taken_row.mpr ⟨.ledgerAccount a, ha, by rw [Row.pk, same]⟩

section
variable {md5 : String → Uuid} {wallets : Table PreLedgerWallet}

theorem Migratable.md5_ne (h : Migratable md5 wallets) {w v : PreLedgerWallet} (hw : w ∈ wallets) (hv : v ∈ wallets)
    {s t : String} (hs : s ∈ hashed w) (ht : t ∈ hashed v) (ne : s ≠ t) : md5 s ≠ md5 t := fun same =>
  ne (h.injective ⟨w, hw, hs⟩ ⟨v, hv, ht⟩ same)

theorem append_text_ne (word : String) {w v : Wallet} (ne : w.id ≠ v.id) : word ++ w.id.text ≠ word ++ v.id.text :=
  fun same => ne (Uuid.ext (by simpa using same))

theorem openingReference_length (w : Wallet) : (openingReference w).length = 54 := by
  have word : "migration:opening:".length = 18 := by decide
  have id : w.id.text.length = 36 := length_of_isUuidText w.id.canonical.1
  have split : (openingReference w).length = "migration:opening:".length + w.id.text.length := by
    unfold openingReference
    exact String.length_append _ _
  omega

theorem check_openingTransaction (now : Time) (w : Wallet) : check (.ledgerTransaction (openingTransaction md5 now w)) = .ok () := by
  have trimmed : btrim (openingReference w) = openingReference w := btrim_append_text (by decide) w.id
  have description : "Opening balance migrated into ledger".length ≤ 255 := by decide
  apply check_eq_ok
  simp only [Row.checks, openingTransaction, trimmed, varchar, openingReference_length, List.forall_mem_cons, Option.getD_some,
    description]
  simp

theorem check_posting {p : LedgerPosting} (range : isBigInt p.amountMinor) (ne : p.amountMinor ≠ 0) :
    check (.ledgerPosting p) = .ok () := by
  apply check_eq_ok
  simp [Row.checks, bigint, range, ne]

theorem isBigInt_neg {n : Int} (nonneg : 0 ≤ n) (h : isBigInt n) : isBigInt (-n) := by
  simp only [isBigInt, Bool.and_eq_true, decide_eq_true_eq] at h ⊢
  omega

theorem check_walletAccount (h : Migratable md5 wallets) {w : PreLedgerWallet} (hw : w ∈ wallets) :
    check (.ledgerAccount (walletAccount w)) = .ok () := by
  apply check_eq_ok
  simp [Row.checks, walletAccount, bigint, h.bigint w hw, h.nonneg w hw]

/-- What the wallets of a currency held before the migration. -/
def held (wallets : Table PreLedgerWallet) (currency : Currency) : Int :=
  total PreLedgerWallet.currency PreLedgerWallet.currentBalanceMinor wallets.rows currency

theorem settled_wallet (rows : List Wallet) {a : LedgerAccount} (kind : a.kind = .wallet) : settled rows a = a := by
  simp [settled, kind]

theorem settled_system (wallets : Table PreLedgerWallet) {a : LedgerAccount} (kind : a.kind = .system) (zero : a.balanceMinor = 0) :
    settled (linkedTable wallets).rows a = { a with balanceMinor := -held wallets a.currency } := by
  have group : (linkedTable wallets).rows.filter (fun w => w.currency = a.currency) =
      (wallets.rows.filter fun w => w.currency = a.currency).map linked := List.filter_map
  have sum : held wallets a.currency =
      ((wallets.rows.filter fun w => w.currency = a.currency).map PreLedgerWallet.currentBalanceMinor).sum := total_eq_sum_filter
  unfold settled openingTotal
  rw [group, sum, kind]
  by_cases empty : wallets.rows.filter (fun w => w.currency = a.currency) = []
  · rw [empty]
    cases a
    simp_all
  · simp [List.isEmpty_iff, empty, Function.comp_def, linked]

theorem held_nonneg (h : Migratable md5 wallets) (currency : Currency) : 0 ≤ held wallets currency := by
  apply List.sum_nonneg
  intro x hx
  obtain ⟨w, hw, rfl⟩ := List.mem_map.mp hx
  split
  · exact h.nonneg w hw
  · exact le_rfl

/-- A clearing account stays within `BIGINT` whatever the wallets of its currency held. -/
theorem check_settled (h : Migratable md5 wallets) {a : LedgerAccount} (kind : a.kind = .system) (negative : a.allowNegative)
    (zero : a.balanceMinor = 0) (named : a.systemKey.isSome) :
    check (.ledgerAccount (settled (linkedTable wallets).rows a)) = .ok () := by
  have nonneg := held_nonneg h a.currency
  have range : isBigInt (-held wallets a.currency) := by
    have totals : held wallets a.currency ≤ 2 ^ 63 := h.totals a.currency
    simp only [isBigInt, Bool.and_eq_true, decide_eq_true_eq]
    omega
  apply check_eq_ok
  simp [settled_system wallets kind zero, Row.checks, bigint, range, negative, kind, named]

/-! ### Stage by stage -/

theorem clearingId_mem (currency : Currency) {db : Db}
    (accounts : db.ledgerAccounts.rows = usdClearing :: ngnClearing :: wallets.rows.map walletAccount) :
    ∃ a ∈ db.ledgerAccounts, a.id = clearingId currency := by
  cases currency with
  | usd => exact ⟨usdClearing, by simp [Table.mem_def, accounts], rfl⟩
  | ngn => exact ⟨ngnClearing, by simp [Table.mem_def, accounts], rfl⟩

theorem seed_clearing (users : Table User) : ∃ db, insertAll { users } [.ledgerAccount usdClearing, .ledgerAccount ngnClearing] = .ok db ∧
    Grown .ledgerAccounts [usdClearing, ngnClearing] { users } db := by
  have ne : usdClearing.id ≠ ngnClearing.id := by decide
  refine insert_accounts _ [usdClearing, ngnClearing] (fun a ha => ?_)
    (fun a _ b hb => absurd hb (Table.not_mem_empty b)) (by simp [ne])
  simp only [List.mem_cons, List.not_mem_nil, or_false] at ha
  rcases ha with rfl | rfl <;> exact check_eq_ok (by decide)

theorem open_accounts (h : Migratable md5 wallets) (db : Db) (seeded : db.ledgerAccounts.rows = [usdClearing, ngnClearing]) :
    ∃ db', insertAll db (wallets.rows.map fun w => .ledgerAccount (walletAccount w)) = .ok db' ∧
      Grown .ledgerAccounts (wallets.rows.map walletAccount) db db' := by
  have inserted := insert_accounts db (wallets.rows.map walletAccount) ?_ ?_ ?_
  · rw [List.map_map] at inserted
    exact inserted
  · intro a ha
    obtain ⟨w, hw, rfl⟩ := List.mem_map.mp ha
    exact check_walletAccount h hw
  · intro a ha b hb
    obtain ⟨w, hw, rfl⟩ := List.mem_map.mp ha
    rw [Table.mem_def, seeded] at hb
    simp only [List.mem_cons, List.not_mem_nil, or_false] at hb
    rcases hb with rfl | rfl
    · exact (h.unseeded w hw .usd).symm
    · exact (h.unseeded w hw .ngn).symm
  · exact List.pairwise_map.mpr (List.pairwise_map.mp wallets.unique)

theorem create_indexes (db : Db) (accounts : db.ledgerAccounts.rows = usdClearing :: ngnClearing :: wallets.rows.map walletAccount)
    (linked : db.wallets = linkedTable wallets) : createUniqueIndexes db = .ok () := by
  have named : db.ledgerAccounts.rows.filterMap LedgerAccount.systemKey = [clearingKey .usd, clearingKey .ngn] := by
    rw [accounts, List.filterMap_cons, List.filterMap_cons, List.filterMap_map]
    simp [Function.comp_def, walletAccount, usdClearing, ngnClearing, clearingAccount]
  have nodup : (db.wallets.rows.map Wallet.ledgerAccountId).Nodup := by
    rw [linked]
    have ids : (linkedTable wallets).rows.map Wallet.ledgerAccountId = wallets.rows.map key := List.map_map
    rw [ids]
    exact wallets.unique
  have distinct : [clearingKey .usd, clearingKey .ngn].Nodup := by decide
  simp [createUniqueIndexes, failIf, named, distinct, nodup, bind, Except.bind]

theorem add_foreign_keys (db : Db) (accounts : db.ledgerAccounts.rows = usdClearing :: ngnClearing :: wallets.rows.map walletAccount)
    (linked : db.wallets = linkedTable wallets) : addForeignKeys db = .ok () := by
  rw [addForeignKeys, failIf, if_neg]
  push Not
  intro x hx
  rw [linked] at hx
  obtain ⟨w, hw, rfl⟩ := List.mem_map.mp hx
  refine Db.taken_row.mpr ⟨.ledgerAccount (walletAccount w), ?_, rfl⟩
  rw [Db.ledgerAccount_mem, Table.mem_def, accounts]
  exact List.mem_cons_of_mem _ (List.mem_cons_of_mem _ (List.mem_map_of_mem hw))

theorem fundedWallets_hashed (h : Migratable md5 wallets) (word : String) (mem : ∀ w ∈ wallets, word ++ w.id.text ∈ hashed w) :
    (fundedWallets wallets).Pairwise fun x y => md5 (word ++ x.id.text) ≠ md5 (word ++ y.id.text) := by
  refine (fundedWallets_distinct wallets).imp_of_mem fun hx hy ne => ?_
  obtain ⟨w, hw, _, rfl⟩ := mem_fundedWallets.mp hx
  obtain ⟨v, hv, _, rfl⟩ := mem_fundedWallets.mp hy
  exact h.md5_ne hw hv (mem w hw) (mem v hv) (append_text_ne _ ne)

theorem journal_openings (h : Migratable md5 wallets) (now : Time) (db : Db) (empty : db.ledgerTransactions = .empty) :
    ∃ db', insertAll db ((fundedWallets wallets).map fun w => .ledgerTransaction (openingTransaction md5 now w)) = .ok db' ∧
      Grown .ledgerTransactions ((fundedWallets wallets).map (openingTransaction md5 now)) db db' := by
  have inserted := insert_transactions db ((fundedWallets wallets).map (openingTransaction md5 now)) ?_ empty ?_
  · rw [List.map_map] at inserted
    exact inserted
  · intro t ht
    obtain ⟨w, _, rfl⟩ := List.mem_map.mp ht
    exact check_openingTransaction now w
  · have ids := fundedWallets_hashed h "opening-ledger-transaction:" fun w _ => by simp [hashed]
    have references := (fundedWallets_distinct wallets).imp fun ne => append_text_ne "migration:opening:" ne
    exact List.pairwise_map.mpr (ids.and references)

theorem funded_range (h : Migratable md5 wallets) {x : Wallet} (hx : x ∈ fundedWallets wallets) :
    0 ≤ x.currentBalanceMinor ∧ isBigInt x.currentBalanceMinor ∧ x.currentBalanceMinor ≠ 0 := by
  obtain ⟨w, hw, ne, rfl⟩ := mem_fundedWallets.mp hx
  exact ⟨h.nonneg w hw, h.bigint w hw, ne⟩

theorem post_credits (h : Migratable md5 wallets) {now : Time} {db : Db} (empty : db.ledgerPostings = .empty)
    (accounts : db.ledgerAccounts.rows = usdClearing :: ngnClearing :: wallets.rows.map walletAccount)
    (journal : db.ledgerTransactions.rows = (fundedWallets wallets).map (openingTransaction md5 now)) :
    ∃ db', insertAll db ((fundedWallets wallets).map fun w => .ledgerPosting (walletPosting md5 w)) = .ok db' ∧
      Grown .ledgerPostings ((fundedWallets wallets).map (walletPosting md5)) db db' := by
  have inserted := insert_postings db ((fundedWallets wallets).map (walletPosting md5)) ?_ ?_ ?_ ?_ ?_
  · rw [List.map_map] at inserted
    exact inserted
  · intro p hp
    obtain ⟨x, hx, rfl⟩ := List.mem_map.mp hp
    obtain ⟨_, range, ne⟩ := funded_range h hx
    exact check_posting range ne
  · rw [empty]
    intro _ _ q hq
    exact absurd hq (Table.not_mem_empty q)
  · have ids := fundedWallets_hashed h "opening-wallet-posting:" fun w _ => by simp [hashed]
    have transactions := fundedWallets_hashed h "opening-ledger-transaction:" fun w _ => by simp [hashed]
    exact List.pairwise_map.mpr (ids.and transactions)
  · intro p hp
    obtain ⟨x, hx, rfl⟩ := List.mem_map.mp hp
    refine ⟨openingTransaction md5 now x, ?_, rfl⟩
    rw [Table.mem_def, journal]
    exact List.mem_map_of_mem hx
  · intro p hp
    obtain ⟨x, hx, rfl⟩ := List.mem_map.mp hp
    obtain ⟨w, hw, _, rfl⟩ := mem_fundedWallets.mp hx
    refine ⟨walletAccount w, ?_, rfl⟩
    rw [Table.mem_def, accounts]
    exact List.mem_cons_of_mem _ (List.mem_cons_of_mem _ (List.mem_map_of_mem hw))

theorem post_debits (h : Migratable md5 wallets) {now : Time} {db : Db}
    (credits : db.ledgerPostings.rows = (fundedWallets wallets).map (walletPosting md5))
    (accounts : db.ledgerAccounts.rows = usdClearing :: ngnClearing :: wallets.rows.map walletAccount)
    (journal : db.ledgerTransactions.rows = (fundedWallets wallets).map (openingTransaction md5 now)) :
    ∃ db', insertAll db ((fundedWallets wallets).map fun w => .ledgerPosting (clearingPosting md5 w)) = .ok db' ∧
      Grown .ledgerPostings ((fundedWallets wallets).map (clearingPosting md5)) db db' := by
  have inserted := insert_postings db ((fundedWallets wallets).map (clearingPosting md5)) ?_ ?_ ?_ ?_ ?_
  · rw [List.map_map] at inserted
    exact inserted
  · intro p hp
    obtain ⟨x, hx, rfl⟩ := List.mem_map.mp hp
    obtain ⟨nonneg, range, ne⟩ := funded_range h hx
    exact check_posting (isBigInt_neg nonneg range) (neg_ne_zero.mpr ne)
  · intro p hp q hq
    obtain ⟨x, hx, rfl⟩ := List.mem_map.mp hp
    rw [Table.mem_def, credits] at hq
    obtain ⟨y, hy, rfl⟩ := List.mem_map.mp hq
    obtain ⟨w, hw, _, rfl⟩ := mem_fundedWallets.mp hx
    obtain ⟨v, hv, _, rfl⟩ := mem_fundedWallets.mp hy
    refine ⟨h.md5_ne hv hw (by simp [hashed, linked]) (by simp [hashed, linked]) ?_, h.unseeded v hv _⟩
    intro same
    have chars := congrArg (fun s : String => s.toList[8]?) same
    simp at chars
  · have ids := fundedWallets_hashed h "opening-clearing-posting:" fun w _ => by simp [hashed]
    have transactions := fundedWallets_hashed h "opening-ledger-transaction:" fun w _ => by simp [hashed]
    exact List.pairwise_map.mpr (ids.and transactions)
  · intro p hp
    obtain ⟨x, hx, rfl⟩ := List.mem_map.mp hp
    refine ⟨openingTransaction md5 now x, ?_, rfl⟩
    rw [Table.mem_def, journal]
    exact List.mem_map_of_mem hx
  · intro p hp
    obtain ⟨x, hx, rfl⟩ := List.mem_map.mp hp
    exact clearingId_mem x.currency accounts

theorem settle_clearing (h : Migratable md5 wallets) {db : Db} (kept : db.wallets = linkedTable wallets)
    (accounts : db.ledgerAccounts.rows = usdClearing :: ngnClearing :: wallets.rows.map walletAccount) :
    settleClearing db =
      .ok { db with ledgerAccounts := db.ledgerAccounts.modify (settled db.wallets.rows) (settled_id db.wallets.rows) } := by
  have checks : ∀ a ∈ db.ledgerAccounts.rows, check (.ledgerAccount (settled db.wallets.rows a)) = .ok () := by
    intro a ha
    rw [accounts] at ha
    rw [kept]
    simp only [List.mem_cons, List.mem_map] at ha
    rcases ha with rfl | rfl | ⟨w, hw, rfl⟩
    · exact check_settled h rfl rfl rfl rfl
    · exact check_settled h rfl rfl rfl rfl
    · rw [settled_wallet _ rfl]
      exact check_walletAccount h hw
  have all : ∀ as : List LedgerAccount, (∀ a ∈ as, check (.ledgerAccount a) = .ok ()) →
      (as.forM fun a => check (.ledgerAccount a)) = .ok () := by
    intro as ok
    induction as with
    | nil => rfl
    | cons a as ih =>
        simp only [List.forall_mem_cons] at ok
        rw [List.forM_eq_forM, List.forM_cons, ok.1]
        exact ih ok.2
  have passed := all (db.ledgerAccounts.modify (settled db.wallets.rows) (settled_id db.wallets.rows)).rows ?_
  · unfold settleClearing
    simp only [passed]
    rfl
  · intro a ha
    obtain ⟨b, hb, rfl⟩ := Table.mem_modify.mp ha
    exact checks b hb

/-- Every statement of the migration succeeds. -/
theorem migrate_eq_ok (h : Migratable md5 wallets) (now : Time) (users : Table User) :
    ∃ db, migrate md5 now users wallets = .ok db ∧ Tables md5 now wallets db := by
  obtain ⟨seeded, seed, seed_grown⟩ := seed_clearing users
  obtain ⟨opened, opening, open_grown⟩ := open_accounts h seeded seed_grown.rows
  have opened_rows : opened.ledgerAccounts.rows = usdClearing :: ngnClearing :: wallets.rows.map walletAccount := by
    rw [← Slice.ledgerAccounts_table, open_grown.rows, seed_grown.rows]
    rfl
  have no_transactions : opened.ledgerTransactions = .empty :=
    (open_grown.others .ledgerTransactions (by decide)).trans (seed_grown.others .ledgerTransactions (by decide))
  have no_postings : opened.ledgerPostings = .empty :=
    (open_grown.others .ledgerPostings (by decide)).trans (seed_grown.others .ledgerPostings (by decide))
  obtain ⟨journaled, journal, journal_grown⟩ :=
    journal_openings h now { opened with wallets := linkedTable wallets } no_transactions
  have journaled_rows : journaled.ledgerTransactions.rows = (fundedWallets wallets).map (openingTransaction md5 now) := by
    rw [← Slice.ledgerTransactions_table, journal_grown.rows, Slice.ledgerTransactions_table, no_transactions]
    rfl
  have accounts₁ : journaled.ledgerAccounts = opened.ledgerAccounts := journal_grown.others .ledgerAccounts (by decide)
  have postings₁ : journaled.ledgerPostings = opened.ledgerPostings := journal_grown.others .ledgerPostings (by decide)
  obtain ⟨credited, credit, credit_grown⟩ :=
    post_credits h (postings₁.trans no_postings) (accounts₁ ▸ opened_rows) journaled_rows
  have credited_rows : credited.ledgerPostings.rows = (fundedWallets wallets).map (walletPosting md5) := by
    rw [← Slice.ledgerPostings_table, credit_grown.rows, Slice.ledgerPostings_table, postings₁, no_postings]
    rfl
  have accounts₂ : credited.ledgerAccounts = journaled.ledgerAccounts := credit_grown.others .ledgerAccounts (by decide)
  have transactions₂ : credited.ledgerTransactions = journaled.ledgerTransactions :=
    credit_grown.others .ledgerTransactions (by decide)
  obtain ⟨debited, debit, debit_grown⟩ :=
    post_debits h credited_rows (accounts₂ ▸ accounts₁ ▸ opened_rows) (transactions₂ ▸ journaled_rows)
  have accounts₃ : debited.ledgerAccounts.rows = usdClearing :: ngnClearing :: wallets.rows.map walletAccount := by
    rw [show debited.ledgerAccounts = credited.ledgerAccounts from debit_grown.others .ledgerAccounts (by decide), accounts₂,
      accounts₁, opened_rows]
  have kept : debited.wallets = linkedTable wallets :=
    (debit_grown.others .wallets (by decide)).trans
      ((credit_grown.others .wallets (by decide)).trans (journal_grown.others .wallets (by decide)))
  have settle := settle_clearing h kept accounts₃
  refine ⟨{ debited with
    ledgerAccounts := debited.ledgerAccounts.modify (settled debited.wallets.rows) (settled_id debited.wallets.rows) }, ?_, kept,
    ?_, ?_, ?_⟩
  rotate_left
  · simp only [Table.modify, accounts₃, kept]
  · rw [← journaled_rows, ← transactions₂]
    exact congrArg Table.rows (debit_grown.others .ledgerTransactions (by decide))
  · rw [← credited_rows]
    exact debit_grown.rows
  · unfold migrate
    simp only [seed, opening, bind, Except.bind, create_indexes { opened with wallets := linkedTable wallets } opened_rows rfl,
      add_foreign_keys { opened with wallets := linkedTable wallets } opened_rows rfl]
    have funded : (linkedTable wallets).rows.filter (fun w => w.currentBalanceMinor ≠ 0) = fundedWallets wallets := rfl
    simp only [funded, journal, credit, debit, settle]

/-! ## What the rows show -/

theorem filter_key {α κ : Type} [DecidableEq κ] {f : α → κ} {xs : List α} (distinct : xs.Pairwise fun x y => f x ≠ f y) {x : α}
    (hx : x ∈ xs) : xs.filter (fun y => f y = f x) = [x] := by
  induction xs with
  | nil => cases hx
  | cons y xs ih =>
      rw [List.pairwise_cons] at distinct
      rcases List.mem_cons.mp hx with rfl | hx
      · have others : xs.filter (fun y => f y = f x) = [] := by
          rw [List.filter_eq_nil_iff]
          intro y hy
          simpa using (distinct.1 y hy).symm
        rw [List.filter_cons, others]
        simp
      · rw [List.filter_cons, if_neg (by simpa using distinct.1 x hx)]
        exact ih distinct.2 hx

namespace Tables
variable {now : Time} {db : Db}

theorem accounts_rows (tables : Tables md5 now wallets db) : db.ledgerAccounts.rows =
    clearingAccount .usd (clearingId .usd) (-held wallets .usd) :: clearingAccount .ngn (clearingId .ngn) (-held wallets .ngn) ::
      wallets.rows.map walletAccount := by
  have usd := settled_system wallets (a := usdClearing) rfl rfl
  have ngn := settled_system wallets (a := ngnClearing) rfl rfl
  have same : (wallets.rows.map walletAccount).map (settled (linkedTable wallets).rows) = wallets.rows.map walletAccount := by
    rw [List.map_map]
    exact List.map_congr_left fun w _ => settled_wallet _ rfl
  rw [tables.accounts, List.map_cons, List.map_cons, same, usd, ngn]
  rfl

theorem mem_accounts (tables : Tables md5 now wallets db) {a : LedgerAccount} : a ∈ db.ledgerAccounts ↔
    (∃ currency, a = clearingAccount currency (clearingId currency) (-held wallets currency)) ∨
      ∃ w ∈ wallets, a = walletAccount w := by
  rw [Table.mem_def, tables.accounts_rows]
  simp only [List.mem_cons, List.mem_map, Table.mem_def]
  constructor
  · rintro (rfl | rfl | ⟨w, hw, rfl⟩)
    · exact .inl ⟨.usd, rfl⟩
    · exact .inl ⟨.ngn, rfl⟩
    · exact .inr ⟨w, hw, rfl⟩
  · rintro (⟨currency, rfl⟩ | ⟨w, hw, rfl⟩)
    · cases currency with
      | usd => exact .inl rfl
      | ngn => exact .inr (.inl rfl)
    · exact .inr (.inr ⟨w, hw, rfl⟩)

theorem moved_eq (tables : Tables md5 now wallets db) (id : Uuid) : moved db.ledgerPostings.rows id =
    total PreLedgerWallet.id PreLedgerWallet.currentBalanceMinor wallets.rows id +
      total (fun w => clearingId w.currency) (fun w => -w.currentBalanceMinor) wallets.rows id := by
  have funded : fundedWallets wallets = (wallets.rows.filter fun w => w.currentBalanceMinor ≠ 0).map linked := List.filter_map
  have negated : (wallets.rows.filter fun w => w.currentBalanceMinor ≠ 0) = wallets.rows.filter fun w => -w.currentBalanceMinor ≠ 0 := by
    simp
  have credits := @total_filter _ _ _ _ _ PreLedgerWallet.id PreLedgerWallet.currentBalanceMinor wallets.rows id _
  have debits := @total_filter _ _ _ _ _ (fun w : PreLedgerWallet => clearingId w.currency) (fun w => -w.currentBalanceMinor)
    wallets.rows id _
  rw [moved, tables.postings, total_append, ← credits, ← debits, ← negated, funded]
  simp [total, Function.comp_def, walletPosting, clearingPosting, linked]

theorem moved_wallet (tables : Tables md5 now wallets db) (h : Migratable md5 wallets) {w : PreLedgerWallet} (hw : w ∈ wallets) :
    moved db.ledgerPostings.rows w.id = w.currentBalanceMinor := by
  have credits : total PreLedgerWallet.id PreLedgerWallet.currentBalanceMinor wallets.rows w.id = w.currentBalanceMinor :=
    total_of_mem wallets.unique hw
  have debits : total (fun w => clearingId w.currency) (fun w => -w.currentBalanceMinor) wallets.rows w.id = 0 := by
    apply total_of_not_mem
    intro mem
    obtain ⟨v, _, same⟩ := List.mem_map.mp mem
    exact h.unseeded w hw v.currency same.symm
  rw [tables.moved_eq, credits, debits, add_zero]

theorem clearingId_inj {c d : Currency} : clearingId c = clearingId d ↔ c = d := by
  have ne : usdClearing.id ≠ ngnClearing.id := by decide
  cases c <;> cases d <;> simp [clearingId, ne, ne.symm]

theorem moved_clearing (tables : Tables md5 now wallets db) (h : Migratable md5 wallets) (currency : Currency) :
    moved db.ledgerPostings.rows (clearingId currency) = -held wallets currency := by
  have credits : total PreLedgerWallet.id PreLedgerWallet.currentBalanceMinor wallets.rows (clearingId currency) = 0 := by
    apply total_of_not_mem
    intro mem
    obtain ⟨w, hw, same⟩ := List.mem_map.mp mem
    exact h.unseeded w hw currency same
  have debits (ws : List PreLedgerWallet) :
      total (fun w => clearingId w.currency) (fun w : PreLedgerWallet => -w.currentBalanceMinor) ws (clearingId currency) =
        -total PreLedgerWallet.currency PreLedgerWallet.currentBalanceMinor ws currency := by
    induction ws with
    | nil => rfl
    | cons w ws ih =>
        rw [total_cons, total_cons, ih]
        by_cases same : w.currency = currency
        · simp only [same, if_true]
          omega
        · simp [clearingId_inj, same]
  rw [tables.moved_eq, credits, debits, zero_add, held]

theorem postingsOf_opening (tables : Tables md5 now wallets db) (h : Migratable md5 wallets) {x : Wallet}
    (hx : x ∈ fundedWallets wallets) : db.postingsOf (openingId md5 x) = [walletPosting md5 x, clearingPosting md5 x] := by
  have distinct := fundedWallets_hashed h "opening-ledger-transaction:" fun w _ => by simp [hashed]
  have only := filter_key (f := openingId md5) distinct hx
  rw [Db.postingsOf, tables.postings, List.filter_append, List.filter_map, List.filter_map]
  have credits : (fundedWallets wallets).filter ((fun p => decide (p.ledgerTransactionId = openingId md5 x)) ∘ walletPosting md5) =
      [x] := only
  have debits : (fundedWallets wallets).filter ((fun p => decide (p.ledgerTransactionId = openingId md5 x)) ∘ clearingPosting md5) =
      [x] := only
  rw [credits, debits]
  rfl

theorem account_of (tables : Tables md5 now wallets db) {p : LedgerPosting} (hp : p ∈ db.ledgerPostings) :
    ∃ a ∈ db.ledgerAccounts, a.id = p.accountId := by
  rw [Table.mem_def, tables.postings, List.mem_append] at hp
  rcases hp with hp | hp
  · obtain ⟨x, hx, rfl⟩ := List.mem_map.mp hp
    obtain ⟨w, hw, _, rfl⟩ := mem_fundedWallets.mp hx
    exact ⟨walletAccount w, tables.mem_accounts.mpr (.inr ⟨w, hw, rfl⟩), rfl⟩
  · obtain ⟨x, hx, rfl⟩ := List.mem_map.mp hp
    exact ⟨_, tables.mem_accounts.mpr (.inl ⟨x.currency, rfl⟩), rfl⟩

theorem mem_transactions (tables : Tables md5 now wallets db) {t : LedgerTransaction} :
    t ∈ db.ledgerTransactions ↔ ∃ x ∈ fundedWallets wallets, openingTransaction md5 now x = t := by
  rw [Table.mem_def, tables.transactions, List.mem_map]

theorem books (tables : Tables md5 now wallets db) (h : Migratable md5 wallets) : Books db where
  balance := by
    intro a ha
    rcases tables.mem_accounts.mp ha with ⟨currency, rfl⟩ | ⟨w, hw, rfl⟩
    · exact (tables.moved_clearing h currency).symm
    · exact (tables.moved_wallet h hw).symm
  owned := by
    intro x hx
    rw [tables.kept] at hx
    obtain ⟨w, hw, rfl⟩ := List.mem_map.mp hx
    exact ⟨walletAccount w, tables.mem_accounts.mpr (.inr ⟨w, hw, rfl⟩), rfl, rfl, rfl, rfl⟩
  linked := by
    intro a ha wallet
    rcases tables.mem_accounts.mp ha with ⟨currency, rfl⟩ | ⟨w, hw, rfl⟩
    · cases wallet
    · refine ⟨LedgerCore.linked w, ?_, rfl⟩
      rw [tables.kept]
      exact List.mem_map_of_mem hw
  isSealed := by
    intro t ht
    obtain ⟨x, _, rfl⟩ := tables.mem_transactions.mp ht
    rfl
  two_le := by
    intro t ht
    obtain ⟨x, hx, rfl⟩ := tables.mem_transactions.mp ht
    exact (congrArg List.length (tables.postingsOf_opening h hx)).ge
  balanced := by
    intro t ht
    obtain ⟨x, hx, rfl⟩ := tables.mem_transactions.mp ht
    have postings : db.postingsOf (openingTransaction md5 now x).id = _ := tables.postingsOf_opening h hx
    rw [postings]
    simp [walletPosting, clearingPosting]
  currency := by
    intro p hp t ht own a ha on
    obtain ⟨x, hx, rfl⟩ := tables.mem_transactions.mp ht
    have mem : p ∈ db.postingsOf (openingId md5 x) := Db.mem_postingsOf.mpr ⟨hp, own.symm⟩
    rw [tables.postingsOf_opening h hx] at mem
    simp only [List.mem_cons, List.not_mem_nil, or_false] at mem
    obtain ⟨v, hv, _, rfl⟩ := mem_fundedWallets.mp hx
    rcases tables.mem_accounts.mp ha with ⟨currency, rfl⟩ | ⟨w, hw, rfl⟩
    · rcases mem with rfl | rfl
      · exact absurd on.symm (h.unseeded v hv currency)
      · exact clearingId_inj.mp on
    · rcases mem with rfl | rfl
      · rw [Table.eq_of_key_eq (t := wallets) hw hv on]
        rfl
      · exact absurd on (h.unseeded w hw _)

theorem conserved (tables : Tables md5 now wallets db) (currency : Currency) :
    ((db.ledgerAccounts.rows.filter fun a => a.currency = currency).map LedgerAccount.balanceMinor).sum = 0 := by
  have accounts : total LedgerAccount.currency LedgerAccount.balanceMinor (wallets.rows.map walletAccount) currency =
      held wallets currency := by
    unfold held total
    rw [List.map_map]
    rfl
  rw [← total_eq_sum_filter, tables.accounts_rows, total_cons, total_cons, accounts]
  cases currency <;> simp [clearingAccount]

end Tables

/-- The opening transactions of a wallet: those under its reference or on its account. -/
def openingsOf (db : Db) (x : Wallet) : List LedgerTransaction :=
  db.ledgerTransactions.rows.filter fun t =>
    t.reference = openingReference x ∨ ∃ p ∈ db.postingsOf t.id, p.accountId = x.ledgerAccountId

/-- The wallets as they were, each with an account and an opening transaction that explain its balance. -/
structure Migrated (wallets : Table PreLedgerWallet) (db : Db) : Prop where
  kept : db.wallets.rows.map (fun x => (x.id, x.userId, x.currency, x.currentBalanceMinor)) =
    wallets.rows.map fun w => (w.id, w.userId, w.currency, w.currentBalanceMinor)
  linked : ∀ x ∈ db.wallets, (∃ a ∈ db.ledgerAccounts, a.id = x.ledgerAccountId ∧ a.kind = .wallet ∧ a.currency = x.currency ∧
    a.balanceMinor = x.currentBalanceMinor) ∧ ∀ y ∈ db.wallets, y.ledgerAccountId = x.ledgerAccountId → y = x
  clearing : ∀ currency, ∃ a ∈ db.ledgerAccounts, a.kind = .system ∧ a.currency = currency ∧
    a.systemKey = some (clearingKey currency)
  balance : ∀ a ∈ db.ledgerAccounts, a.balanceMinor =
    ((db.ledgerPostings.rows.filter fun p => p.accountId = a.id).map LedgerPosting.amountMinor).sum
  opened : ∀ x ∈ db.wallets, x.currentBalanceMinor ≠ 0 → ∃ t, openingsOf db x = [t] ∧ t.sealedAt.isSome ∧ t.currency = x.currency ∧
    (db.postingsOf t.id).length = 2 ∧ ((db.postingsOf t.id).map LedgerPosting.amountMinor).sum = 0 ∧
    ∀ p ∈ db.postingsOf t.id, ∃ a ∈ db.ledgerAccounts, a.id = p.accountId ∧ a.currency = x.currency
  unopened : ∀ x ∈ db.wallets, x.currentBalanceMinor = 0 → openingsOf db x = []
  only : ∀ t ∈ db.ledgerTransactions, ∃ x ∈ db.wallets, t ∈ openingsOf db x
  conserved : ∀ currency,
    ((db.ledgerAccounts.rows.filter fun a => a.currency = currency).map LedgerAccount.balanceMinor).sum = 0

namespace Tables
variable {now : Time} {db : Db}

theorem mem_wallets (tables : Tables md5 now wallets db) {x : Wallet} : x ∈ db.wallets ↔ ∃ w ∈ wallets, linked w = x := by
  rw [tables.kept, Table.mem_def, linkedTable, List.mem_map]
  rfl

/-- A transaction opens a wallet only if it is the wallet's own. -/
theorem opens_iff (tables : Tables md5 now wallets db) (h : Migratable md5 wallets) {x y : Wallet} (hx : x ∈ db.wallets)
    (hy : y ∈ fundedWallets wallets) : ((openingTransaction md5 now y).reference = openingReference x ∨
      ∃ p ∈ db.postingsOf (openingTransaction md5 now y).id, p.accountId = x.ledgerAccountId) ↔ y = x := by
  obtain ⟨w, hw, rfl⟩ := tables.mem_wallets.mp hx
  obtain ⟨v, hv, _, rfl⟩ := mem_fundedWallets.mp hy
  have postings : db.postingsOf (openingTransaction md5 now (linked v)).id = _ := tables.postingsOf_opening h hy
  have same : v.id = w.id → linked v = linked w := fun id => by rw [Table.eq_of_key_eq (t := wallets) hv hw id]
  rw [postings]
  constructor
  · rintro (reference | ⟨p, hp, on⟩)
    · by_contra ne
      exact append_text_ne "migration:opening:" (w := linked v) (v := linked w) (fun id => ne (same id)) reference
    · simp only [List.mem_cons, List.not_mem_nil, or_false] at hp
      rcases hp with rfl | rfl
      · exact same on
      · exact absurd on.symm (h.unseeded w hw _)
  · intro e
    rw [e]
    exact .inl rfl

theorem openingsOf_funded (tables : Tables md5 now wallets db) (h : Migratable md5 wallets) {x : Wallet}
    (hx : x ∈ fundedWallets wallets) : openingsOf db x = [openingTransaction md5 now x] := by
  have mem : x ∈ db.wallets := by
    obtain ⟨w, hw, _, rfl⟩ := mem_fundedWallets.mp hx
    exact tables.mem_wallets.mpr ⟨w, hw, rfl⟩
  have own : (fundedWallets wallets).filter (fun y => y.id = x.id) = [x] := filter_key (fundedWallets_distinct wallets) hx
  rw [openingsOf, tables.transactions, List.filter_map]
  have same : (fundedWallets wallets).filter ((fun t : LedgerTransaction => decide (t.reference = openingReference x ∨
      ∃ p ∈ db.postingsOf t.id, p.accountId = x.ledgerAccountId)) ∘ openingTransaction md5 now) =
      (fundedWallets wallets).filter fun y => y.id = x.id := by
    apply List.filter_congr
    intro y hy
    rw [Function.comp_apply, decide_eq_decide, tables.opens_iff h mem hy]
    constructor
    · intro e
      rw [e]
    · intro id
      obtain ⟨v, hv, _, rfl⟩ := mem_fundedWallets.mp hy
      obtain ⟨w, hw, _, rfl⟩ := mem_fundedWallets.mp hx
      rw [Table.eq_of_key_eq (t := wallets) hv hw id]
  rw [same, own, List.map_singleton]

theorem migrated (tables : Tables md5 now wallets db) (h : Migratable md5 wallets) : Migrated wallets db where
  kept := by
    rw [tables.kept, linkedTable, List.map_map]
    rfl
  linked := by
    intro x hx
    refine ⟨?_, fun y hy same => ?_⟩
    · obtain ⟨a, ha, id, kind, currency, balance⟩ := (tables.books h).owned x hx
      exact ⟨a, ha, id, kind, currency.symm, balance.symm⟩
    · obtain ⟨w, hw, rfl⟩ := tables.mem_wallets.mp hx
      obtain ⟨v, hv, rfl⟩ := tables.mem_wallets.mp hy
      rw [Table.eq_of_key_eq (t := wallets) hv hw same]
  clearing currency := ⟨_, tables.mem_accounts.mpr (.inl ⟨currency, rfl⟩), rfl, rfl, rfl⟩
  balance := by
    intro a ha
    rw [(tables.books h).balance a ha, moved, total_eq_sum_filter]
  opened := by
    intro x hx funded
    obtain ⟨w, hw, rfl⟩ := tables.mem_wallets.mp hx
    have mem : linked w ∈ fundedWallets wallets := mem_fundedWallets.mpr ⟨w, hw, funded, rfl⟩
    have opening := tables.mem_transactions.mpr ⟨_, mem, rfl⟩
    have postings : db.postingsOf (openingTransaction md5 now (linked w)).id = _ := tables.postingsOf_opening h mem
    refine ⟨_, tables.openingsOf_funded h mem, rfl, rfl, congrArg List.length postings, (tables.books h).balanced _ opening, ?_⟩
    intro p hp
    obtain ⟨hp, own⟩ := Db.mem_postingsOf.mp hp
    obtain ⟨a, ha, on⟩ := tables.account_of hp
    exact ⟨a, ha, on, (tables.books h).currency p hp _ opening own.symm a ha on⟩
  unopened := by
    intro x hx zero
    rw [openingsOf, List.filter_eq_nil_iff]
    intro t ht
    obtain ⟨y, hy, rfl⟩ := tables.mem_transactions.mp ht
    rw [decide_eq_true_eq, tables.opens_iff h hx hy]
    rintro rfl
    exact (funded_range h hy).2.2 zero
  only := by
    intro t ht
    obtain ⟨x, hx, rfl⟩ := tables.mem_transactions.mp ht
    obtain ⟨w, hw, _, rfl⟩ := mem_fundedWallets.mp hx
    refine ⟨LedgerCore.linked w, tables.mem_wallets.mpr ⟨w, hw, rfl⟩, ?_⟩
    rw [tables.openingsOf_funded h hx]
    exact List.mem_singleton_self _
  conserved := tables.conserved

end Tables

/-- The ledger migration succeeds, keeps every balance and opens the books. -/
theorem migrate_preserves (h : Migratable md5 wallets) (now : Time) (users : Table User) :
    ∃ db, migrate md5 now users wallets = .ok db ∧ Migrated wallets db := by
  obtain ⟨db, ran, tables⟩ := migrate_eq_ok h now users
  exact ⟨db, ran, tables.migrated h⟩

end

/-! ## A migration -/

def sampleWallet (id : Uuid) (currency : Currency) (balance : Int) : PreLedgerWallet :=
  { id, userId := sampleUuid 0 0, currency, currentBalanceMinor := balance, createdAt := 0, updatedAt := 0 }

/-- A wallet that holds 2500 and an empty one. -/
def sampleWallets : Table PreLedgerWallet where
  rows := [sampleWallet (sampleUuid 0 10) .usd 2500, sampleWallet (sampleUuid 0 11) .ngn 0]
  unique := by decide

/-- MD5 of the strings that the migration hashes for these wallets. -/
def sampleHashes : List (String × String) := [
  ("opening-ledger-transaction:00000000-0000-4000-8000-00000000100a", "50747279-975e-7845-948e-fc4eb53d280a"),
  ("opening-wallet-posting:00000000-0000-4000-8000-00000000100a", "ac1327b1-8aad-372e-6195-ef9b14b84729"),
  ("opening-clearing-posting:00000000-0000-4000-8000-00000000100a", "03586199-6261-2af6-d869-ad50c2ca99bf"),
  ("opening-ledger-transaction:00000000-0000-4000-8000-00000000100b", "e97ad5d5-143b-c1fc-0701-86c53f47c960"),
  ("opening-wallet-posting:00000000-0000-4000-8000-00000000100b", "2f5899d8-ce46-1e44-d84b-aaca456413af"),
  ("opening-clearing-posting:00000000-0000-4000-8000-00000000100b", "dd33bf74-9f01-2ae8-1f4e-5ea59a05d4ec")]

def sampleMd5 (s : String) : Uuid :=
  ((sampleHashes.find? fun h => h.1 = s).bind fun h => Uuid.parse? h.2).getD usdClearing.id

theorem sample_migratable : Migratable sampleMd5 sampleWallets where
  unseeded := by
    have all : ∀ w ∈ sampleWallets.rows, w.id ≠ usdClearing.id ∧ w.id ≠ ngnClearing.id := by decide
    intro w hw currency
    cases currency with
    | usd => exact (all w hw).1
    | ngn => exact (all w hw).2
  nonneg := by
    have all : ∀ w ∈ sampleWallets.rows, 0 ≤ w.currentBalanceMinor := by decide
    exact all
  bigint := by
    have all : ∀ w ∈ sampleWallets.rows, isBigInt w.currentBalanceMinor := by decide
    exact all
  totals := by
    intro currency
    cases currency <;> decide
  injective := by
    have all : ∀ s ∈ sampleWallets.rows.flatMap hashed, ∀ t ∈ sampleWallets.rows.flatMap hashed,
        sampleMd5 s = sampleMd5 t → s = t := by decide
    rintro s ⟨w, hw, hs⟩ t ⟨v, hv, ht⟩
    exact all s (List.mem_flatMap.mpr ⟨w, hw, hs⟩) t (List.mem_flatMap.mpr ⟨v, hv, ht⟩)

theorem migrate_preserves_sample :
    ∃ db, migrate sampleMd5 5 .empty sampleWallets = .ok db ∧ Migrated sampleWallets db :=
  migrate_preserves sample_migratable 5 .empty

end Fintech.LedgerCore
