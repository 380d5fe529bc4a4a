import Fintech.Library.DoubleEntry
import Fintech.Model.Ledger
import Fintech.Proof.Slices

/-!
# Movements of money

What a posting does, as one value: the ledger transaction, its postings, and the accounts as they
were, each with its wallet. Its fields hold what the ledger checks before it posts.
-/

namespace Fintech
open Relational Transactional DoubleEntry

/-- The account, with its wallet if it has one, may take the amount. -/
structure Admissible (currency : Currency) (amount : Int) (account : LedgerAccount) (wallet : Option Wallet) :
    Prop where
  currency : account.currency = currency
  system : account.kind = .system → wallet = none
  wallet : account.kind = .wallet → ∃ w, wallet = some w ∧ w.currency = account.currency ∧
    w.currentBalanceMinor = account.balanceMinor ∧ w.status = .active
  range : isBigInt (account.balanceMinor + amount)
  funded : account.allowNegative ∨ 0 ≤ account.balanceMinor + amount

/-- What the postings add to an account. -/
def moved (postings : List LedgerPosting) (accountId : Uuid) : Int :=
  total LedgerPosting.accountId LedgerPosting.amountMinor postings accountId

structure Movement where
  opened : LedgerTransaction
  sealedAt : Time
  postings : List LedgerPosting
  accounts : List (LedgerAccount × Option Wallet)
  date : Time
  two_le : 2 ≤ postings.length
  own : ∀ p ∈ postings, p.ledgerTransactionId = opened.id
  nonzero : ∀ p ∈ postings, p.amountMinor ≠ 0
  bigint : ∀ p ∈ postings, isBigInt p.amountMinor
  distinct : (postings.map LedgerPosting.accountId).Nodup
  balanced : (postings.map LedgerPosting.amountMinor).sum = 0
  perm : (accounts.map fun a => a.1.id).Perm (postings.map LedgerPosting.accountId)
  admissible : ∀ a ∈ accounts, Admissible opened.currency (moved postings a.1.id) a.1 a.2
  linked : ∀ a ∈ accounts, ∀ w, a.2 = some w → w.ledgerAccountId = a.1.id

namespace Movement
variable (m : Movement)

def sealed : LedgerTransaction := { m.opened with sealedAt := some m.sealedAt }

def amount (accountId : Uuid) : Int := moved m.postings accountId

def accountIds : List Uuid := m.postings.map LedgerPosting.accountId

def onAccount (a : LedgerAccount) : LedgerAccount := { a with balanceMinor := a.balanceMinor + m.amount a.id }

def onWallet (w : Wallet) : Wallet :=
  if w.ledgerAccountId ∈ m.accountIds then
    { w with currentBalanceMinor := w.currentBalanceMinor + m.amount w.ledgerAccountId, updatedAt := m.date }
  else w

def accountWrites (a : LedgerAccount × Option Wallet) : List Write :=
  .update (.ledgerAccount a.1) (.ledgerAccount (m.onAccount a.1)) ::
    (a.2.map fun w => Write.update (.wallet w) (.wallet (m.onWallet w))).toList

def writes : List Write :=
  .insert (.ledgerTransaction m.opened) :: m.postings.map (fun p => .insert (.ledgerPosting p)) ++
    m.accounts.flatMap m.accountWrites ++ [.update (.ledgerTransaction m.opened) (.ledgerTransaction m.sealed)]

def wallets : List Wallet := m.accounts.filterMap Prod.snd

variable {m}

@[simp] theorem sealed_id : m.sealed.id = m.opened.id := rfl
@[simp] theorem sealed_reference : m.sealed.reference = m.opened.reference := rfl
@[simp] theorem sealed_currency : m.sealed.currency = m.opened.currency := rfl
@[simp] theorem onAccount_id (a : LedgerAccount) : (m.onAccount a).id = a.id := rfl
@[simp] theorem onAccount_kind (a : LedgerAccount) : (m.onAccount a).kind = a.kind := rfl
@[simp] theorem onAccount_currency (a : LedgerAccount) : (m.onAccount a).currency = a.currency := rfl
@[simp] theorem onAccount_allowNegative (a : LedgerAccount) : (m.onAccount a).allowNegative = a.allowNegative := rfl
@[simp] theorem onAccount_systemKey (a : LedgerAccount) : (m.onAccount a).systemKey = a.systemKey := rfl
@[simp] theorem onAccount_balance (a : LedgerAccount) :
    (m.onAccount a).balanceMinor = a.balanceMinor + m.amount a.id := rfl

@[simp] theorem onWallet_id (w : Wallet) : (m.onWallet w).id = w.id := by unfold onWallet; split <;> rfl
@[simp] theorem onWallet_userId (w : Wallet) : (m.onWallet w).userId = w.userId := by unfold onWallet; split <;> rfl
@[simp] theorem onWallet_currency (w : Wallet) : (m.onWallet w).currency = w.currency := by
  unfold onWallet; split <;> rfl
@[simp] theorem onWallet_status (w : Wallet) : (m.onWallet w).status = w.status := by unfold onWallet; split <;> rfl
@[simp] theorem onWallet_ledgerAccountId (w : Wallet) : (m.onWallet w).ledgerAccountId = w.ledgerAccountId := by
  unfold onWallet; split <;> rfl

theorem amount_of_not_mem {id : Uuid} (h : id ∉ m.accountIds) : m.amount id = 0 := total_of_not_mem h

theorem amount_of_mem {p : LedgerPosting} (h : p ∈ m.postings) : m.amount p.accountId = p.amountMinor :=
  total_of_mem m.distinct h

@[simp] theorem onWallet_balance (w : Wallet) :
    (m.onWallet w).currentBalanceMinor = w.currentBalanceMinor + m.amount w.ledgerAccountId := by
  unfold onWallet
  split
  · rfl
  · rename_i out
    rw [amount_of_not_mem out, add_zero]

theorem onWallet_of_not_mem {w : Wallet} (h : w.ledgerAccountId ∉ m.accountIds) : m.onWallet w = w := if_neg h

theorem onAccount_of_not_mem {a : LedgerAccount} (h : a.id ∉ m.accountIds) : m.onAccount a = a := by
  simp [onAccount, amount_of_not_mem h]

theorem id_mem {a : LedgerAccount × Option Wallet} (h : a ∈ m.accounts) : a.1.id ∈ m.accountIds :=
  m.perm.subset (List.mem_map.mpr ⟨a, h, rfl⟩)

theorem exists_of_id_mem {id : Uuid} (h : id ∈ m.accountIds) : ∃ a ∈ m.accounts, a.1.id = id :=
  List.mem_map.mp (m.perm.symm.subset h)

theorem amount_ne_zero {id : Uuid} (h : id ∈ m.accountIds) : m.amount id ≠ 0 := by
  obtain ⟨p, hp, rfl⟩ := List.mem_map.mp h
  rw [amount_of_mem hp]
  exact m.nonzero p hp

/-! ## The rows of each table -/

theorem written_accounts (as : List (LedgerAccount × Option Wallet)) :
    Slice.ledgerAccounts.written (as.flatMap m.accountWrites) = as.map (fun a => m.onAccount a.1) := by
  induction as with
  | nil => rfl
  | cons a as ih =>
      obtain ⟨a, w⟩ := a
      cases w <;> simp [ih, accountWrites]

theorem written_accountWallets (as : List (LedgerAccount × Option Wallet)) :
    Slice.wallets.written (as.flatMap m.accountWrites) = (as.filterMap Prod.snd).map m.onWallet := by
  induction as with
  | nil => rfl
  | cons a as ih =>
      obtain ⟨a, w⟩ := a
      cases w <;> simp [ih, accountWrites]

section
variable {ρ : Type} [Keyed ρ Uuid] {slice : Slice ρ}

theorem written_otherAccounts (h : ∀ a, slice.of (.ledgerAccount a) = none) (h' : ∀ w, slice.of (.wallet w) = none)
    (as : List (LedgerAccount × Option Wallet)) : slice.written (as.flatMap m.accountWrites) = [] := by
  induction as with
  | nil => rfl
  | cons a as ih =>
      obtain ⟨a, w⟩ := a
      cases w <;> simp [ih, accountWrites, h, h']

end

@[simp] theorem written_ledgerAccounts :
    Slice.ledgerAccounts.written m.writes = m.accounts.map (fun a => m.onAccount a.1) := by
  simp [writes, written_accounts, Slice.written_map]

@[simp] theorem written_wallets : Slice.wallets.written m.writes = m.wallets.map m.onWallet := by
  simp [writes, written_accountWallets, Slice.written_map, wallets]

@[simp] theorem written_ledgerTransactions : Slice.ledgerTransactions.written m.writes = [m.opened, m.sealed] := by
  rw [writes, Slice.written_append, Slice.written_append, Slice.written_cons, Slice.written_map,
    written_otherAccounts (fun _ => rfl) fun _ => rfl]
  simp

@[simp] theorem written_ledgerPostings : Slice.ledgerPostings.written m.writes = m.postings := by
  rw [writes, Slice.written_append, Slice.written_append, Slice.written_cons, Slice.written_map,
    written_otherAccounts (fun _ => rfl) fun _ => rfl]
  simp

end Movement

/-- A row of the four tables that a posting writes. -/
def Row.isLedger : Row → Bool
  | .ledgerAccount _ | .wallet _ | .ledgerTransaction _ | .ledgerPosting _ => true
  | _ => false

@[simp] theorem Movement.written_other {m : Movement} {ρ : Type} [Keyed ρ Uuid] {slice : Slice ρ}
    (h : slice.name ∉ [.ledgerAccount, .wallet, .ledgerTransaction, .ledgerPosting]) : slice.written m.writes = [] := by
  simp only [List.mem_cons, List.not_mem_nil, or_false, not_or] at h
  have none : ∀ r : Row, r.isLedger → slice.of r = Option.none := by
    intro r ledger
    refine slice.of_eq_none fun same => ?_
    cases r <;> simp_all [Row.isLedger, Row.table]
  rw [writes, Slice.written_append, Slice.written_append, Slice.written_cons, Slice.written_map,
    written_otherAccounts (fun _ => none _ rfl) fun _ => none _ rfl]
  simp only [Write.row_insert, none _ (rfl : Row.isLedger (.ledgerTransaction _)),
    none _ (rfl : Row.isLedger (.ledgerPosting _))]
  simp [none _ (rfl : Row.isLedger (.ledgerTransaction _))]

/-! ## The database after a movement -/

/-- `after` is `before` with the movement posted. -/
structure Posts (m : Movement) (before after : Db) : Prop where
  fresh : ∀ t ∈ before.ledgerTransactions, t.id ≠ m.opened.id ∧ t.reference ≠ m.opened.reference
  accounts_mem : ∀ a ∈ m.accounts, a.1 ∈ before.ledgerAccounts
  wallets_mem : ∀ w ∈ m.wallets, w ∈ before.wallets
  ledgerAccounts : after.ledgerAccounts = before.ledgerAccounts.modify m.onAccount fun _ => rfl
  wallets : after.wallets = before.wallets.putAll (m.wallets.map m.onWallet)
  ledgerTransactions : after.ledgerTransactions.rows = before.ledgerTransactions.rows ++ [m.sealed]
  ledgerPostings : after.ledgerPostings.rows = before.ledgerPostings.rows ++ m.postings

/-- The writes stay clear of the four ledger tables. -/
def Clear (ws : List Write) : Prop := ∀ w ∈ ws, ¬ w.row.isLedger

theorem Clear.written {ws : List Write} (h : Clear ws) {ρ : Type} [Keyed ρ Uuid] {slice : Slice ρ}
    (ledger : ∀ x, (slice.row x).isLedger) : slice.written ws = [] := by
  rw [Slice.written, List.filterMap_eq_nil_iff]
  intro w hw
  cases found : slice.of w.row with
  | none => rfl
  | some x => exact absurd (slice.of_eq_some.mp found ▸ ledger x) (h w hw)

theorem Slice.inserted_fresh {ρ : Type} [Keyed ρ Uuid] (slice : Slice ρ) {db : Db} {rs : List ρ}
    (h : Accepts db (rs.map fun x => .insert (slice.row x))) :
    (∀ r ∈ rs, ∀ x ∈ slice.table db, key x ≠ key r) ∧ (rs.map key).Nodup := by
  induction rs generalizing db with
  | nil => simp
  | cons r rs ih =>
      obtain ⟨first, rest⟩ := h
      obtain ⟨fresh, nodup⟩ := ih rest
      have new : ∀ x ∈ slice.table db, key x ≠ key r := by
        intro x hx same
        refine Db.not_taken_iff.mp (first.fresh _ (slice.row r).pk_mem_keys) (slice.row x) (slice.mem.mpr hx) ?_
        rw [← slice.pk_eq.mpr same]
        exact (slice.row x).pk_mem_keys
      have put : slice.table (db.put (slice.row r)) = (slice.table db).put r := by simp [slice.put]
      rw [Write.row_insert, put] at fresh
      refine ⟨fun r' hr' x hx => ?_, ?_⟩
      · rcases List.mem_cons.mp hr' with rfl | hr'
        · exact new x hx
        · exact fresh r' hr' x (Table.mem_put_of_ne hx (new x hx))
      · rw [List.map_cons, List.nodup_cons]
        refine ⟨fun mem => ?_, nodup⟩
        obtain ⟨r', hr', same⟩ := List.mem_map.mp mem
        exact fresh r' hr' r (Table.mem_put_self _ _) same.symm

namespace Movement
variable {m : Movement}

/-- The accounts and wallets that a movement updates are there when it starts. -/
theorem accounts_there {db : Db} {as : List (LedgerAccount × Option Wallet)} (h : Accepts db (as.flatMap m.accountWrites))
    (distinct : (as.map fun a => a.1.id).Nodup) (linked : ∀ a ∈ as, ∀ w, a.2 = some w → w.ledgerAccountId = a.1.id) :
    ∀ a ∈ as, a.1 ∈ db.ledgerAccounts ∧ ∀ w, a.2 = some w → w ∈ db.wallets := by
  induction as generalizing db with
  | nil => simp
  | cons a as ih =>
      rw [List.flatMap_cons, accepts_append] at h
      obtain ⟨⟨account, wallet⟩, rest⟩ := h
      rw [List.map_cons, List.nodup_cons] at distinct
      have later := ih rest distinct.2 fun a ha => linked a (by simp [ha])
      intro b hb
      rcases List.mem_cons.mp hb with rfl | hb
      · refine ⟨account.mem, fun w hw => ?_⟩
        rw [hw] at wallet
        rcases Db.mem_put.mp wallet.1.mem with same | ⟨mem, _⟩
        · cases same
        · exact mem
      · have other : b.1.id ≠ a.1.id := fun same => distinct.1 (List.mem_map.mpr ⟨b, hb, same⟩)
        have accounts : (db.write (m.accountWrites a)).ledgerAccounts = db.ledgerAccounts.put (m.onAccount a.1) := by
          have := Slice.ledgerAccounts.table_write db (m.accountWrites a)
          cases wallet : a.2 <;> simpa [accountWrites, wallet] using this
        have wallets : (db.write (m.accountWrites a)).wallets = db.wallets.putAll (a.2.toList.map m.onWallet) := by
          have := Slice.wallets.table_write db (m.accountWrites a)
          cases wallet : a.2 <;> simpa [accountWrites, wallet] using this
        obtain ⟨mem, memWallet⟩ := later b hb
        rw [accounts] at mem
        rw [wallets] at memWallet
        refine ⟨?_, fun w hw => ?_⟩
        · rcases Table.mem_put.mp mem with same | ⟨mem, _⟩
          · exact absurd (congrArg LedgerAccount.id same) other
          · exact mem
        · have link := linked b (by simp [hb]) w hw
          cases owner : a.2 with
          | none => simpa [owner] using memWallet w hw
          | some x =>
              have linkx := linked a (by simp) x owner
              have mem := memWallet w hw
              simp only [owner, Option.toList_some, List.map_cons, List.map_nil, Table.putAll_cons, Table.putAll_nil,
                Table.mem_put] at mem
              rcases mem with rfl | ⟨mem, _⟩
              · rw [onWallet_ledgerAccountId, linkx] at link
                exact absurd link.symm other
              · exact mem

theorem owners_sublist (as : List (LedgerAccount × Option Wallet))
    (linked : ∀ a ∈ as, ∀ w, a.2 = some w → w.ledgerAccountId = a.1.id) :
    ((as.filterMap Prod.snd).map Wallet.ledgerAccountId).Sublist (as.map fun a => a.1.id) := by
  induction as with
  | nil => exact .slnil
  | cons a as ih =>
      have rest := ih fun a ha => linked a (by simp [ha])
      cases owner : a.2 with
      | none => simpa [owner] using rest.cons a.1.id
      | some w => simpa [owner, linked a (by simp) w owner] using rest

end Movement

theorem Posts.of_accepts {m : Movement} {db : Db} {before after : List Write}
    (h : Accepts db (before ++ m.writes ++ after)) (clear : Clear before) (clear' : Clear after) :
    Posts m db (db.write (before ++ m.writes ++ after)) := by
  have written {ρ : Type} [Keyed ρ Uuid] (slice : Slice ρ) (ledger : ∀ x, (slice.row x).isLedger) :
      slice.table (db.write before) = slice.table db ∧
        slice.table (db.write (before ++ m.writes ++ after)) = (slice.table db).putAll (slice.written m.writes) := by
    refine ⟨?_, ?_⟩ <;>
      simp only [Slice.table_write, Slice.written_append, clear.written ledger, clear'.written ledger,
        List.nil_append, List.append_nil, Table.putAll_nil]
  have accounts := written .ledgerAccounts fun _ => rfl
  have wallets := written .wallets fun _ => rfl
  have transactions := written .ledgerTransactions fun _ => rfl
  have postings := written .ledgerPostings fun _ => rfl
  simp only [Slice.ledgerAccounts_table, Slice.wallets_table, Slice.ledgerTransactions_table,
    Slice.ledgerPostings_table, Movement.written_ledgerAccounts, Movement.written_wallets,
    Movement.written_ledgerTransactions, Movement.written_ledgerPostings] at accounts wallets transactions postings
  rw [accepts_append, accepts_append] at h
  obtain ⟨⟨_, movement⟩, _⟩ := h
  rw [Movement.writes, accepts_append, accepts_append, List.cons_append, accepts_cons, accepted_insert] at movement
  obtain ⟨⟨⟨opened, posted⟩, moved⟩, _⟩ := movement
  have fresh : ∀ t ∈ db.ledgerTransactions, t.id ≠ m.opened.id ∧ t.reference ≠ m.opened.reference := by
    intro t ht
    have mem : Row.ledgerTransaction t ∈ db.write before := by
      rw [Db.ledgerTransaction_mem, transactions.1]
      exact ht
    have free := fun k hk => Db.not_taken_iff.mp (opened.fresh k hk) (.ledgerTransaction t) mem
    have pk := free (.row .ledgerTransaction m.opened.id) (by simp [Row.keys, Row.pk])
    have slot := free (.ledgerReference m.opened.reference) (by simp [Row.keys, Row.slots])
    simp [Row.keys, Row.pk] at pk
    simp [Row.keys, Row.pk, Row.slots] at slot
    exact ⟨fun e => pk.1 e.symm, fun e => slot e.symm⟩
  have distinct : (m.accounts.map fun a => a.1.id).Nodup := m.perm.nodup_iff.mpr m.distinct
  have there := Movement.accounts_there moved distinct m.linked
  have quiet {ρ : Type} [Keyed ρ Uuid] (slice : Slice ρ) (h : ∀ t, slice.of (.ledgerTransaction t) = none)
      (h' : ∀ p, slice.of (.ledgerPosting p) = none) :
      slice.table (((db.write before).put (.ledgerTransaction m.opened)).write
        (m.postings.map fun p => .insert (.ledgerPosting p))) = slice.table (db.write before) := by
    rw [Slice.table_write, Slice.written_map, slice.put]
    simp [h, h']
  have accountsThen := (quiet .ledgerAccounts (fun _ => rfl) fun _ => rfl).trans accounts.1
  have walletsThen := (quiet .wallets (fun _ => rfl) fun _ => rfl).trans wallets.1
  have accounts_mem : ∀ a ∈ m.accounts, a.1 ∈ db.ledgerAccounts := fun a ha => accountsThen ▸ (there a ha).1
  have wallets_mem : ∀ w ∈ m.wallets, w ∈ db.wallets := by
    intro w hw
    obtain ⟨a, ha, owns⟩ := List.mem_filterMap.mp hw
    exact walletsThen ▸ (there a ha).2 w owns
  obtain ⟨new, nodup⟩ := Slice.ledgerPostings.inserted_fresh posted
  exact {
    fresh
    accounts_mem
    wallets_mem
    ledgerAccounts := by
      rw [accounts.2, show m.accounts.map (fun a => m.onAccount a.1) = (m.accounts.map Prod.fst).map m.onAccount by simp]
      refine Table.putAll_eq_modify _ _ _ _ ?_ ?_ ?_
      · intro r hr
        obtain ⟨a, ha, rfl⟩ := List.mem_map.mp hr
        exact accounts_mem a ha
      · rw [List.map_map]
        exact distinct
      · intro r _ out
        refine Movement.onAccount_of_not_mem fun mem => out ?_
        obtain ⟨a, ha, same⟩ := Movement.exists_of_id_mem mem
        rw [List.map_map]
        exact List.mem_map.mpr ⟨a, ha, same⟩
    wallets := wallets.2
    ledgerTransactions := by
      have same : key m.opened = key m.sealed := rfl
      rw [transactions.2, Table.putAll_cons, Table.putAll_cons, Table.putAll_nil, Table.put_put same]
      exact Table.rows_put_of_fresh fun t ht => (fresh t ht).1
    ledgerPostings := by
      rw [postings.2]
      refine Table.rows_putAll_of_fresh _ _ (fun r hr x hx => new r hr x ?_) nodup
      change x ∈ (db.write before).ledgerPostings
      rw [postings.1]
      exact hx }

/-- Where every wallet account has one wallet and no system account has any, a movement changes
every wallet by what its account moves. -/
theorem Posts.wallets_modify {m : Movement} {before after : Db} (h : Posts m before after) (sound : before.Sound)
    (unlinked : ∀ w ∈ before.wallets, ∀ a ∈ before.ledgerAccounts, a.id = w.ledgerAccountId → a.kind = .wallet) :
    after.wallets = before.wallets.modify m.onWallet Movement.onWallet_id := by
  rw [h.wallets]
  refine Table.putAll_eq_modify _ _ _ _ h.wallets_mem ?_ ?_
  · have distinct : (m.accounts.map fun a => a.1.id).Nodup := m.perm.nodup_iff.mpr m.distinct
    have nodup := (Movement.owners_sublist m.accounts m.linked).nodup distinct
    exact nodup.of_map.map_on fun w hw x hx same => Table.eq_of_key_eq (h.wallets_mem w hw) (h.wallets_mem x hx) same
  · intro w hw out
    refine Movement.onWallet_of_not_mem fun mem => out ?_
    obtain ⟨a, ha, same⟩ := Movement.exists_of_id_mem mem
    have kind := unlinked w hw a.1 (h.accounts_mem a ha) same
    obtain ⟨x, owns, _⟩ := (m.admissible a ha).wallet kind
    have hx : x ∈ m.wallets := List.mem_filterMap.mpr ⟨a, ha, owns⟩
    have link := m.linked a ha x owns
    have key : Row.wallet w = Row.wallet x := by
      refine sound.unique _ hw _ (h.wallets_mem x hx) (.walletAccount w.ledgerAccountId) ?_ ?_
      · simp [Row.keys, Row.slots]
      · simp [Row.keys, Row.slots, link, same]
    obtain rfl : w = x := by simpa using key
    exact List.mem_map.mpr ⟨w, hx, rfl⟩

end Fintech
