import Fintech.Proof.Movement
import Fintech.Proof.Tracking

/-!
# What a posting does

`LedgerService.postWithinTransaction` either writes one movement, or fails; when it fails with a
client error it has written nothing.
-/

namespace Fintech
open Relational Transactional DoubleEntry

/-! ## The input -/

theorem normalizePostings_eq_ok {accountIds : List String} {total n : Int} {postings : List LedgerPostingInput} :
    normalizePostings accountIds total postings = .ok n ↔
      (∀ p ∈ postings, isUuidV4 p.accountId ∧ p.amountMinor ≠ 0 ∧ isBigInt p.amountMinor ∧ p.accountId ∉ accountIds) ∧
        (postings.map LedgerPostingInput.accountId).Nodup ∧
        total + (postings.map LedgerPostingInput.amountMinor).sum = n := by
  induction postings generalizing accountIds total with
  | nil => simp [normalizePostings]
  | cons p postings ih =>
      simp only [normalizePostings, bind_unit_eq_ok, failIf_eq_ok, not_not, ih,
        List.mem_cons, List.map_cons, List.nodup_cons, List.sum_cons, List.mem_map, not_or, forall_eq_or_imp]
      constructor
      · rintro ⟨uuid, nonzero, bigint, new, rest, nodup, sum⟩
        refine ⟨⟨⟨uuid, nonzero, bigint, new⟩, fun q hq => ?_⟩, ⟨?_, nodup⟩, by omega⟩
        · exact ⟨(rest q hq).1, (rest q hq).2.1, (rest q hq).2.2.1, (rest q hq).2.2.2.2⟩
        · rintro ⟨q, hq, same⟩
          exact (rest q hq).2.2.2.1 same
      · rintro ⟨⟨⟨uuid, nonzero, bigint, new⟩, rest⟩, ⟨alone, nodup⟩, sum⟩
        refine ⟨uuid, nonzero, bigint, new, fun q hq => ?_, nodup, by omega⟩
        obtain ⟨uuid', nonzero', bigint', new'⟩ := rest q hq
        exact ⟨uuid', nonzero', bigint', fun same => alone ⟨q, hq, same⟩, new'⟩

/-- What the ledger accepts as an input. -/
structure Normalized (input normalized : LedgerTransactionInput) : Prop where
  reference : normalized.reference = jsTrim input.reference
  currency : normalized.currency = input.currency
  description : normalized.description = (input.description.map jsTrim).filter (· ≠ "")
  postings : normalized.postings = input.postings
  two_le : 2 ≤ input.postings.length
  valid : ∀ p ∈ input.postings, isUuidV4 p.accountId ∧ p.amountMinor ≠ 0 ∧ isBigInt p.amountMinor
  distinct : (input.postings.map LedgerPostingInput.accountId).Nodup
  balanced : (input.postings.map LedgerPostingInput.amountMinor).sum = 0

theorem Normalized.of_ok {input normalized : LedgerTransactionInput}
    (h : normalizeLedgerTransactionInput input = .ok normalized) : Normalized input normalized := by
  simp only [normalizeLedgerTransactionInput, bind_eq_ok, failIf_eq_ok, pure, Except.pure, Except.ok.injEq] at h
  obtain ⟨_, _, _, _, _, two, _, _, total, posted, _, zero, rfl⟩ := h
  obtain ⟨valid, distinct, sum⟩ := normalizePostings_eq_ok.mp posted
  have zero : total = 0 := by simpa using zero
  refine ⟨rfl, rfl, rfl, rfl, by omega, fun p hp => ?_, distinct, by omega⟩
  obtain ⟨uuid, nonzero, bigint, _⟩ := valid p hp
  exact ⟨uuid, nonzero, bigint⟩

/-! ## Lists related element by element -/

section
variable {α β γ ε : Type} {R : α → β → Prop} {as : List α} {bs : List β}

theorem mapM_eq_ok {f : α → Except ε β} : as.mapM f = .ok bs ↔ List.Forall₂ (fun a b => f a = .ok b) as bs := by
  induction as generalizing bs with
  | nil => simp [pure, Except.pure, eq_comm]
  | cons a as ih =>
      rw [List.mapM_cons]
      constructor
      · intro h
        obtain ⟨b, first, rest⟩ := bind_eq_ok.mp h
        obtain ⟨bs', others, done⟩ := bind_eq_ok.mp rest
        cases done
        exact .cons first (ih.mp others)
      · rintro (_ | ⟨first, rest⟩)
        exact bind_eq_ok.mpr ⟨_, first, bind_eq_ok.mpr ⟨_, ih.mpr rest, rfl⟩⟩

theorem exists_of_mapM_eq_error {f : α → Except ε β} {e : ε} (h : as.mapM f = .error e) : ∃ a ∈ as, f a = .error e := by
  induction as with
  | nil => cases h
  | cons a as ih =>
      rw [List.mapM_cons] at h
      cases first : f a with
      | error e' =>
          rw [first] at h
          cases h
          exact ⟨a, List.mem_cons_self, first⟩
      | ok b =>
          cases rest : as.mapM f with
          | error e' =>
              rw [first, rest] at h
              cases h
              obtain ⟨a', mem, failed⟩ := ih rest
              exact ⟨a', List.mem_cons_of_mem a mem, failed⟩
          | ok bs =>
              rw [first, rest] at h
              cases h

theorem exists_mapM_eq_ok {f : α → Except ε β} (h : ∀ a ∈ as, ∃ b, f a = .ok b) :
    ∃ bs, as.mapM f = .ok bs := by
  cases run : as.mapM f with
  | ok bs => exact ⟨bs, rfl⟩
  | error e =>
      obtain ⟨a, mem, failed⟩ := exists_of_mapM_eq_error run
      obtain ⟨b, ok⟩ := h a mem
      rw [ok] at failed
      cases failed

theorem map_eq_map_of_forall₂ (h : List.Forall₂ R as bs) {f : α → γ} {g : β → γ}
    (agree : ∀ a b, R a b → f a = g b) : as.map f = bs.map g := by
  induction h with
  | nil => rfl
  | cons first _ ih => rw [List.map_cons, List.map_cons, agree _ _ first, ih]

theorem forall₂_mem (h : List.Forall₂ R as bs) : List.Forall₂ (fun a b => a ∈ as ∧ R a b) as bs := by
  induction h with
  | nil => exact .nil
  | cons first _ ih => exact .cons ⟨by simp, first⟩ (ih.imp fun _ _ related => ⟨by simp [related.1], related.2⟩)

theorem exists_of_forall₂ (h : List.Forall₂ R as bs) {b : β} (mem : b ∈ bs) : ∃ a ∈ as, R a b := by
  induction h with
  | nil => simp at mem
  | cons first _ ih =>
      rcases List.mem_cons.mp mem with rfl | mem
      · exact ⟨_, by simp, first⟩
      · obtain ⟨a, ha, related⟩ := ih mem
        exact ⟨a, by simp [ha], related⟩

end

theorem lookup_of_mem {κ ω : Type} [DecidableEq κ] {l : List (κ × ω)} (nodup : (l.map Prod.fst).Nodup) {k : κ} {v : ω}
    (h : (k, v) ∈ l) : l.lookup k = some v := by
  induction l with
  | nil => simp at h
  | cons x l ih =>
      obtain ⟨k', v'⟩ := x
      simp only [List.map_cons, List.nodup_cons] at nodup
      rw [List.lookup_cons]
      rcases List.mem_cons.mp h with e | h
      · cases e
        simp
      · have other : k ≠ k' := fun same => nodup.1 (List.mem_map.mpr ⟨(k, v), h, same⟩)
        rw [beq_false_of_ne other]
        exact ih nodup.2 h

/-! ## The balances -/

theorem Db.walletOf_eq_some {db : Db} {id : Uuid} {w : Wallet} (h : db.walletOf id = some w) :
    w ∈ db.wallets ∧ w.ledgerAccountId = id :=
  ⟨List.mem_of_find?_eq_some h, by simpa using List.find?_some h⟩

namespace LedgerService

theorem nextBalance_eq_ok {accounts : List (LedgerAccount × Option Wallet)} {currency : Currency}
    {posting : LedgerPostingInput} {next : Uuid × Int} (h : nextBalance accounts currency posting = .ok next) :
    ∃ a ∈ accounts, a.1.id.text = posting.accountId ∧ Admissible currency posting.amountMinor a.1 a.2 ∧
      next = (a.1.id, a.1.balanceMinor + posting.amountMinor) := by
  unfold nextBalance at h
  split at h
  · rename_i account wallet found
    have known : (account, wallet) ∈ accounts := List.mem_of_find?_eq_some found
    have named : account.id.text = posting.accountId := by simpa using List.find?_some found
    obtain ⟨currency, h⟩ := bind_unit_eq_ok.mp h
    rw [failIf_eq_ok, not_not] at currency
    have balance (h : (do
        failIf (¬ isSupportedMinorUnitValue (account.balanceMinor + posting.amountMinor))
          (conflict "Ledger posting would exceed the supported BIGINT range")
        failIf (¬ account.allowNegative ∧ account.balanceMinor + posting.amountMinor < 0)
          (conflict "Insufficient funds for ledger posting")
        return (account.id, account.balanceMinor + posting.amountMinor)) = Except.ok next) :
        isBigInt (account.balanceMinor + posting.amountMinor) ∧
          (account.allowNegative ∨ 0 ≤ account.balanceMinor + posting.amountMinor) ∧
          next = (account.id, account.balanceMinor + posting.amountMinor) := by
      simp only [bind_unit_eq_ok, failIf_eq_ok, not_not, pure, Except.pure, Except.ok.injEq] at h
      obtain ⟨range, funded, rfl⟩ := h
      refine ⟨range, ?_, rfl⟩
      by_cases negative : account.allowNegative
      · exact .inl negative
      · exact .inr (not_lt.mp fun short => funded ⟨negative, short⟩)
    split at h
    · simp [bind, Except.bind] at h
    · rename_i kind _
      obtain ⟨same, h⟩ := bind_unit_eq_ok.mp h
      obtain ⟨snapshot, h⟩ := bind_unit_eq_ok.mp h
      obtain ⟨active, h⟩ := bind_unit_eq_ok.mp h
      rw [failIf_eq_ok, not_not] at same snapshot active
      obtain ⟨range, funded, rfl⟩ := balance h
      exact ⟨_, known, named, ⟨currency, by simp [kind], fun _ => ⟨_, rfl, same, snapshot, active⟩, range, funded⟩, rfl⟩
    · rename_i kind _
      obtain ⟨unlinked, h⟩ := bind_unit_eq_ok.mp h
      rw [failIf_eq_ok, Bool.not_eq_true, Option.isSome_eq_false_iff, Option.isNone_iff_eq_none] at unlinked
      obtain ⟨range, funded, rfl⟩ := balance h
      exact ⟨_, known, named, ⟨currency, fun _ => unlinked, by simp [kind], range, funded⟩, rfl⟩
  · cases h

theorem mem_findAccounts {ids : List String} {db : Db} {a : LedgerAccount × Option Wallet} :
    a ∈ findAccounts ids db ↔
      a.1 ∈ db.ledgerAccounts ∧ (∃ id ∈ ids, Uuid.parse? id = some a.1.id) ∧ a.2 = db.walletOf a.1.id := by
  obtain ⟨account, wallet⟩ := a
  simp only [findAccounts, List.mem_map, List.mem_filter, List.any_eq_true, decide_eq_true_eq, Prod.mk.injEq,
    Table.mem_def]
  constructor
  · rintro ⟨_, ⟨mem, named⟩, rfl, rfl⟩
    exact ⟨mem, named, rfl⟩
  · rintro ⟨mem, named, rfl⟩
    exact ⟨account, ⟨mem, named⟩, rfl, rfl⟩

theorem findAccounts_distinct (ids : List String) (db : Db) : ((findAccounts ids db).map fun a => a.1.id).Nodup := by
  rw [findAccounts, List.map_map]
  exact (List.filter_sublist.map _).nodup db.ledgerAccounts.unique

theorem postingRow_eq_ok {draws : Draws} {id accountId : Uuid} {posting : LedgerPostingInput} {row : LedgerPosting}
    (named : accountId.text = posting.accountId) (h : postingRow draws id posting = .ok row) :
    row = { id := draws.posting accountId, ledgerTransactionId := id, accountId, amountMinor := posting.amountMinor } := by
  have cast : castUuid posting.accountId = .ok accountId := by
    rw [castUuid, ← named, Uuid.parse?_text]
  rw [postingRow, cast] at h
  cases h
  rfl

/-- The ledger transaction that a posting creates. -/
def openedTransaction (draws : Draws) (input : LedgerTransactionInput) : LedgerTransaction where
  id := draws.id .ledgerTransaction
  reference := input.reference
  currency := input.currency
  description := input.description
  createdAt := draws.createdAt .ledgerTransaction

section
variable {draws : Draws} {input normalized : LedgerTransactionInput} {db : Db} {next : List (Uuid × Int)}
  {rows : List LedgerPosting}

/-- The checks that a posting passes make its movement. -/
theorem exists_movement (norm : Normalized input normalized)
    (count : (findAccounts (normalized.postings.map LedgerPostingInput.accountId) db).length = normalized.postings.length)
    (balances : List.Forall₂ (fun p n => nextBalance (findAccounts (normalized.postings.map LedgerPostingInput.accountId) db)
      normalized.currency p = .ok n) normalized.postings next)
    (posted : List.Forall₂ (fun p row => postingRow draws (draws.id .ledgerTransaction) p = .ok row)
      normalized.postings rows) :
    ∃ m : Movement, m.opened = openedTransaction draws normalized ∧ m.sealedAt = draws.date .ledgerTransaction ∧
      m.date = draws.date .wallet ∧ m.postings = rows ∧
      m.accounts = findAccounts (normalized.postings.map LedgerPostingInput.accountId) db ∧
      (∀ a ∈ m.accounts, next.lookup a.1.id = some (a.1.balanceMinor + m.amount a.1.id)) ∧
      List.Forall₂ (fun p (row : LedgerPosting) => row.accountId.text = p.accountId ∧ row.amountMinor = p.amountMinor)
        input.postings m.postings := by
  rw [norm.postings] at count balances posted ⊢
  have reference := norm.reference
  set ids := input.postings.map LedgerPostingInput.accountId with hids
  set accounts := findAccounts ids db with haccounts
  have unique : ∀ a ∈ accounts, ∀ b ∈ accounts, a.1.id = b.1.id → a = b := fun a ha b hb same =>
    List.inj_on_of_nodup_map (findAccounts_distinct ids db) ha hb same
  have known : ∀ p ∈ input.postings, ∃ a ∈ accounts, a.1.id.text = p.accountId ∧
      Admissible normalized.currency p.amountMinor a.1 a.2 ∧ (a.1.id, a.1.balanceMinor + p.amountMinor) ∈ next := by
    intro p hp
    obtain ⟨n, hn, ok⟩ := exists_of_forall₂ balances.flip hp
    obtain ⟨a, ha, named, admissible, rfl⟩ := nextBalance_eq_ok ok
    exact ⟨a, ha, named, admissible, hn⟩
  have written : List.Forall₂ (fun p row => p ∈ input.postings ∧ ∃ a ∈ accounts, a.1.id.text = p.accountId ∧
      row = { id := draws.posting a.1.id, ledgerTransactionId := draws.id .ledgerTransaction,
              accountId := a.1.id, amountMinor := p.amountMinor }) input.postings rows := by
    refine (forall₂_mem posted).imp fun p row ⟨hp, ok⟩ => ⟨hp, ?_⟩
    obtain ⟨a, ha, named, _⟩ := known p hp
    exact ⟨a, ha, named, postingRow_eq_ok named ok⟩
  have rowNames : rows.map (fun row => row.accountId.text) = ids :=
    (map_eq_map_of_forall₂ written fun p row ⟨_, a, _, named, e⟩ => by rw [e, named]).symm
  have rowAmounts : rows.map LedgerPosting.amountMinor = input.postings.map LedgerPostingInput.amountMinor :=
    (map_eq_map_of_forall₂ written fun p row ⟨_, a, _, _, e⟩ => by rw [e]).symm
  have nextNames : next.map (fun n => n.1.text) = ids := by
    refine (map_eq_map_of_forall₂ balances fun p n ok => ?_).symm
    obtain ⟨a, _, named, _, rfl⟩ := nextBalance_eq_ok ok
    exact named.symm
  have distinct : (rows.map LedgerPosting.accountId).Nodup := by
    refine List.Nodup.of_map Uuid.text ?_
    rw [List.map_map]
    exact rowNames ▸ norm.distinct
  have nextDistinct : (next.map Prod.fst).Nodup := by
    refine List.Nodup.of_map Uuid.text ?_
    rw [List.map_map]
    exact nextNames ▸ norm.distinct
  have rowOf : ∀ row ∈ rows, ∃ p ∈ input.postings, ∃ a ∈ accounts, a.1.id = row.accountId ∧
      row.amountMinor = p.amountMinor ∧ row.ledgerTransactionId = draws.id .ledgerTransaction ∧
      Admissible normalized.currency p.amountMinor a.1 a.2 ∧ (a.1.id, a.1.balanceMinor + p.amountMinor) ∈ next := by
    intro row hrow
    obtain ⟨p, hp, _, a, ha, named, rfl⟩ := exists_of_forall₂ written hrow
    obtain ⟨b, hb, named', admissible, hn⟩ := known p hp
    obtain rfl := unique a ha b hb (Uuid.ext (named.trans named'.symm))
    exact ⟨p, hp, a, ha, rfl, rfl, rfl, admissible, hn⟩
  have perm : (accounts.map fun a => a.1.id).Perm (rows.map LedgerPosting.accountId) := by
    have sub : rows.map LedgerPosting.accountId ⊆ accounts.map fun a => a.1.id := by
      intro id hid
      obtain ⟨row, hrow, rfl⟩ := List.mem_map.mp hid
      obtain ⟨_, _, a, ha, same, _⟩ := rowOf row hrow
      exact List.mem_map.mpr ⟨a, ha, same⟩
    refine ((List.subperm_of_subset distinct sub).perm_of_length_le ?_).symm
    have := written.length_eq
    simp only [List.length_map]
    omega
  have moves : ∀ a ∈ accounts, Admissible normalized.currency (moved rows a.1.id) a.1 a.2 ∧
      next.lookup a.1.id = some (a.1.balanceMinor + moved rows a.1.id) := by
    intro a ha
    obtain ⟨row, hrow, same⟩ := List.mem_map.mp (perm.subset (List.mem_map.mpr ⟨a, ha, rfl⟩))
    obtain ⟨p, _, b, hb, same', amount, _, admissible, hn⟩ := rowOf row hrow
    obtain rfl := unique a ha b hb (same.symm.trans same'.symm)
    have total : moved rows a.1.id = p.amountMinor := by
      rw [← amount, same']
      exact total_of_mem distinct hrow
    rw [total]
    exact ⟨admissible, lookup_of_mem nextDistinct hn⟩
  have valid : ∀ row ∈ rows, row.amountMinor ≠ 0 ∧ isBigInt row.amountMinor := by
    intro row hrow
    obtain ⟨p, hp, _, _, _, amount, _⟩ := rowOf row hrow
    rw [amount]
    exact (norm.valid p hp).2
  refine ⟨{
    opened := openedTransaction draws normalized
    sealedAt := draws.date .ledgerTransaction
    postings := rows
    accounts := accounts
    date := draws.date .wallet
    two_le := written.length_eq ▸ norm.two_le
    own := fun row hrow => by obtain ⟨_, _, _, _, _, _, own, _⟩ := rowOf row hrow; exact own
    nonzero := fun row hrow => (valid row hrow).1
    bigint := fun row hrow => (valid row hrow).2
    distinct
    balanced := rowAmounts ▸ norm.balanced
    perm
    admissible := fun a ha => (moves a ha).1
    linked := fun a ha w owner => (Db.walletOf_eq_some ((mem_findAccounts.mp ha).2.2.symm.trans owner)).2 },
    rfl, rfl, rfl, rfl, rfl, fun a ha => (moves a ha).2, written.imp fun p row ⟨_, a, _, named, e⟩ => ?_⟩
  rw [e]
  exact ⟨named, rfl⟩

end

end LedgerService

/-! ## The statements -/

section Statements
variable {base : Nat → Db} {v : View Settings Row Key} {ws : List Write} {m : Movement}

/-- The update of an account, with the wallet that its trigger updates. -/
theorem ensures_updateLedgerAccount {Q : Except HttpException Unit → View Settings Row Key → Prop}
    (h : Tracks base v ws) {a : LedgerAccount × Option Wallet} (ha : a ∈ m.accounts)
    (account : ((base v.executed).write ws).ledgerAccounts.find? a.1.id = some a.1)
    (wallet : ((base v.executed).write ws).walletOf a.1.id = a.2)
    (post : ∀ v', Tracks base v' (ws ++ m.accountWrites a) → Q (.ok ()) v') :
    (updateLedgerAccount a.1.id (a.1.balanceMinor + m.amount a.1.id) m.date).Ensures base Q v := by
  refine ⟨Prog.wp_exec.mpr ⟨fun _ _ => trivial, ?_⟩⟩
  rintro ⟨⟩ e ok
  have changes : a.1.balanceMinor + m.amount a.1.id ≠ a.1.balanceMinor := by
    have := Movement.amount_ne_zero (Movement.id_mem ha)
    omega
  simp only [h.seen, account, bind_eq_ok, pure, Except.pure, Except.ok.injEq, Prod.mk.injEq, true_and] at ok
  obtain ⟨s, updated, ⟨s', synced⟩, sync, rfl⟩ := ok
  have mem : Row.ledgerAccount a.1 ∈ (base v.executed).write ws := (Table.find?_eq_some.mp account).1
  have first : Updatable _ (.ledgerAccount a.1) (.ledgerAccount (m.onAccount a.1)) := .of_update mem rfl updated
  cases kind : a.1.kind with
  | system =>
      have none := (m.admissible a ha).system kind
      have unsynced : s = s' ∧ [] = synced := by
        simpa [syncWalletBalanceFromLedgerAccount, kind] using sync
      refine post _ (h.wrote _ ?_ ?_)
      · simp [Movement.accountWrites, Movement.onAccount, none, kind, ← unsynced.2]
      · simpa [Movement.accountWrites, none] using first
  | wallet =>
      obtain ⟨w, owner, _, snapshot, _⟩ := (m.admissible a ha).wallet kind
      have link := m.linked a ha w owner
      have moved : m.onWallet w =
          { w with currentBalanceMinor := a.1.balanceMinor + m.amount a.1.id, updatedAt := m.date } := by
        rw [Movement.onWallet, if_pos (link ▸ Movement.id_mem ha), snapshot, link]
      rw [owner] at wallet
      simp only [syncWalletBalanceFromLedgerAccount, kind, changes, ne_eq, not_false_eq_true, and_self, if_true, wallet,
        bind_eq_ok, pure, Except.pure, Except.ok.injEq, Prod.mk.injEq] at sync
      obtain ⟨s'', rewritten, rfl, rfl⟩ := sync
      rw [← moved] at rewritten ⊢
      have second := Updatable.of_update (Db.walletOf_eq_some wallet).1 (by simp [Row.pk]) rewritten
      refine post _ (h.wrote _ ?_ ?_)
      · simp [Movement.accountWrites, Movement.onAccount, owner, kind]
      · simp only [Movement.accountWrites, owner, Option.map_some, Option.toList_some, accepts_cons, accepts_nil, and_true,
          accepted_update]
        refine ⟨first, Db.mem_put.mpr (.inr ⟨second.mem, by simp [Row.pk]⟩), second.pk, second.allowed, second.check,
          fun k hk out => absurd ?_ out, fun k hk => taken_of_le (Store.le_apply _ _) hk (second.referenced k hk)⟩
        simpa [Row.slots] using hk

/-- Accounts that are not among those updated so far are as they were, and so are their wallets. -/
theorem Movement.frame {db : Db} {as : List (LedgerAccount × Option Wallet)} {id : Uuid}
    (wallets : ∀ a ∈ as, a.2 = db.walletOf a.1.id) (other : id ∉ as.map fun a => a.1.id)
    (distinct : (as.map fun a => a.1.id).Nodup) :
    (db.write (as.flatMap m.accountWrites)).ledgerAccounts.find? id = db.ledgerAccounts.find? id ∧
      (db.write (as.flatMap m.accountWrites)).walletOf id = db.walletOf id := by
  have owned : ∀ w ∈ as.filterMap Prod.snd, w ∈ db.wallets ∧ w.ledgerAccountId ∈ as.map fun a => a.1.id := by
    intro w hw
    obtain ⟨a, ha, owner⟩ := List.mem_filterMap.mp hw
    obtain ⟨mem, link⟩ := Db.walletOf_eq_some ((wallets a ha).symm.trans owner)
    exact ⟨mem, List.mem_map.mpr ⟨a, ha, link.symm⟩⟩
  constructor
  · have table := Slice.ledgerAccounts.table_write db (as.flatMap m.accountWrites)
    rw [written_accounts] at table
    change (Slice.ledgerAccounts.table _).find? id = _
    rw [table, Slice.ledgerAccounts_table, Table.find?_putAll_of_not_mem]
    rw [List.map_map]
    exact other
  · have table := Slice.wallets.table_write db (as.flatMap m.accountWrites)
    rw [written_accountWallets] at table
    have nodup : ((as.filterMap Prod.snd).map key).Nodup := by
      have linked : ∀ a ∈ as, ∀ w, a.2 = some w → w.ledgerAccountId = a.1.id := fun a ha w owner =>
        (Db.walletOf_eq_some ((wallets a ha).symm.trans owner)).2
      refine ((owners_sublist as linked).nodup distinct).of_map.map_on fun w hw x hx same => ?_
      exact Table.eq_of_key_eq (owned w hw).1 (owned x hx).1 same
    have rows := Table.rows_putAll_map db.wallets m.onWallet onWallet_id _ (fun w hw => (owned w hw).1) nodup
    have written : (db.write (as.flatMap m.accountWrites)).wallets.rows = _ := (congrArg Table.rows table).trans rows
    have keeps : ((fun w : Wallet => decide (w.ledgerAccountId = id)) ∘ fun w =>
        if key w ∈ (as.filterMap Prod.snd).map key then m.onWallet w else w) =
        fun w => decide (w.ledgerAccountId = id) := by
      funext w
      simp only [Function.comp_apply]
      split <;> simp
    rw [Db.walletOf, written, List.find?_map, keeps, ← Db.walletOf]
    cases found : db.walletOf id with
    | none => rfl
    | some w =>
        obtain ⟨mem, link⟩ := Db.walletOf_eq_some found
        rw [Option.map_some, if_neg]
        intro among
        obtain ⟨x, hx, same⟩ := List.mem_map.mp among
        obtain rfl := Table.eq_of_key_eq (owned x hx).1 mem same
        exact other (link ▸ (owned x hx).2)

/-- The movement of a posting with this input and these draws. -/
structure Records (draws : Draws) (input : LedgerTransactionInput) (m : Movement) : Prop where
  id : m.opened.id = draws.id .ledgerTransaction
  reference : m.opened.reference = jsTrim input.reference
  currency : m.opened.currency = input.currency
  description : m.opened.description = (input.description.map jsTrim).filter (· ≠ "")
  postings : List.Forall₂ (fun p (row : LedgerPosting) => row.accountId.text = p.accountId ∧
    row.amountMinor = p.amountMinor) input.postings m.postings

/-- Why a posting is refused; it has written nothing then. -/
inductive PostFailure (db : Db) (input : LedgerTransactionInput) : HttpException → Prop
  | invalid {e} : normalizeLedgerTransactionInput input = .error e → PostFailure db input e
  | missing : PostFailure db input (notFound "One or more ledger accounts do not exist")
  | refused {posting e} : posting ∈ input.postings →
      LedgerService.nextBalance (LedgerService.findAccounts (input.postings.map LedgerPostingInput.accountId) db)
        input.currency posting = .error e → PostFailure db input e

theorem PostFailure.congr {db db' : Db} {input : LedgerTransactionInput} {e : HttpException} (h : PostFailure db input e)
    (accounts : db'.ledgerAccounts = db.ledgerAccounts) (wallets : db'.wallets = db.wallets) : PostFailure db' input e := by
  cases h with
  | invalid invalid => exact .invalid invalid
  | missing => exact .missing
  | refused mem refused =>
      refine .refused mem ?_
      simp only [LedgerService.findAccounts, Db.walletOf, accounts, wallets] at refused ⊢
      exact refused

theorem ensures_postWithinTransaction {s : Db} {draws : Draws} {input : LedgerTransactionInput}
    {Q : Except HttpException LedgerService.Posted → View Settings Row Key → Prop} (h : Tracks (fun _ => s) v ws)
    (failed : ∀ v' e, PostFailure (s.write ws) input e → Tracks (fun _ => s) v' ws → Q (.error e) v')
    (done : ∀ v' m postings, Records draws input m → Tracks (fun _ => s) v' (ws ++ m.writes) →
      Q (.ok (m.sealed, postings)) v') :
    (LedgerService.postWithinTransaction draws input).Ensures (fun _ => s) Q v := by
  unfold LedgerService.postWithinTransaction
  refine ensures_bind (ensures_lift (fun e invalid => failed v e (.invalid invalid) h) fun normalized ok => ?_)
  have norm := Normalized.of_ok ok
  refine ensures_bind (ensures_lock h fun v₁ _ _ h₁ => ?_)
  refine ensures_bind (ensures_read h₁ fun v₂ h₂ => ?_)
  set accounts := LedgerService.findAccounts (normalized.postings.map LedgerPostingInput.accountId) (s.write ws)
    with haccounts
  refine ensures_bind (ensures_throwIf (fun _ => failed v₂ _ .missing h₂) fun count => ?_)
  rw [not_not, List.length_map] at count
  refine ensures_bind (ensures_lift (fun e refused => ?_) fun next balances => ?_)
  · obtain ⟨posting, mem, refused⟩ := exists_of_mapM_eq_error refused
    rw [norm.postings] at mem
    rw [haccounts, norm.postings, norm.currency] at refused
    exact failed v₂ e (.refused mem refused) h₂
  refine ensures_bind (ensures_setConfig h₂ fun v₃ h₃ => ?_)
  refine ensures_bind (ensures_create h₃ fun v₄ h₄ => ?_)
  refine ensures_bind (ensures_createMany h₄ fun v₅ rs found h₅ => ?_)
  obtain ⟨rows, posted, same⟩ := bind_eq_ok.mp found
  cases same
  obtain ⟨m, opened, sealedAt, date, postings, there, lookup, records⟩ := LedgerService.exists_movement norm count
    (mapM_eq_ok.mp balances) (mapM_eq_ok.mp posted)
  subst postings
  rw [← haccounts] at there
  rw [← LedgerService.openedTransaction, ← opened, List.map_map] at h₅
  set pre := ws ++ [.insert (.ledgerTransaction m.opened)] ++ m.postings.map (Write.insert ∘ Row.ledgerPosting) with hpre
  have quiet {ρ : Type} [Keyed ρ Uuid] (slice : Slice ρ) (h : ∀ t, slice.of (.ledgerTransaction t) = none)
      (h' : ∀ p, slice.of (.ledgerPosting p) = none) : slice.table (s.write pre) = slice.table (s.write ws) := by
    rw [hpre, Db.write_append, Db.write_append, Slice.table_write _ (s.write ws |>.write _), Slice.table_write _ (s.write ws),
      Slice.written_map]
    simp [h, h']
  have accountsThen : (s.write pre).ledgerAccounts = (s.write ws).ledgerAccounts :=
    quiet .ledgerAccounts (fun _ => rfl) fun _ => rfl
  have walletsThen : (s.write pre).wallets = (s.write ws).wallets :=
    quiet .wallets (fun _ => rfl) fun _ => rfl
  have distinct : (m.accounts.map fun a => a.1.id).Nodup := m.perm.nodup_iff.mpr m.distinct
  have pairs : ∀ a ∈ m.accounts, (s.write pre).ledgerAccounts.find? a.1.id = some a.1 ∧
      a.2 = (s.write pre).walletOf a.1.id := by
    intro a ha
    rw [there] at ha
    obtain ⟨mem, _, owner⟩ := LedgerService.mem_findAccounts.mp ha
    refine ⟨?_, ?_⟩
    · rw [accountsThen]
      exact Table.find?_key mem
    · rw [owner, Db.walletOf, Db.walletOf, walletsThen]
  refine ensures_bind (ensures_each (fun done v => ∃ as rest, m.accounts = as ++ rest ∧ done = as.map Prod.fst ∧
    Tracks (fun _ => s) v (pre ++ as.flatMap m.accountWrites)) _ ?_ ?_ ?_)
  · exact ⟨[], _, rfl, rfl, by simpa using h₅⟩
  · rintro done account rest v split ⟨as, others, parts, rfl, h⟩
    rw [← there, parts, List.map_append, List.append_cancel_left_eq] at split
    cases others with
    | nil => simp at split
    | cons a others =>
        obtain ⟨rfl, rfl⟩ := List.cons_eq_cons.mp split
        have ha : a ∈ m.accounts := by simp [parts]
        have before : ∀ b ∈ as, b ∈ m.accounts := fun b hb => by simp [parts, hb]
        rw [parts, List.map_append, List.nodup_append] at distinct
        have other : a.1.id ∉ as.map fun a => a.1.id := fun mem => distinct.2.2 _ mem a.1.id (by simp) rfl
        obtain ⟨account, wallet⟩ := m.frame (fun b hb => (pairs b (before b hb)).2) other distinct.1
        refine ensures_bind (ensures_orThrow (fun none => ?_) fun balance found => ?_)
        · rw [lookup a ha] at none
          cases none
        · rw [lookup a ha] at found
          cases found
          rw [← date]
          refine ensures_updateLedgerAccount h ha ?_ ?_ fun v' h' => ?_
          · rw [Db.write_append, account]
            exact (pairs a ha).1
          · rw [Db.write_append, wallet]
            exact (pairs a ha).2.symm
          · refine ⟨as ++ [a], others, by simp [parts], by simp, ?_⟩
            simpa using h'
  · rintro v₆ ⟨as, others, parts, all, h₆⟩
    have whole : as = m.accounts := by
      have count := congrArg List.length all
      have count' := congrArg List.length parts
      rw [← there] at count
      simp only [List.length_map, List.length_append] at count count'
      rw [parts, List.eq_nil_of_length_eq_zero (by omega : others.length = 0), List.append_nil]
    subst whole
    refine ensures_bind (ensures_update h₆ (fun db old found => (Table.find?_eq_some.mp found).1) (fun _ => rfl)
      fun v₇ old found h₇ => ?_)
    have transactions : (s.write (pre ++ m.accounts.flatMap m.accountWrites)).ledgerTransactions =
        (s.write ws).ledgerTransactions.put m.opened := by
      have := Slice.ledgerTransactions.table_write (s.write ws) ([.insert (.ledgerTransaction m.opened)] ++
        m.postings.map (Write.insert ∘ Row.ledgerPosting) ++ m.accounts.flatMap m.accountWrites)
      rw [Slice.written_append, Slice.written_append, Slice.written_map,
        Movement.written_otherAccounts (fun _ => rfl) fun _ => rfl] at this
      rw [hpre, List.append_assoc, List.append_assoc, Db.write_append, ← List.append_assoc]
      simpa using this
    have id : m.opened.id = draws.id .ledgerTransaction := by rw [opened]; rfl
    have old_eq : old = m.opened := by
      rw [transactions, ← id] at found
      exact (Option.some.inj ((Table.find?_put_self _ m.opened).symm.trans found)).symm
    subst old_eq
    have sealing : ({ m.opened with sealedAt := some (draws.date .ledgerTransaction) } : LedgerTransaction) = m.sealed := by
      rw [← sealedAt]
      rfl
    rw [sealing] at h₇
    have all : pre ++ m.accounts.flatMap m.accountWrites ++
        [.update (.ledgerTransaction m.opened) (.ledgerTransaction m.sealed)] = ws ++ m.writes := by
      simp [hpre, Movement.writes, Function.comp_def]
    rw [all] at h₇
    refine ensures_query h₇ fun v₈ result found h₈ => ?_
    obtain ⟨t, posted, same⟩ := bind_eq_ok.mp found
    cases same
    have t_eq : t = m.sealed := by
      have table := Slice.ledgerTransactions.table_write (s.write ws) m.writes
      rw [Movement.written_ledgerTransactions, Table.putAll_cons, Table.putAll_cons, Table.putAll_nil] at table
      have there : (s.write (ws ++ m.writes)).ledgerTransactions.find? (draws.id .ledgerTransaction) = some m.sealed := by
        rw [Db.write_append, ← id]
        exact (congrArg (·.find? m.opened.id) table).trans (Table.find?_put_self _ m.sealed)
      rw [there] at posted
      cases posted
      rfl
    subst t_eq
    refine done v₈ m _ ⟨id, ?_, ?_, ?_, records⟩ h₈
    · rw [opened]
      exact norm.reference
    · rw [opened]
      exact norm.currency
    · rw [opened]
      exact norm.description

end Statements

end Fintech
