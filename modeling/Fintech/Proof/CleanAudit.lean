import Fintech.Model.Audit
import Fintech.Proof.Books

/-!
# What a clean audit shows

The audit script adds no balances up. In tables that satisfy the foreign keys its checks are enough for
every currency to be conserved.
-/

namespace Fintech.AuditLedger
open Relational DoubleEntry

section
variable {db : Db}

theorem transactions_clean (h : unbalancedOrUnsealedTransactions db = 0) {t : LedgerTransaction}
    (ht : t ∈ db.ledgerTransactions) : ((db.postingsOf t.id).map LedgerPosting.amountMinor).sum = 0 := by
  have passed := List.countP_eq_zero.mp h t ht
  simp only [Bool.or_eq_true, not_or, bne_iff_ne, not_not] at passed
  exact passed.2

theorem accounts_clean (h : accountSnapshotMismatch db = 0) {a : LedgerAccount} (ha : a ∈ db.ledgerAccounts) :
    a.balanceMinor = ((db.ledgerPostings.rows.filter fun p => p.accountId = a.id).map LedgerPosting.amountMinor).sum := by
  have passed := List.countP_eq_zero.mp h a ha
  simpa using passed

theorem wallets_clean (h : walletSnapshotMismatch db = 0) {w : Wallet} (hw : w ∈ db.wallets) {a : LedgerAccount}
    (ha : a ∈ db.ledgerAccounts) (on : a.id = w.ledgerAccountId) :
    w.currentBalanceMinor = a.balanceMinor ∧ 0 ≤ w.currentBalanceMinor := by
  have passed := List.countP_eq_zero.mp h w hw
  rw [Table.find?_eq_some.mpr ⟨ha, on⟩] at passed
  simp only [Option.any_some, Bool.or_eq_true, not_or, bne_iff_ne, not_not, decide_eq_true_eq, not_lt] at passed
  exact ⟨passed.1.1, passed.2⟩

theorem postings_clean (h : postingCurrencyMismatch db = 0) {p : LedgerPosting} (hp : p ∈ db.ledgerPostings)
    {t : LedgerTransaction} (ht : t ∈ db.ledgerTransactions) (own : t.id = p.ledgerTransactionId) {a : LedgerAccount}
    (ha : a ∈ db.ledgerAccounts) (on : a.id = p.accountId) : a.currency = t.currency := by
  have passed := List.countP_eq_zero.mp h p hp
  rw [Table.find?_eq_some.mpr ⟨ha, on⟩, Table.find?_eq_some.mpr ⟨ht, own⟩] at passed
  simpa using passed

end

/-- In any tables that satisfy the foreign keys, a clean audit means that every currency is conserved and that
every wallet shows what its postings add up to. -/
theorem clean_audit_conserves {db : Db} (referenced : ∀ r ∈ db, ∀ k ∈ r.references, db.taken k)
    (transactions : unbalancedOrUnsealedTransactions db = 0) (accounts : accountSnapshotMismatch db = 0)
    (wallets : walletSnapshotMismatch db = 0) (postings : postingCurrencyMismatch db = 0) :
    (∀ currency, ((db.ledgerAccounts.rows.filter fun a => a.currency = currency).map LedgerAccount.balanceMinor).sum = 0) ∧
      ∀ w ∈ db.wallets, 0 ≤ w.currentBalanceMinor ∧ w.currentBalanceMinor =
        ((db.ledgerPostings.rows.filter fun p => p.accountId = w.ledgerAccountId).map LedgerPosting.amountMinor).sum := by
  constructor
  · apply balances_cancel
    · intro p hp
      exact Slice.ledgerAccounts.exists_of_taken (referenced (.ledgerPosting p) hp _ (by simp [Row.references]))
    · intro p hp
      exact Slice.ledgerTransactions.exists_of_taken (referenced (.ledgerPosting p) hp _ (by simp [Row.references]))
    · intro a ha
      rw [accounts_clean accounts ha]
      exact total_eq_sum_filter.symm
    · exact fun t ht => transactions_clean transactions ht
    · exact fun p hp t ht own a ha on => postings_clean postings hp ht own ha on
  · intro w hw
    have account : ∃ a ∈ db.ledgerAccounts, a.id = w.ledgerAccountId :=
      Slice.ledgerAccounts.exists_of_taken (referenced (.wallet w) hw _ (by simp [Row.references]))
    obtain ⟨a, ha, on⟩ := account
    obtain ⟨balance, nonneg⟩ := wallets_clean wallets hw ha on
    refine ⟨nonneg, ?_⟩
    rw [balance, accounts_clean accounts ha, on]

/-! ## Some tables -/

def sampleMovement : LedgerTransaction where
  id := sampleUuid 2 3
  reference := "deposit"
  currency := .usd
  createdAt := 0
  sealedAt := some 0

def sampleOwner : User where
  id := sampleUuid 1 0
  email := "ada@example.com"
  passwordHash := "hash"
  firstName := "Ada"
  lastName := "Obi"
  createdAt := 0
  updatedAt := 0

def sampleAccount : LedgerAccount where
  id := sampleUuid 1 2
  kind := .wallet
  currency := .usd
  balanceMinor := 5000

def sampleWallet : Wallet where
  id := sampleUuid 1 1
  userId := sampleOwner.id
  ledgerAccountId := sampleAccount.id
  currency := .usd
  currentBalanceMinor := 5000
  createdAt := 0
  updatedAt := 0

def samplePosting (n : Nat) (accountId : Uuid) (amountMinor : Int) : LedgerPosting where
  id := sampleUuid 2 n
  ledgerTransactionId := sampleMovement.id
  accountId := accountId
  amountMinor := amountMinor

def sampleTables : Db where
  users := Table.empty.put sampleOwner
  ledgerAccounts := (Table.empty.put (clearingAccount .usd usdClearing.id (-5000))).put sampleAccount
  wallets := Table.empty.put sampleWallet
  ledgerTransactions := Table.empty.put sampleMovement
  ledgerPostings := (Table.empty.put (samplePosting 4 usdClearing.id (-5000))).put (samplePosting 5 sampleAccount.id 5000)

theorem clean_audit_conserves_sample :
    (∀ currency, ((sampleTables.ledgerAccounts.rows.filter fun a => a.currency = currency).map
      LedgerAccount.balanceMinor).sum = 0) ∧
    ∀ w ∈ sampleTables.wallets, 0 ≤ w.currentBalanceMinor ∧ w.currentBalanceMinor =
      ((sampleTables.ledgerPostings.rows.filter fun p => p.accountId = w.ledgerAccountId).map
        LedgerPosting.amountMinor).sum := by
  refine clean_audit_conserves (fun r hr => ?_) (by decide) (by decide) (by decide)
    (by decide)
  have referenced : ∀ r ∈ sampleTables.rows, ∀ k ∈ r.references, sampleTables.taken k := by decide
  exact referenced r (Db.mem_rows.mpr hr)

end Fintech.AuditLedger
