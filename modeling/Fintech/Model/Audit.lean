import Fintech.Model.Constraints

/-!
# The ledger audit

The checks of `scripts/audit-ledger.mjs`, each the number of its failures.
-/

namespace Fintech.AuditLedger
open Relational

def unbalancedOrUnsealedTransactions (db : Db) : Nat :=
  db.ledgerTransactions.rows.countP fun t =>
    t.sealedAt.isNone || (db.postingsOf t.id).length < 2 ||
      ((db.postingsOf t.id).map LedgerPosting.amountMinor).sum != 0

def accountSnapshotMismatch (db : Db) : Nat :=
  db.ledgerAccounts.rows.countP fun a =>
    a.balanceMinor != ((db.ledgerPostings.rows.filter fun p => p.accountId = a.id).map LedgerPosting.amountMinor).sum

def walletSnapshotMismatch (db : Db) : Nat :=
  db.wallets.rows.countP fun w => (db.ledgerAccounts.find? w.ledgerAccountId).any fun a =>
    w.currentBalanceMinor != a.balanceMinor || w.currency != a.currency || w.currentBalanceMinor < 0

def postingCurrencyMismatch (db : Db) : Nat :=
  db.ledgerPostings.rows.countP fun p => (db.ledgerAccounts.find? p.accountId).any fun a =>
    (db.ledgerTransactions.find? p.ledgerTransactionId).any fun t => a.currency != t.currency

def successfulPaymentMissingLedger (db : Db) : Nat :=
  db.payments.rows.countP fun p => p.status == .succeeded &&
    (p.ledgerTransactionId.bind db.ledgerTransactions.find?).all fun t =>
      t.sealedAt.isNone || t.reference != p.reference

end Fintech.AuditLedger
