import Fintech.Model.Constraints

/-!
# Business records and the ledger

Transfers, reversals and succeeded payments each account for one ledger transaction. What it means
that the ledger bears a record out, and what a later database keeps of an earlier one.
-/

namespace Fintech
open Relational

/-- The ledger transaction that a record accounts for. -/
def Row.movement : Row → Option Uuid
  | .transfer r => some r.ledgerTransactionId
  | .transferReversal r => some r.ledgerTransactionId
  | .payment r => if r.status = .succeeded then r.ledgerTransactionId else none
  | _ => none

/-- The sealed transaction moves the amount from one account to another, and nothing else. -/
structure Db.Moves (db : Db) (id : Uuid) (reference : String) (currency : Currency) (debit credit : Uuid)
    (amountMinor : Int) : Prop where
  transaction : ∃ t ∈ db.ledgerTransactions, t.id = id ∧ t.sealedAt.isSome ∧ t.reference = reference ∧
    t.currency = currency
  postings : ((db.postingsOf id).map fun p => (p.accountId, p.amountMinor)).Perm
    [(debit, -amountMinor), (credit, amountMinor)]

/-- The record's ledger transaction moves exactly what the record says. -/
inductive Backed (db : Db) : Row → Prop
  | transfer {r : Transfer} (source destination : Wallet) (completed : r.status = .completed)
      (source_mem : source ∈ db.wallets) (source_id : source.id = r.sourceWalletId)
      (owned : source.userId = r.senderUserId) (destination_mem : destination ∈ db.wallets)
      (destination_id : destination.id = r.destinationWalletId)
      (moves : db.Moves r.ledgerTransactionId r.reference r.currency source.ledgerAccountId
        destination.ledgerAccountId r.amountMinor) : Backed db (.transfer r)
  | reversal {r : TransferReversal} (t : Transfer) (source destination : Wallet) (mem : t ∈ db.transfers)
      (id : t.id = r.transferId) (completed : t.status = .completed) (owned : t.senderUserId = r.actorUserId)
      (currency : t.currency = r.currency) (amount : t.amountMinor = r.amountMinor)
      (source_mem : source ∈ db.wallets) (source_id : source.id = t.sourceWalletId)
      (destination_mem : destination ∈ db.wallets) (destination_id : destination.id = t.destinationWalletId)
      (moves : db.Moves r.ledgerTransactionId r.reference r.currency destination.ledgerAccountId
        source.ledgerAccountId r.amountMinor) : Backed db (.transferReversal r)
  | payment {r : Payment} (id : Uuid) (clearing : LedgerAccount) (wallet : Wallet) (succeeded : r.status = .succeeded)
      (ledger : r.ledgerTransactionId = some id) (clearing_mem : clearing ∈ db.ledgerAccounts)
      (clearing_key : clearing.systemKey = some (clearingKey r.currency)) (wallet_mem : wallet ∈ db.wallets)
      (wallet_id : wallet.id = r.walletId) (owned : wallet.userId = r.userId)
      (moves : db.Moves id r.reference r.currency clearing.id wallet.ledgerAccountId r.amountMinor) :
      Backed db (.payment r)

/-! ## What the records add up to -/

/-- What a wallet shows, if it is there. -/
def Db.balanceOf (db : Db) (walletId : Uuid) : Int := (db.wallets.find? walletId).elim 0 Wallet.currentBalanceMinor

def Db.paidIn (db : Db) (walletId : Uuid) : Int :=
  db.payments.sum fun p => if p.status = .succeeded ∧ p.walletId = walletId then p.amountMinor else 0

def Db.transferredOut (db : Db) (walletId : Uuid) : Int :=
  db.transfers.sum fun t => if t.sourceWalletId = walletId then t.amountMinor else 0

def Db.transferredIn (db : Db) (walletId : Uuid) : Int :=
  db.transfers.sum fun t => if t.destinationWalletId = walletId then t.amountMinor else 0

/-- Reversals of the transfers out of the wallet. -/
def Db.reversedIn (db : Db) (walletId : Uuid) : Int :=
  db.transferReversals.sum fun v =>
    if (db.transfers.find? v.transferId).any fun t => t.sourceWalletId = walletId then v.amountMinor else 0

/-- Reversals of the transfers into the wallet. -/
def Db.reversedOut (db : Db) (walletId : Uuid) : Int :=
  db.transferReversals.sum fun v =>
    if (db.transfers.find? v.transferId).any fun t => t.destinationWalletId = walletId then v.amountMinor else 0

def Db.flow (db : Db) (walletId : Uuid) : Int :=
  db.paidIn walletId - db.transferredOut walletId + db.transferredIn walletId + db.reversedIn walletId -
    db.reversedOut walletId

def LedgerAccount.identity (a : LedgerAccount) : LedgerAccount := { a with balanceMinor := 0 }

def Wallet.identity (w : Wallet) : Uuid × Uuid × Uuid × Currency := (w.id, w.userId, w.ledgerAccountId, w.currency)

theorem Wallet.identity_eq {w x : Wallet} : w.identity = x.identity ↔
    w.id = x.id ∧ w.userId = x.userId ∧ w.ledgerAccountId = x.ledgerAccountId ∧ w.currency = x.currency := by
  simp [identity]

theorem LedgerAccount.identity_eq {a b : LedgerAccount} : a.identity = b.identity ↔
    a.id = b.id ∧ a.kind = b.kind ∧ a.currency = b.currency ∧ a.allowNegative = b.allowNegative ∧
      a.systemKey = b.systemKey := by
  simp [identity]

/-- The request that a payment answers, without its outcome. -/
def Payment.identity (p : Payment) : Payment :=
  { p with status := .pending, ledgerTransactionId := none, completedAt := none }

theorem Payment.identity_eq {p q : Payment} : p.identity = q.identity ↔
    p.id = q.id ∧ p.userId = q.userId ∧ p.walletId = q.walletId ∧ p.provider = q.provider ∧
      p.reference = q.reference ∧ p.idempotencyKey = q.idempotencyKey ∧ p.requestHash = q.requestHash ∧
      p.amountMinor = q.amountMinor ∧ p.currency = q.currency ∧ p.createdAt = q.createdAt := by
  simp [identity]

/-- What a later database keeps of an earlier one. -/
structure Preserves (before after : Db) : Prop where
  transactions : ∀ t ∈ before.ledgerTransactions, t ∈ after.ledgerTransactions
  postings : ∀ t ∈ before.ledgerTransactions, ∀ p : LedgerPosting, p.ledgerTransactionId = t.id →
    (p ∈ after.ledgerPostings ↔ p ∈ before.ledgerPostings)
  accounts : ∀ t ∈ before.ledgerTransactions, ∀ p ∈ before.postingsOf t.id, ∀ a ∈ before.ledgerAccounts,
    a.id = p.accountId → ∃ a' ∈ after.ledgerAccounts, a'.identity = a.identity
  wallets : ∀ w ∈ before.wallets, ∃ w' ∈ after.wallets, w'.identity = w.identity
  transfers : ∀ t ∈ before.transfers, t.status = .completed → t ∈ after.transfers

theorem Db.mem_postingsOf {db : Db} {p : LedgerPosting} {id : Uuid} :
    p ∈ db.postingsOf id ↔ p ∈ db.ledgerPostings ∧ p.ledgerTransactionId = id := by
  simp [Db.postingsOf, Table.mem_def]

theorem Db.postingsOf_nodup (db : Db) (id : Uuid) : (db.postingsOf id).Nodup :=
  db.ledgerPostings.unique.of_map.filter _

section
variable {before after : Db}

theorem Preserves.refl (db : Db) : Preserves db db where
  transactions _ h := h
  postings _ _ _ _ := Iff.rfl
  accounts _ _ _ _ a ha _ := ⟨a, ha, rfl⟩
  wallets w hw := ⟨w, hw, rfl⟩
  transfers _ h _ := h

theorem Preserves.trans {a b c : Db} (h : Preserves a b) (h' : Preserves b c) : Preserves a c where
  transactions t ht := h'.transactions t (h.transactions t ht)
  postings t ht p own := (h'.postings t (h.transactions t ht) p own).trans (h.postings t ht p own)
  accounts := by
    intro t ht p hp a ha on
    obtain ⟨a', ha', same⟩ := h.accounts t ht p hp a ha on
    obtain ⟨hp, own⟩ := Db.mem_postingsOf.mp hp
    obtain ⟨a'', ha'', same'⟩ := h'.accounts t (h.transactions t ht) p
      (Db.mem_postingsOf.mpr ⟨(h.postings t ht p own).mpr hp, own⟩) a' ha'
      ((LedgerAccount.identity_eq.mp same).1.trans on)
    exact ⟨a'', ha'', same'.trans same⟩
  wallets := by
    intro w hw
    obtain ⟨w', hw', same⟩ := h.wallets w hw
    obtain ⟨w'', hw'', same'⟩ := h'.wallets w' hw'
    exact ⟨w'', hw'', same'.trans same⟩
  transfers t ht completed := h'.transfers t (h.transfers t ht completed) completed

/-- The wallets that a record names. -/
def Row.Names (db : Db) (id : Uuid) : Row → Prop
  | .transfer t => id = t.sourceWalletId ∨ id = t.destinationWalletId
  | .transferReversal v =>
      ∃ t ∈ db.transfers, t.status = .completed ∧ t.id = v.transferId ∧ (id = t.sourceWalletId ∨ id = t.destinationWalletId)
  | .payment p => id = p.walletId
  | _ => False

/-- As much as the records that name only these wallets rest on. -/
structure Retains (named : Uuid → Prop) (before after : Db) : Prop where
  transactions : ∀ t ∈ before.ledgerTransactions, t ∈ after.ledgerTransactions
  postings : ∀ t ∈ before.ledgerTransactions, (after.postingsOf t.id).Perm (before.postingsOf t.id)
  accounts : ∀ t ∈ before.ledgerTransactions, ∀ p ∈ before.postingsOf t.id, ∀ a ∈ before.ledgerAccounts,
    a.id = p.accountId → ∃ a' ∈ after.ledgerAccounts, a'.identity = a.identity
  wallets : ∀ w ∈ before.wallets, named w.id → ∃ w' ∈ after.wallets, w'.identity = w.identity
  transfers : ∀ t ∈ before.transfers, t.status = .completed → t ∈ after.transfers

theorem Preserves.retains (h : Preserves before after) (named : Uuid → Prop) : Retains named before after where
  transactions := h.transactions
  postings := by
    intro t ht
    rw [List.perm_ext_iff_of_nodup (after.postingsOf_nodup _) (before.postingsOf_nodup _)]
    intro p
    rw [Db.mem_postingsOf, Db.mem_postingsOf]
    exact and_congr_left fun own => h.postings t ht p own
  accounts := h.accounts
  wallets w hw _ := h.wallets w hw
  transfers := h.transfers

theorem Db.Moves.retained {named : Uuid → Prop} {id : Uuid} {reference : String} {currency : Currency}
    {debit credit : Uuid} {amount : Int} (h : before.Moves id reference currency debit credit amount)
    (keeps : Retains named before after) : after.Moves id reference currency debit credit amount := by
  obtain ⟨⟨t, ht, rfl, rest⟩, postings⟩ := h
  exact ⟨⟨t, keeps.transactions t ht, rfl, rest⟩, ((keeps.postings t ht).map _).trans postings⟩

/-- The accounts of a movement. -/
theorem Db.Moves.posted {db : Db} {id : Uuid} {reference : String} {currency : Currency} {debit credit : Uuid} {amount : Int}
    (h : db.Moves id reference currency debit credit amount) :
    (∃ p ∈ db.postingsOf id, p.accountId = debit) ∧ ∃ p ∈ db.postingsOf id, p.accountId = credit := by
  have find {x : Uuid × Int} (hx : x ∈ [(debit, -amount), (credit, amount)]) : ∃ p ∈ db.postingsOf id, p.accountId = x.1 := by
    obtain ⟨p, hp, rfl⟩ := List.mem_map.mp (h.postings.symm.subset hx)
    exact ⟨p, hp, rfl⟩
  exact ⟨find (x := (debit, -amount)) (by simp), find (x := (credit, amount)) (by simp)⟩

/-- A record that is borne out stays so as long as the wallets that it names are kept. -/
theorem Backed.retained {named : Uuid → Prop} {r : Row} (h : Backed before r) (keeps : Retains named before after)
    (names : ∀ id, r.Names before id → named id) : Backed after r := by
  have wallet {w : Wallet} (hw : w ∈ before.wallets) (name : r.Names before w.id) : ∃ w' ∈ after.wallets,
      w'.id = w.id ∧ w'.userId = w.userId ∧ w'.ledgerAccountId = w.ledgerAccountId := by
    obtain ⟨w', hw', same⟩ := keeps.wallets w hw (names _ name)
    obtain ⟨id, user, account, _⟩ := Wallet.identity_eq.mp same
    exact ⟨w', hw', id, user, account⟩
  cases h with
  | transfer source destination completed source_mem source_id owned destination_mem destination_id moves =>
      obtain ⟨source', mem, id, user, account⟩ := wallet source_mem (.inl source_id)
      obtain ⟨destination', mem', id', _, account'⟩ := wallet destination_mem (.inr destination_id)
      refine .transfer source' destination' completed mem (id.trans source_id) (user.trans owned) mem'
        (id'.trans destination_id) ?_
      rw [account, account']
      exact moves.retained keeps
  | reversal t source destination mem id completed owned currency amount source_mem source_id destination_mem
      destination_id moves =>
      obtain ⟨source', mem', sid, _, account⟩ := wallet source_mem ⟨t, mem, completed, id, .inl source_id⟩
      obtain ⟨destination', mem'', did, _, account'⟩ := wallet destination_mem ⟨t, mem, completed, id, .inr destination_id⟩
      refine .reversal t source' destination' (keeps.transfers t mem completed) id completed owned currency amount mem'
        (sid.trans source_id) mem'' (did.trans destination_id) ?_
      rw [account, account']
      exact moves.retained keeps
  | payment id clearing w succeeded ledger clearing_mem clearing_key wallet_mem wallet_id owned moves =>
      obtain ⟨w', mem, wid, user, account⟩ := wallet wallet_mem wallet_id
      obtain ⟨⟨p, hp, on⟩, _⟩ := moves.posted
      obtain ⟨t, ht, tid, _⟩ := moves.transaction
      obtain ⟨clearing', mem', same⟩ := keeps.accounts t ht p (tid ▸ hp) clearing clearing_mem on.symm
      obtain ⟨cid, _, _, _, ckey⟩ := LedgerAccount.identity_eq.mp same
      refine .payment id clearing' w' succeeded ledger mem' (ckey.trans clearing_key) mem (wid.trans wallet_id)
        (user.trans owned) ?_
      rw [cid, account]
      exact moves.retained keeps

theorem Backed.preserved {r : Row} (h : Backed before r) (keeps : Preserves before after) : Backed after r :=
  h.retained (keeps.retains fun _ => True) fun _ _ => trivial

end

end Fintech
