import Fintech.Proof.Books

/-!
# Why a posting fails

Where every wallet shows the balance of its own account, a posting is refused only for reasons that
its caller is told about.
-/

namespace Fintech
open Relational Transactional

theorem failIf_bind_eq_error {ε α : Type} {c : Prop} [Decidable c] {e e' : ε} {f : Unit → Except ε α} :
    (failIf c e >>= f) = .error e' ↔ c ∧ e = e' ∨ ¬ c ∧ f () = .error e' := by
  unfold failIf
  split <;> simp_all [bind, Except.bind]

theorem failIf_eq_error {ε : Type} {c : Prop} [Decidable c] {e e' : ε} : failIf c e = .error e' ↔ c ∧ e = e' := by
  unfold failIf
  split <;> simp_all

/-- The failures that say that the tables contradict each other. -/
def inconsistencies : List HttpException := [
  internalServerError "Wallet ledger account is not linked to a product wallet",
  internalServerError "Wallet and ledger account currencies are inconsistent",
  internalServerError "Wallet balance snapshot is inconsistent with its ledger account",
  internalServerError "System ledger accounts cannot be linked to product wallets",
  internalServerError "Ledger balance calculation was incomplete",
  internalServerError "Transfer destination was not resolved",
  internalServerError "Failed idempotency record is missing its stored response",
  internalServerError TransfersService.scope.missingResource, conflict TransfersService.scope.stillProcessing,
  internalServerError ReversalsService.scope.missingResource, conflict ReversalsService.scope.stillProcessing]

/-- A failure that the client is told about. -/
structure HttpException.IsClient (e : HttpException) : Prop where
  status : 400 ≤ e.status ∧ e.status < 500
  message : e.message ≠ ""
  consistent : e ∉ inconsistencies

theorem HttpException.isClient_of_mem {e : HttpException} {es : List HttpException} (mem : e ∈ es)
    (all : ∀ e ∈ es, (400 ≤ e.status ∧ e.status < 500) ∧ e.message ≠ "" ∧ e ∉ inconsistencies) : e.IsClient :=
  ⟨(all e mem).1, (all e mem).2.1, (all e mem).2.2⟩

/-- Wallets and the accounts of wallets come in pairs that show one balance in one currency. -/
structure Paired (db : Db) : Prop where
  owned : ∀ w ∈ db.wallets, ∃ a ∈ db.ledgerAccounts, a.id = w.ledgerAccountId ∧ a.kind = .wallet ∧
    w.currency = a.currency ∧ w.currentBalanceMinor = a.balanceMinor
  linked : ∀ a ∈ db.ledgerAccounts, a.kind = .wallet → ∃ w ∈ db.wallets, w.ledgerAccountId = a.id

theorem Books.paired {db : Db} (h : Books db) : Paired db := ⟨h.owned, h.linked⟩

namespace Paired
variable {db : Db}

theorem walletOf_wallet (h : Paired db) {a : LedgerAccount} (ha : a ∈ db.ledgerAccounts) (wallet : a.kind = .wallet) :
    ∃ w, db.walletOf a.id = some w ∧ w.currency = a.currency ∧ w.currentBalanceMinor = a.balanceMinor := by
  obtain ⟨x, hx, link⟩ := h.linked a ha wallet
  cases found : db.walletOf a.id with
  | none => exact absurd link (by simpa using List.find?_eq_none.mp found x hx)
  | some w =>
      obtain ⟨hw, link⟩ := Db.walletOf_eq_some found
      obtain ⟨b, hb, same, _, currency, balance⟩ := h.owned w hw
      obtain rfl := Table.eq_of_key_eq hb ha (same.trans link)
      exact ⟨w, rfl, currency, balance⟩

theorem walletOf_system (h : Paired db) {a : LedgerAccount} (ha : a ∈ db.ledgerAccounts) (system : a.kind = .system) :
    db.walletOf a.id = none := by
  cases found : db.walletOf a.id with
  | none => rfl
  | some w =>
      obtain ⟨hw, link⟩ := Db.walletOf_eq_some found
      obtain ⟨b, hb, same, wallet, _⟩ := h.owned w hw
      obtain rfl := Table.eq_of_key_eq hb ha (same.trans link)
      cases system.symm.trans wallet

end Paired

namespace LedgerService

/-- Why one posting is refused. -/
inductive Refusal (db : Db) (currency : Currency) (posting : LedgerPostingInput) : HttpException → Prop
  | missing : (∀ a ∈ db.ledgerAccounts, a.id.text ≠ posting.accountId) →
      Refusal db currency posting (notFound "One or more ledger accounts do not exist")
  | currency (a : LedgerAccount) (mem : a ∈ db.ledgerAccounts) (named : a.id.text = posting.accountId) :
      a.currency ≠ currency →
      Refusal db currency posting (badRequest "All ledger accounts must use the transaction currency")
  | inactive (a : LedgerAccount) (w : Wallet) (mem : a ∈ db.ledgerAccounts) (named : a.id.text = posting.accountId)
      (wallet_mem : w ∈ db.wallets) (link : w.ledgerAccountId = a.id) : w.status ≠ .active →
      Refusal db currency posting (conflict "Only active wallets can receive ledger postings")
  | range (a : LedgerAccount) (mem : a ∈ db.ledgerAccounts) (named : a.id.text = posting.accountId)
      (same : a.currency = currency) : ¬ isBigInt (a.balanceMinor + posting.amountMinor) →
      Refusal db currency posting (conflict "Ledger posting would exceed the supported BIGINT range")
  | funds (a : LedgerAccount) (mem : a ∈ db.ledgerAccounts) (named : a.id.text = posting.accountId)
      (same : a.currency = currency) : ¬ a.allowNegative → a.balanceMinor + posting.amountMinor < 0 →
      Refusal db currency posting (conflict "Insufficient funds for ledger posting")

variable {db : Db} {currency : Currency} {posting : LedgerPostingInput} {e : HttpException}

theorem refusal_of_nextBalance (paired : Paired db) {ids : List String} (mem : posting.accountId ∈ ids)
    (h : nextBalance (findAccounts ids db) currency posting = .error e) : Refusal db currency posting e := by
  unfold nextBalance at h
  split at h
  · rename_i a wallet found
    obtain ⟨known, _, owner⟩ := mem_findAccounts.mp (List.mem_of_find?_eq_some found)
    have named : a.id.text = posting.accountId := by simpa using List.find?_some found
    dsimp only at known owner
    rcases failIf_bind_eq_error.mp h with ⟨other, rfl⟩ | ⟨same, h⟩
    · exact .currency a known named other
    rw [not_not] at same
    have balance (h : (do
        failIf (¬ isSupportedMinorUnitValue (a.balanceMinor + posting.amountMinor))
          (conflict "Ledger posting would exceed the supported BIGINT range")
        failIf (¬ a.allowNegative ∧ a.balanceMinor + posting.amountMinor < 0)
          (conflict "Insufficient funds for ledger posting")
        return (a.id, a.balanceMinor + posting.amountMinor)) = .error e) : Refusal db currency posting e := by
      rcases failIf_bind_eq_error.mp h with ⟨past, rfl⟩ | ⟨_, h⟩
      · exact .range a known named same past
      rcases failIf_bind_eq_error.mp h with ⟨⟨nonnegative, short⟩, rfl⟩ | ⟨_, h⟩
      · exact .funds a known named same nonnegative short
      · cases h
    cases kind : a.kind with
    | wallet =>
        obtain ⟨w, there, currencies, snapshot⟩ := paired.walletOf_wallet known kind
        rw [owner, there, kind] at h
        rcases failIf_bind_eq_error.mp h with ⟨different, _⟩ | ⟨_, h⟩
        · exact absurd currencies different
        rcases failIf_bind_eq_error.mp h with ⟨different, _⟩ | ⟨_, h⟩
        · exact absurd snapshot different
        rcases failIf_bind_eq_error.mp h with ⟨inactive, rfl⟩ | ⟨_, h⟩
        · obtain ⟨mem, link⟩ := Db.walletOf_eq_some there
          exact .inactive a w known named mem link inactive
        · exact balance h
    | system =>
        rw [owner, paired.walletOf_system known kind, kind] at h
        rcases failIf_bind_eq_error.mp h with ⟨linked, _⟩ | ⟨_, h⟩
        · cases linked
        · exact balance h
  · rename_i absent
    cases h
    refine .missing fun a ha named => ?_
    have there : (a, db.walletOf a.id) ∈ findAccounts ids db :=
      mem_findAccounts.mpr ⟨ha, ⟨posting.accountId, mem, by rw [← named, Uuid.parse?_text]⟩, rfl⟩
    cases none : (findAccounts ids db).find? fun a => decide (a.1.id.text = posting.accountId) with
    | none => exact absurd named (by simpa using List.find?_eq_none.mp none _ there)
    | some found => exact absent found.1 found.2 none

theorem Refusal.isClient (h : Refusal db currency posting e) : e.IsClient := by
  cases h <;> exact HttpException.isClient_of_mem (List.mem_singleton.mpr rfl) (by
    simp [inconsistencies, badRequest, notFound, conflict, internalServerError, TransfersService.scope, ReversalsService.scope])

end LedgerService

/-! ## The input -/

/-- The refusals of an input that are not about the range of an amount. -/
def malformedInputs : List HttpException := [
  badRequest "Ledger posting account IDs must be UUID v4 values",
  badRequest "Ledger postings cannot have a zero amount",
  badRequest "A ledger transaction can post to an account only once",
  badRequest "Ledger reference must be between 1 and 120 characters",
  badRequest "Ledger description cannot exceed 255 characters",
  badRequest "A ledger transaction requires at least two postings",
  badRequest s!"A ledger transaction cannot exceed {maxPostings} postings",
  badRequest "Ledger postings must sum to zero"]

/-- Why an input is not accepted. -/
inductive Invalid (input : LedgerTransactionInput) : HttpException → Prop
  | range (p : LedgerPostingInput) (mem : p ∈ input.postings) : ¬ isBigInt p.amountMinor →
      Invalid input (badRequest "Ledger posting amount exceeds the supported BIGINT range")
  | malformed {e} : e ∈ malformedInputs → Invalid input e

theorem invalid_of_normalizePostings {input : LedgerTransactionInput} {ids : List String} {total : Int}
    {postings : List LedgerPostingInput} {e : HttpException} (sub : postings ⊆ input.postings)
    (h : normalizePostings ids total postings = .error e) : Invalid input e := by
  induction postings generalizing ids total with
  | nil => cases h
  | cons p postings ih =>
      unfold normalizePostings at h
      rcases failIf_bind_eq_error.mp h with ⟨_, rfl⟩ | ⟨_, h⟩
      · exact .malformed (by simp [malformedInputs])
      rcases failIf_bind_eq_error.mp h with ⟨_, rfl⟩ | ⟨_, h⟩
      · exact .malformed (by simp [malformedInputs])
      rcases failIf_bind_eq_error.mp h with ⟨past, rfl⟩ | ⟨_, h⟩
      · exact .range p (sub List.mem_cons_self) past
      rcases failIf_bind_eq_error.mp h with ⟨_, rfl⟩ | ⟨_, h⟩
      · exact .malformed (by simp [malformedInputs])
      · exact ih (fun q hq => sub (List.mem_cons_of_mem p hq)) h

theorem invalid_of_normalize {input : LedgerTransactionInput} {e : HttpException}
    (h : normalizeLedgerTransactionInput input = .error e) : Invalid input e := by
  unfold normalizeLedgerTransactionInput at h
  rcases failIf_bind_eq_error.mp h with ⟨_, rfl⟩ | ⟨_, h⟩
  · exact .malformed (by simp [malformedInputs])
  rcases failIf_bind_eq_error.mp h with ⟨_, rfl⟩ | ⟨_, h⟩
  · exact .malformed (by simp [malformedInputs])
  rcases failIf_bind_eq_error.mp h with ⟨_, rfl⟩ | ⟨_, h⟩
  · exact .malformed (by simp [malformedInputs])
  rcases failIf_bind_eq_error.mp h with ⟨_, rfl⟩ | ⟨_, h⟩
  · exact .malformed (by simp [malformedInputs])
  cases posted : normalizePostings [] 0 input.postings with
  | error e' =>
      rw [posted] at h
      cases h
      exact invalid_of_normalizePostings (List.Subset.refl _) posted
  | ok total =>
      rw [posted] at h
      rcases failIf_bind_eq_error.mp h with ⟨_, rfl⟩ | ⟨_, h⟩
      · exact .malformed (by simp [malformedInputs])
      · cases h

theorem Invalid.isClient {input : LedgerTransactionInput} {e : HttpException} (h : Invalid input e) : e.IsClient := by
  cases h with
  | range p mem past =>
      apply HttpException.isClient_of_mem (List.mem_singleton.mpr rfl)
      simp [inconsistencies, badRequest, conflict, internalServerError, TransfersService.scope, ReversalsService.scope]
  | malformed mem =>
      apply HttpException.isClient_of_mem mem
      simp [malformedInputs, inconsistencies, badRequest, conflict, internalServerError, TransfersService.scope,
        ReversalsService.scope]

/-- Where wallets and accounts are paired, a posting fails with a client error. -/
theorem PostFailure.isClient {db : Db} {input : LedgerTransactionInput} {e : HttpException} (paired : Paired db)
    (h : PostFailure db input e) : e.IsClient := by
  cases h with
  | invalid invalid => exact (invalid_of_normalize invalid).isClient
  | missing =>
      apply HttpException.isClient_of_mem (List.mem_singleton.mpr rfl)
      simp [inconsistencies, notFound, conflict, internalServerError, TransfersService.scope, ReversalsService.scope]
  | refused mem refused =>
      have named := List.mem_map_of_mem (f := LedgerPostingInput.accountId) mem
      exact (LedgerService.refusal_of_nextBalance paired named refused).isClient

end Fintech
