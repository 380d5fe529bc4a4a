import Fintech.Proof.LedgerHistory

/-!
# Without the write context

A transaction that never switches a write setting on leaves the tables behind that setting as they are.
-/

namespace Fintech
open Relational Transactional

structure LedgerUntouched (before after : Db) : Prop where
  accounts : ∀ a ∈ before.ledgerAccounts, a ∈ after.ledgerAccounts
  newAccounts : ∀ a ∈ after.ledgerAccounts, a ∈ before.ledgerAccounts ∨ a.balanceMinor = 0
  wallets : ∀ w ∈ before.wallets, ∃ w' ∈ after.wallets,
    w'.link = w.link ∧ w'.currentBalanceMinor = w.currentBalanceMinor
  newWallets : ∀ w' ∈ after.wallets,
    (∃ w ∈ before.wallets, w'.link = w.link ∧ w'.currentBalanceMinor = w.currentBalanceMinor) ∨ w'.currentBalanceMinor = 0
  transactions : ∀ t, t ∈ after.ledgerTransactions ↔ t ∈ before.ledgerTransactions
  postings : ∀ p, p ∈ after.ledgerPostings ↔ p ∈ before.ledgerPostings

/-! ## Tables that only change under a setting -/

section
variable {ρ : Type} [Keyed ρ Uuid]

structure Slice.Guarded (slice : Slice ρ) (setting : WriteSetting) : Prop where
  insert : ∀ db s x, setting.of s = false → beforeInsert db s (slice.row x) ≠ .ok ()
  update : ∀ s old new, setting.of s = false → beforeUpdate s (slice.row old) (slice.row new) ≠ .ok ()
  delete : ∀ x, beforeDelete (slice.row x) ≠ .ok ()

variable {allowed : WriteSetting → Bool → Prop} {start now : Db × Settings}

theorem Slice.Guarded.unchanged {slice : Slice ρ} {setting : WriteSetting} (h : slice.Guarded setting)
    (touches : Touches allowed start now) (never : ¬ allowed setting true) (off : setting.of start.2 = false) (x : ρ) :
    x ∈ slice.table now.1 ↔ x ∈ slice.table start.1 := by
  constructor
  · revert x
    apply touches.everyRow slice (R := fun _ x => x ∈ slice.table start.1)
    · exact fun _ _ _ _ mem => mem
    · exact fun db s x before insertion => absurd insertion.before (h.insert db s x (before.off never off))
    · exact fun _ s old new before revision => absurd revision.before (h.update s old new (before.off never off))
    · exact fun _ mem => mem
  · intro hx
    obtain ⟨_, mem, rfl⟩ := touches.keptRow slice (P := (· = x)) (fun y _ => h.delete y)
      (fun _ s old new before revision _ => absurd revision.before (h.update s old new (before.off never off))) ⟨x, hx, rfl⟩
    exact mem

/-- A check that fails comes first. -/
theorem raiseIf_bind_ne_ok {c : Prop} [Decidable c] {message : String} {f : Unit → Except DbError Unit} (h : c) :
    (raiseIf c message >>= f) ≠ .ok () := by
  intro ok
  have := (bind_unit_eq_ok.mp ok).1
  rw [failIf_eq_ok] at this
  exact this h

theorem guarded_ledgerTransactions : Slice.ledgerTransactions.Guarded .ledger where
  insert _ _ _ off := raiseIf_bind_ne_ok (ne_true_of_eq_false off)
  update _ _ _ off := raiseIf_bind_ne_ok (ne_true_of_eq_false off)
  delete _ := nofun

theorem guarded_ledgerPostings : Slice.ledgerPostings.Guarded .ledger where
  insert _ _ _ off := raiseIf_bind_ne_ok (ne_true_of_eq_false off)
  update _ _ _ _ := nofun
  delete _ := nofun

theorem guarded_transfers : Slice.transfers.Guarded .transfer where
  insert _ _ _ off := fun ok => failIf_eq_ok.mp ok (ne_true_of_eq_false off)
  update _ _ _ off := raiseIf_bind_ne_ok (ne_true_of_eq_false off)
  delete _ := nofun

theorem guarded_transferReversals : Slice.transferReversals.Guarded .reversal where
  insert _ _ _ off := fun ok => failIf_eq_ok.mp ok (ne_true_of_eq_false off)
  update _ _ _ _ := nofun
  delete _ := nofun

theorem guarded_auditLogs : Slice.auditLogs.Guarded .audit where
  insert _ _ _ off := fun ok => failIf_eq_ok.mp ok (ne_true_of_eq_false off)
  update _ _ _ _ := nofun
  delete _ := nofun

theorem guarded_payments : Slice.payments.Guarded .payment where
  insert _ _ _ off := raiseIf_bind_ne_ok (ne_true_of_eq_false off)
  update _ _ _ off := raiseIf_bind_ne_ok (ne_true_of_eq_false off)
  delete _ := nofun

theorem guarded_providerEvents : Slice.providerEvents.Guarded .payment where
  insert _ _ _ off := fun ok => failIf_eq_ok.mp ok (ne_true_of_eq_false off)
  update _ _ _ _ := nofun
  delete _ := nofun

end

/-! ## Balances -/

section
variable {allowed : WriteSetting → Bool → Prop} {start now : Db × Settings}

theorem Touches.ledger_off (h : Touches allowed start now) (never : ¬ allowed .ledger true)
    (off : start.2.ledgerWrite = false) : now.2.ledgerWrite = false := by
  have still : WriteSetting.ledger.of now.2 = false := h.off never off
  exact still

theorem Touches.accounts_untouched (h : Touches allowed start now) (never : ¬ allowed .ledger true)
    (off : start.2.ledgerWrite = false) :
    (∀ a ∈ start.1.ledgerAccounts, a ∈ now.1.ledgerAccounts) ∧
      ∀ a ∈ now.1.ledgerAccounts, a ∈ start.1.ledgerAccounts ∨ a.balanceMinor = 0 := by
  have same (db : Db) (s : Settings) (old new : LedgerAccount) (before : Touches allowed start (db, s))
      (revision : Revision db s (.ledgerAccount old) (.ledgerAccount new)) : new = old :=
    (protectLedgerAccountIdentity_eq_ok revision.before).2 (before.ledger_off never off)
  constructor
  · intro a ha
    obtain ⟨_, mem, rfl⟩ := h.keptRow Slice.ledgerAccounts (P := (· = a)) (fun _ _ => nofun)
      (fun db s old new before revision e => (same db s old new before revision).trans e) ⟨a, ha, rfl⟩
    exact mem
  · apply h.everyRow Slice.ledgerAccounts (R := fun _ a => a ∈ start.1.ledgerAccounts ∨ a.balanceMinor = 0)
    · exact fun _ _ _ _ holds => holds
    · intro db s a _ insertion
      have zero := failIf_eq_ok.mp insertion.before
      exact .inr (not_not.mp zero)
    · intro db s old new before revision holds
      rw [same db s old new before revision]
      exact holds
    · exact fun a ha => .inl ha

theorem Touches.wallets_untouched (h : Touches allowed start now) (never : ¬ allowed .ledger true)
    (off : start.2.ledgerWrite = false) (committed : start.1.Committed) :
    (∀ w ∈ start.1.wallets, ∃ w' ∈ now.1.wallets, w'.link = w.link ∧ w'.currentBalanceMinor = w.currentBalanceMinor) ∧
      ∀ w' ∈ now.1.wallets, (∃ w ∈ start.1.wallets, w'.link = w.link ∧ w'.currentBalanceMinor = w.currentBalanceMinor) ∨
        w'.currentBalanceMinor = 0 := by
  have same (db : Db) (s : Settings) (old new : Wallet) (before : Touches allowed start (db, s))
      (revision : Revision db s (.wallet old) (.wallet new)) :
      new.link = old.link ∧ new.currentBalanceMinor = old.currentBalanceMinor := by
    obtain ⟨link, balance⟩ := protectWallet_eq_ok revision.before
    exact ⟨link, balance (before.ledger_off never off)⟩
  constructor
  · intro w hw
    apply h.keptRow Slice.wallets (P := fun w' => w'.link = w.link ∧ w'.currentBalanceMinor = w.currentBalanceMinor)
    · exact fun _ _ => nofun
    · rintro db s old new before revision ⟨link, balance⟩
      obtain ⟨link', balance'⟩ := same db s old new before revision
      exact ⟨link'.trans link, balance'.trans balance⟩
    · exact ⟨w, hw, rfl, rfl⟩
  · apply h.everyRow Slice.wallets (R := fun _ w' =>
      (∃ w ∈ start.1.wallets, w'.link = w.link ∧ w'.currentBalanceMinor = w.currentBalanceMinor) ∨ w'.currentBalanceMinor = 0)
    · exact fun _ _ _ _ holds => holds
    · intro db s w before insertion
      obtain ⟨account, balance⟩ := bind_unit_eq_ok.mp insertion.before
      rw [failIf_eq_ok, not_not, Option.any_eq_true] at account
      obtain ⟨a, found, fits⟩ := account
      rw [failIf_eq_ok, found] at balance
      have equal : w.currentBalanceMinor = a.balanceMinor := by simpa using balance
      obtain ⟨ha, on⟩ := Table.find?_eq_some.mp found
      rcases (before.accounts_untouched never off).2 a ha with old | zero
      · -- the account has its wallet already
        obtain ⟨w₀, hw₀, link₀⟩ := committed.linked a old (of_decide_eq_true fits).1
        obtain ⟨w₁, hw₁, link⟩ := before.wallet hw₀
        have taken := Db.not_taken_iff.mp (insertion.fresh (.walletAccount w.ledgerAccountId) (by simp [Row.keys, Row.slots]))
          (.wallet w₁) hw₁
        refine absurd ?_ taken
        have account : w₁.ledgerAccountId = w.ledgerAccountId :=
          (Wallet.link_eq.mp link).2.1.trans (link₀.trans on)
        simp [Row.keys, Row.slots, account]
      · exact .inr (equal.trans zero)
    · intro db s old new before revision holds
      obtain ⟨link, balance⟩ := same db s old new before revision
      rw [link, balance]
      exact holds
    · exact fun w hw => .inl ⟨w, hw, rfl, rfl⟩

end

/-- What a transaction may change depends on the settings that it switches on. -/
theorem unchanged_without_context {initial before after : Db} {sts : List RowStatement} (opening : Opening initial)
    (h : initial.Leads before) (done : before.transact sts = .ok after) :
    (.setConfig .ledger true ∉ sts → LedgerUntouched before after) ∧
      (.setConfig .transfer true ∉ sts → ∀ t, t ∈ after.transfers ↔ t ∈ before.transfers) ∧
      (.setConfig .reversal true ∉ sts → ∀ v, v ∈ after.transferReversals ↔ v ∈ before.transferReversals) ∧
      (.setConfig .audit true ∉ sts → ∀ l, l ∈ after.auditLogs ↔ l ∈ before.auditLogs) ∧
      (.setConfig .payment true ∉ sts → (∀ p, p ∈ after.payments ↔ p ∈ before.payments) ∧
        ∀ e, e ∈ after.providerEvents ↔ e ∈ before.providerEvents) := by
  have committed := (h.committed opening.committed).1
  obtain ⟨s, touches, _⟩ := transact_touches (fun setting on => .setConfig setting on ∈ sts)
    (fun _ _ mem => mem) done
  refine ⟨fun never => ?_, fun never => ?_, fun never => ?_, fun never => ?_, fun never => ⟨?_, ?_⟩⟩
  · obtain ⟨accounts, newAccounts⟩ := touches.accounts_untouched never rfl
    obtain ⟨wallets, newWallets⟩ := touches.wallets_untouched never rfl committed
    exact ⟨accounts, newAccounts, wallets, newWallets, guarded_ledgerTransactions.unchanged touches never rfl,
      guarded_ledgerPostings.unchanged touches never rfl⟩
  · exact guarded_transfers.unchanged touches never rfl
  · exact guarded_transferReversals.unchanged touches never rfl
  · exact guarded_auditLogs.unchanged touches never rfl
  · exact guarded_payments.unchanged touches never rfl
  · exact guarded_providerEvents.unchanged touches never rfl

theorem unchanged_without_context_sample : sampleWalletOpened.wallets.rows.map Wallet.currentBalanceMinor = [0] ∧
    LedgerUntouched migrated sampleWalletOpened ∧ ∀ t, t ∈ sampleWalletOpened.transfers ↔ t ∈ migrated.transfers := by
  have done : migrated.transact (sampleOpened 1 "ada@example.com") = .ok sampleWalletOpened :=
    eq_ok_getD (by decide) migrated
  have kept := unchanged_without_context migrated_opening .refl done
  exact ⟨by decide, kept.1 (by simp [sampleOpened, RowStatement.plain]),
    kept.2.1 (by simp [sampleOpened, RowStatement.plain])⟩

end Fintech
