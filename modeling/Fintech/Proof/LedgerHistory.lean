import Fintech.Proof.Books
import Fintech.Proof.Touches

/-!
# The ledger's history at the database

Whatever statements a transaction is made of, what it commits is a well-formed ledger, and what was
committed before is still there.
-/

namespace Fintech
open Relational Transactional

/-- Owner, ledger account and currency. -/
def Wallet.link (w : Wallet) : Uuid × Uuid × Currency := (w.userId, w.ledgerAccountId, w.currency)

theorem Wallet.link_eq {w x : Wallet} : w.link = x.link ↔
    w.userId = x.userId ∧ w.ledgerAccountId = x.ledgerAccountId ∧ w.currency = x.currency := by
  simp [link]

structure LedgerWellFormed (db : Db) : Prop where
  transactions : ∀ t ∈ db.ledgerTransactions, t.sealedAt.isSome ∧ 2 ≤ (db.postingsOf t.id).length ∧
    ((db.postingsOf t.id).map LedgerPosting.amountMinor).sum = 0 ∧
    ∀ p ∈ db.postingsOf t.id, p.amountMinor ≠ 0 ∧
      ∃ a ∈ db.ledgerAccounts, a.id = p.accountId ∧ a.currency = t.currency
  walletAccounts : ∀ a ∈ db.ledgerAccounts, a.kind = .wallet →
    ∃ w ∈ db.wallets, (∀ x ∈ db.wallets, x.ledgerAccountId = a.id ↔ x = w) ∧ w.currency = a.currency
  systemAccounts : ∀ a ∈ db.ledgerAccounts, a.kind = .system → ∀ w ∈ db.wallets, w.ledgerAccountId ≠ a.id

/-- A wallet may get another id as long as nothing refers to it; it is known by its ledger account. -/
structure LedgerKept (before after : Db) : Prop where
  transactions : ∀ t ∈ before.ledgerTransactions, t ∈ after.ledgerTransactions
  postings : ∀ p ∈ before.ledgerPostings, p ∈ after.ledgerPostings
  complete : ∀ t ∈ before.ledgerTransactions, ∀ p ∈ after.ledgerPostings, p.ledgerTransactionId = t.id →
    p ∈ before.ledgerPostings
  accounts : ∀ a ∈ before.ledgerAccounts, ∃ a' ∈ after.ledgerAccounts, a'.identity = a.identity
  wallets : ∀ w ∈ before.wallets, ∃ w' ∈ after.wallets, w'.link = w.link

theorem LedgerKept.refl (db : Db) : LedgerKept db db where
  transactions _ h := h
  postings _ h := h
  complete _ _ _ h _ := h
  accounts a ha := ⟨a, ha, rfl⟩
  wallets w hw := ⟨w, hw, rfl⟩

theorem LedgerKept.trans {a b c : Db} (h : LedgerKept a b) (h' : LedgerKept b c) : LedgerKept a c where
  transactions t ht := h'.transactions t (h.transactions t ht)
  postings p hp := h'.postings p (h.postings p hp)
  complete t ht p hp own := h.complete t ht p (h'.complete t (h.transactions t ht) p hp own) own
  accounts := by
    intro x hx
    obtain ⟨y, hy, same⟩ := h.accounts x hx
    obtain ⟨z, hz, same'⟩ := h'.accounts y hy
    exact ⟨z, hz, same'.trans same⟩
  wallets := by
    intro x hx
    obtain ⟨y, hy, same⟩ := h.wallets x hx
    obtain ⟨z, hz, same'⟩ := h'.wallets y hy
    exact ⟨z, hz, same'.trans same⟩

/-! ## Within a transaction -/

section
variable {allowed : WriteSetting → Bool → Prop} {start now : Db × Settings}

/-- An account keeps its identity, and with the write path off its balance. -/
theorem protectLedgerAccountIdentity_eq_ok {s : Settings} {old new : LedgerAccount}
    (h : protectLedgerAccountIdentity s old new = .ok ()) :
    new.identity = old.identity ∧ (s.ledgerWrite = false → new = old) := by
  obtain ⟨identity, balance⟩ := bind_unit_eq_ok.mp h
  rw [failIf_eq_ok, not_not] at identity
  rw [failIf_eq_ok] at balance
  constructor
  · rw [identity]
    rfl
  · intro off
    have same : new.balanceMinor = old.balanceMinor := by simpa [off] using balance
    rw [identity, same]

theorem protectWallet_eq_ok {s : Settings} {old new : Wallet} (h : protectWallet s old new = .ok ()) :
    new.link = old.link ∧ (s.ledgerWrite = false → new.currentBalanceMinor = old.currentBalanceMinor) := by
  obtain ⟨balance, link⟩ := bind_unit_eq_ok.mp h
  rw [failIf_eq_ok] at balance link
  push Not at link
  exact ⟨Wallet.link_eq.mpr link, fun off => by simpa [off] using balance⟩

theorem Touches.account (h : Touches allowed start now) {a : LedgerAccount} (ha : a ∈ start.1.ledgerAccounts) :
    ∃ a' ∈ now.1.ledgerAccounts, a'.identity = a.identity := by
  refine h.keptRow Slice.ledgerAccounts (P := fun a' => a'.identity = a.identity) (fun _ _ => nofun)
    (fun _ _ _ _ _ revision same => ?_) ⟨a, ha, rfl⟩
  exact (protectLedgerAccountIdentity_eq_ok revision.before).1.trans same

theorem Touches.wallet (h : Touches allowed start now) {w : Wallet} (hw : w ∈ start.1.wallets) :
    ∃ w' ∈ now.1.wallets, w'.link = w.link := by
  refine h.keptRow Slice.wallets (P := fun w' => w'.link = w.link) (fun _ _ => nofun)
    (fun _ _ _ _ _ revision same => ?_) ⟨w, hw, rfl⟩
  exact (protectWallet_eq_ok revision.before).1.trans same

theorem Touches.sealedTransaction (h : Touches allowed start now) {t : LedgerTransaction}
    (ht : t ∈ start.1.ledgerTransactions) (isSealed : t.sealedAt.isSome) : t ∈ now.1.ledgerTransactions :=
  h.fixed (r := .ledgerTransaction t) ht (Row.fixed_of_sealed isSealed) nofun

/-- No posting joins a transaction that was sealed at the start. -/
theorem Touches.postings_complete (h : Touches allowed start now)
    (isSealed : ∀ t ∈ start.1.ledgerTransactions, t.sealedAt.isSome) {t : LedgerTransaction}
    (ht : t ∈ start.1.ledgerTransactions) {p : LedgerPosting} (hp : p ∈ now.1.ledgerPostings)
    (own : p.ledgerTransactionId = t.id) : p ∈ start.1.ledgerPostings := by
  refine h.everyRow Slice.ledgerPostings
    (R := fun _ p => p.ledgerTransactionId = t.id → p ∈ start.1.ledgerPostings) (fun _ _ _ _ h => h)
    (fun db s p before insertion own => ?_) (fun _ _ _ _ _ revision => nomatch revision.before) (fun p hp _ => hp) p hp own
  have found : db.ledgerTransactions.find? t.id = some t :=
    Table.find?_key (before.sealedTransaction ht (isSealed t ht))
  obtain ⟨_, unsealed⟩ := bind_unit_eq_ok.mp insertion.before
  rw [failIf_eq_ok, own, found] at unsealed
  exact absurd (isSealed t ht) (by simpa using unsealed)

/-- Accounts stay, so what a posting is on does. -/
theorem Touches.posted (h : Touches allowed start now)
    (initially : ∀ p ∈ start.1.ledgerPostings, ∃ a ∈ start.1.ledgerAccounts, a.id = p.accountId) :
    ∀ p ∈ now.1.ledgerPostings, ∃ a ∈ now.1.ledgerAccounts, a.id = p.accountId := by
  have lasts (c c' : Db × Settings) (p : LedgerPosting) (touch : Touch allowed c c')
      (there : ∃ a ∈ c.1.ledgerAccounts, a.id = p.accountId) : ∃ a ∈ c'.1.ledgerAccounts, a.id = p.accountId := by
    obtain ⟨a, ha, on⟩ := there
    obtain ⟨a', ha', same⟩ := Touches.account (.single touch) ha
    exact ⟨a', ha', (LedgerAccount.identity_eq.mp same).1.trans on⟩
  refine h.everyRow Slice.ledgerPostings (R := fun c p => ∃ a ∈ c.1.ledgerAccounts, a.id = p.accountId) lasts
    (fun db s p _ insertion => lasts (db, s) _ p (.insert insertion) ?_)
    (fun _ _ _ _ _ revision => nomatch revision.before) initially
  exact Slice.ledgerAccounts.exists_of_taken (insertion.referenced _ (by simp [Row.references]))

def Db.Owned (db : Db) (w : Wallet) : Prop :=
  ∃ a ∈ db.ledgerAccounts, a.id = w.ledgerAccountId ∧ a.kind = .wallet ∧ a.currency = w.currency

theorem Touches.owned (h : Touches allowed start now) (initially : ∀ w ∈ start.1.wallets, start.1.Owned w) :
    ∀ w ∈ now.1.wallets, now.1.Owned w := by
  have lasts (c c' : Db × Settings) (w : Wallet) (touch : Touch allowed c c') (there : c.1.Owned w) : c'.1.Owned w := by
    obtain ⟨a, ha, on, kind, currency⟩ := there
    obtain ⟨a', ha', same⟩ := Touches.account (.single touch) ha
    obtain ⟨id, kind', currency', _⟩ := LedgerAccount.identity_eq.mp same
    exact ⟨a', ha', id.trans on, kind'.trans kind, currency'.trans currency⟩
  refine h.everyRow Slice.wallets (R := fun c w => c.1.Owned w) lasts
    (fun db s w _ insertion => lasts (db, s) _ w (.insert insertion) ?_)
    (fun db s old new _ revision there => lasts (db, s) _ new (.update revision) ?_) initially
  · obtain ⟨account, _⟩ := bind_unit_eq_ok.mp insertion.before
    rw [failIf_eq_ok, not_not, Option.any_eq_true] at account
    obtain ⟨a, found, fits⟩ := account
    obtain ⟨ha, id⟩ := Table.find?_eq_some.mp found
    obtain ⟨kind, currency⟩ := of_decide_eq_true fits
    exact ⟨a, ha, id, kind, currency⟩
  · obtain ⟨a, ha, on, kind, currency⟩ := there
    obtain ⟨_, account, same⟩ := Wallet.link_eq.mp (protectWallet_eq_ok revision.before).1
    exact ⟨a, ha, on.trans account.symm, kind, currency.trans same.symm⟩

/-- An account is one of the start, or its pair is due. -/
theorem Touches.accounts_due (h : Touches allowed start now) : ∀ a ∈ now.1.ledgerAccounts,
    ∃ a₀, a₀.identity = a.identity ∧ (a₀ ∈ start.1.ledgerAccounts ∨ Row.ledgerAccount a₀ ∈ now.2.deferred) := by
  refine h.everyRow Slice.ledgerAccounts (R := fun c a => ∃ a₀, a₀.identity = a.identity ∧
      (a₀ ∈ start.1.ledgerAccounts ∨ Row.ledgerAccount a₀ ∈ c.2.deferred)) (fun c c' a touch => ?_)
    (fun _ _ a _ _ => ⟨a, rfl, .inr (by simp)⟩) (fun db s old new _ revision => ?_) (fun a ha => ⟨a, rfl, .inl ha⟩)
  · rintro ⟨a₀, same, there⟩
    exact ⟨a₀, same, there.imp_right touch.deferred⟩
  · rintro ⟨a₀, same, there⟩
    refine ⟨a₀, same.trans (protectLedgerAccountIdentity_eq_ok revision.before).1.symm, there.imp_right ?_⟩
    exact (show Touch allowed _ _ from .update revision).deferred

end

/-! ## Committed states -/

/-- What every commit leaves. -/
structure Db.Committed (db : Db) : Prop where
  distinct : db.Distinct
  checked : ∀ r ∈ db, r.accept = .ok ()
  posted : ∀ p ∈ db.ledgerPostings, ∃ a ∈ db.ledgerAccounts, a.id = p.accountId
  owned : ∀ w ∈ db.wallets, db.Owned w
  linked : ∀ a ∈ db.ledgerAccounts, a.kind = .wallet → ∃ w ∈ db.wallets, w.ledgerAccountId = a.id
  isSealed : ∀ t ∈ db.ledgerTransactions, t.sealedAt.isSome
  two_le : ∀ t ∈ db.ledgerTransactions, 2 ≤ (db.postingsOf t.id).length
  balanced : ∀ t ∈ db.ledgerTransactions, ((db.postingsOf t.id).map LedgerPosting.amountMinor).sum = 0
  currency : ∀ t ∈ db.ledgerTransactions, ∀ p ∈ db.postingsOf t.id, ∀ a ∈ db.ledgerAccounts, a.id = p.accountId →
    a.currency = t.currency

theorem Opening.committed {db : Db} (h : Opening db) : db.Committed where
  distinct := h.sound.unique
  checked := h.sound.checked
  posted _ hp := h.sound.account_of hp
  owned := by
    intro w hw
    obtain ⟨a, ha, on, kind, currency, _⟩ := h.books.owned w hw
    exact ⟨a, ha, on, kind, currency.symm⟩
  linked := h.books.linked
  isSealed := h.books.isSealed
  two_le := h.books.two_le
  balanced := h.books.balanced
  currency := by
    intro t ht p hp a ha on
    obtain ⟨hp, own⟩ := Db.mem_postingsOf.mp hp
    exact h.books.currency p hp t ht own.symm a ha on

namespace Db.Committed
variable {before after : Db}

theorem wellFormed (h : before.Committed) : LedgerWellFormed before where
  transactions := by
    intro t ht
    refine ⟨h.isSealed t ht, h.two_le t ht, h.balanced t ht, fun p hp => ?_⟩
    have mem := (Db.mem_postingsOf.mp hp).1
    obtain ⟨a, ha, on⟩ := h.posted p mem
    have nonzero := (Row.accept_eq_ok.mp (h.checked (.ledgerPosting p) mem)).2
      ("LedgerPosting_nonzero_amount_check", p.amountMinor != 0) (by simp [Row.checks])
    exact ⟨by simpa using nonzero, a, ha, on, h.currency t ht p hp a ha on⟩
  walletAccounts := by
    intro a ha wallet
    obtain ⟨w, hw, link⟩ := h.linked a ha wallet
    obtain ⟨b, hb, on, _, currency⟩ := h.owned w hw
    obtain rfl := Table.eq_of_key_eq ha hb (link.symm.trans on.symm)
    refine ⟨w, hw, fun x hx => ⟨fun same => ?_, fun e => e ▸ link⟩, currency.symm⟩
    have slot : Row.wallet x = Row.wallet w :=
      h.distinct _ hx _ hw (.walletAccount a.id) (by simp [Row.keys, Row.slots, same]) (by simp [Row.keys, Row.slots, link])
    simpa using slot
  systemAccounts := by
    intro a ha system w hw link
    obtain ⟨b, hb, on, wallet, _⟩ := h.owned w hw
    obtain rfl := Table.eq_of_key_eq ha hb (link.symm.trans on.symm)
    cases system.symm.trans wallet

/-! ## A transaction -/

theorem kept {allowed : WriteSetting → Bool → Prop} {s s' : Settings} (h : before.Committed)
    (touches : Touches allowed (before, s) (after, s')) : LedgerKept before after where
  transactions t ht := touches.sealedTransaction ht (h.isSealed t ht)
  postings p hp := touches.fixed (r := .ledgerPosting p) hp (Row.fixed_of_isHistory rfl) nofun
  complete _ ht _ hp own := touches.postings_complete h.isSealed ht hp own
  accounts _ ha := touches.account ha
  wallets _ hw := touches.wallet hw

end Db.Committed

/-- The postings of a transaction stay as they are. -/
theorem LedgerKept.postingsOf_perm {before after : Db} (h : LedgerKept before after) {t : LedgerTransaction}
    (ht : t ∈ before.ledgerTransactions) : (after.postingsOf t.id).Perm (before.postingsOf t.id) := by
  rw [List.perm_ext_iff_of_nodup (after.postingsOf_nodup _) (before.postingsOf_nodup _)]
  intro p
  rw [Db.mem_postingsOf, Db.mem_postingsOf]
  exact and_congr_left fun own => ⟨fun hp => h.complete t ht p hp own, fun hp => h.postings p hp⟩

/-- What the constraint trigger of a ledger transaction accepts. -/
theorem validateLedgerTransactionAtCommit_eq_ok {db : Db} {t : LedgerTransaction} (ht : t ∈ db.ledgerTransactions)
    (posted : ∀ p ∈ db.ledgerPostings, ∃ a ∈ db.ledgerAccounts, a.id = p.accountId)
    (h : validateLedgerTransactionAtCommit db t = .ok ()) :
    t.sealedAt.isSome ∧ 2 ≤ (db.postingsOf t.id).length ∧
      ((db.postingsOf t.id).map LedgerPosting.amountMinor).sum = 0 ∧
      ∀ p ∈ db.postingsOf t.id, ∀ a ∈ db.ledgerAccounts, a.id = p.accountId → a.currency = t.currency := by
  have all : (db.postingsOf t.id).filter (fun p => (db.ledgerAccounts.find? p.accountId).isSome) = db.postingsOf t.id := by
    rw [List.filter_eq_self]
    intro p hp
    obtain ⟨a, ha, on⟩ := posted p (Db.mem_postingsOf.mp hp).1
    rw [Table.find?_eq_some.mpr ⟨ha, on⟩]
    rfl
  have found : db.ledgerTransactions.find? t.id = some t := Table.find?_key ht
  simp only [validateLedgerTransactionAtCommit, all, found] at h
  obtain ⟨isSealed, h⟩ := bind_unit_eq_ok.mp h
  obtain ⟨two_le, h⟩ := bind_unit_eq_ok.mp h
  obtain ⟨balanced, h⟩ := bind_unit_eq_ok.mp h
  rw [failIf_eq_ok] at isSealed two_le balanced h
  rw [not_not] at balanced h
  refine ⟨by simpa [Option.isSome_iff_ne_none] using isSealed, not_lt.mp two_le, balanced, fun p hp a ha on => ?_⟩
  have same := List.countP_eq_zero.mp h p hp
  rw [Table.find?_eq_some.mpr ⟨ha, on⟩] at same
  simpa using same

theorem Db.Committed.transact {allowed : WriteSetting → Bool → Prop} {before after : Db} {s : Settings} (h : before.Committed)
    (touches : Touches allowed (before, {}) (after, s)) (due : ∀ r ∈ s.deferred, atCommit after r = .ok ()) :
    after.Committed := by
  have kept := h.kept touches
  have posted := touches.posted h.posted
  have accepted : ∀ t ∈ after.ledgerTransactions, t.sealedAt.isSome ∧ 2 ≤ (after.postingsOf t.id).length ∧
      ((after.postingsOf t.id).map LedgerPosting.amountMinor).sum = 0 ∧
      ∀ p ∈ after.postingsOf t.id, ∀ a ∈ after.ledgerAccounts, a.id = p.accountId → a.currency = t.currency := by
    intro t ht
    rcases touches.due (r := .ledgerTransaction t) ht (by simp [Row.table]) with old | new
    · have perm := kept.postingsOf_perm old
      refine ⟨h.isSealed t old, perm.length_eq ▸ h.two_le t old, ?_, fun p hp a ha on => ?_⟩
      · rw [(perm.map _).sum_eq]
        exact h.balanced t old
      · have hp := perm.subset hp
        obtain ⟨b, hb, on'⟩ := h.posted p (Db.mem_postingsOf.mp hp).1
        obtain ⟨b', hb', same⟩ := kept.accounts b hb
        obtain ⟨id, _, currency, _⟩ := LedgerAccount.identity_eq.mp same
        obtain rfl := Table.eq_of_key_eq ha hb' (on.trans (on'.symm.trans id.symm))
        exact currency.trans (h.currency t old p hp b hb on')
    · exact validateLedgerTransactionAtCommit_eq_ok ht posted (due _ new)
  refine ⟨touches.distinct h.distinct, touches.checked h.checked, posted, touches.owned h.owned, fun a ha wallet => ?_,
    fun t ht => (accepted t ht).1, fun t ht => (accepted t ht).2.1, fun t ht => (accepted t ht).2.2.1,
    fun t ht => (accepted t ht).2.2.2⟩
  obtain ⟨a₀, same, there⟩ := touches.accounts_due a ha
  obtain ⟨id, kind, _⟩ := LedgerAccount.identity_eq.mp same
  rcases there with old | new
  · obtain ⟨w, hw, link⟩ := h.linked a₀ old (kind.trans wallet)
    obtain ⟨w', hw', same⟩ := kept.wallets w hw
    exact ⟨w', hw', (Wallet.link_eq.mp same).2.1.trans (link.trans id)⟩
  · have pair := (bind_unit_eq_ok.mp (due _ new)).1
    rw [failIf_eq_ok] at pair
    have one : after.wallets.rows.countP (fun w => w.ledgerAccountId = a₀.id) = 1 := by
      by_contra other
      exact pair ⟨kind.trans wallet, other⟩
    obtain ⟨w, hw, link⟩ := List.countP_pos_iff.mp (one ▸ Nat.one_pos)
    exact ⟨w, hw, (of_decide_eq_true link).trans id⟩

theorem Db.Commits.committed {before after : Db} (h : before.Commits after) (committed : before.Committed) :
    after.Committed ∧ LedgerKept before after := by
  obtain ⟨sts, done⟩ := h
  obtain ⟨s, touches, due⟩ := transact_touches (fun _ _ => True) (fun _ _ _ => trivial) done
  exact ⟨committed.transact touches due, committed.kept touches⟩

theorem Db.Leads.committed {before after : Db} (h : before.Leads after) (committed : before.Committed) :
    after.Committed ∧ LedgerKept before after := by
  induction h with
  | refl => exact ⟨committed, .refl _⟩
  | tail _ commits ih =>
      obtain ⟨now, kept⟩ := commits.committed ih.1
      exact ⟨now, ih.2.trans kept⟩

/-- Whatever transactions the database accepts, every committed state is a well-formed ledger, and no later
transaction changes what it holds. -/
theorem ledger_history {initial db later : Db} (opening : Opening initial) (h : initial.Leads db) (h' : db.Leads later) :
    LedgerWellFormed db ∧ LedgerWellFormed later ∧ LedgerKept db later := by
  have committed := (h.committed opening.committed).1
  have after := h'.committed committed
  exact ⟨committed.wellFormed, after.1.wellFormed, after.2⟩

/-! ## A run -/

def sampleAccount (n : Nat) : LedgerAccount where
  id := sampleUuid n 2
  kind := .wallet
  currency := .usd

def sampleWallet (n : Nat) : Wallet where
  id := sampleUuid n 1
  userId := sampleUuid n 0
  ledgerAccountId := sampleUuid n 2
  currency := .usd
  createdAt := 0
  updatedAt := 0

def sampleOwner (n : Nat) (email : String) : User where
  id := sampleUuid n 0
  email := email
  passwordHash := "hash"
  firstName := "Ada"
  lastName := "Obi"
  createdAt := 0
  updatedAt := 0

def RowStatement.plain (r : Row) : RowStatement := .insert r id 0

/-- A user opens a wallet. -/
def sampleOpened (n : Nat) (email : String) : List RowStatement :=
  [.plain (.user (sampleOwner n email)), .plain (.ledgerAccount (sampleAccount n)), .plain (.wallet (sampleWallet n))]

def sampleTransaction (n : Nat) : LedgerTransaction where
  id := sampleUuid n 3
  reference := "movement " ++ toString n
  currency := .usd
  createdAt := 0

/-- A ledger transaction between two accounts. -/
def samplePosted (n : Nat) (debit credit : LedgerAccount) (amountMinor : Int) : List RowStatement :=
  let t := sampleTransaction n
  [.setConfig .ledger true,
    .plain (.ledgerTransaction t),
    .plain (.ledgerPosting
      { id := sampleUuid n 4, ledgerTransactionId := t.id, accountId := debit.id, amountMinor := -amountMinor }),
    .plain (.ledgerPosting
      { id := sampleUuid n 5, ledgerTransactionId := t.id, accountId := credit.id, amountMinor }),
    .update (.ledgerAccount debit) (.ledgerAccount { debit with balanceMinor := debit.balanceMinor - amountMinor }) 0,
    .update (.ledgerAccount credit) (.ledgerAccount { credit with balanceMinor := credit.balanceMinor + amountMinor }) 0,
    .update (.ledgerTransaction t) (.ledgerTransaction { t with sealedAt := some 0 }) 0]

def sampleCommitted (sts : List RowStatement) (db : Db) : Db := (db.transact sts).toOption.getD db

def sampleWalletOpened : Db := sampleCommitted (sampleOpened 1 "ada@example.com") migrated

def sampleFunded : Db := sampleCommitted (samplePosted 2 usdClearing (sampleAccount 1) 5000) sampleWalletOpened

theorem sampleFunded_leads : migrated.Leads sampleWalletOpened ∧ sampleWalletOpened.Leads sampleFunded :=
  ⟨.single ⟨sampleOpened 1 "ada@example.com", eq_ok_getD (by decide) migrated⟩,
    .single ⟨samplePosted 2 usdClearing (sampleAccount 1) 5000, eq_ok_getD (by decide) sampleWalletOpened⟩⟩

theorem ledger_history_sample : sampleWalletOpened.wallets.rows.length = 1 ∧
    sampleFunded.wallets.rows.map Wallet.currentBalanceMinor = [5000] ∧ sampleFunded.ledgerPostings.rows.length = 2 ∧
    LedgerWellFormed sampleWalletOpened ∧ LedgerWellFormed sampleFunded ∧ LedgerKept sampleWalletOpened sampleFunded :=
  ⟨by decide, by decide, by decide,
    ledger_history migrated_opening sampleFunded_leads.1 sampleFunded_leads.2⟩

end Fintech
