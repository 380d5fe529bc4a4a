import Fintech.Proof.Books

/-!
# Closed wallets

A wallet is closed while its row is locked and shows nothing; every posting to its account rewrites
that row, so no posting that saw it open can commit afterwards.
-/

namespace Fintech
open Relational Transactional

/-- What one commit does to closed wallets, and to which wallets it posts. -/
structure Keeps (before after : Db) : Prop where
  closed : ∀ w ∈ before.wallets, w.status = .closed → w ∈ after.wallets
  active : ∀ p ∈ after.ledgerPostings, p ∉ before.ledgerPostings → ∀ w ∈ before.wallets,
    w.ledgerAccountId = p.accountId → w.status = .active

section
variable {before after : Db}

theorem Movement.wallets_active {m : Movement} {w : Wallet} (h : w ∈ m.wallets) : w.status = .active := by
  obtain ⟨a, ha, owns⟩ := List.mem_filterMap.mp h
  have admissible := m.admissible a ha
  cases kind : a.1.kind with
  | wallet =>
      obtain ⟨x, hx, _, _, active⟩ := admissible.wallet kind
      obtain rfl : w = x := Option.some.inj (owns.symm.trans hx)
      exact active
  | system =>
      cases owns.symm.trans (admissible.system kind)

theorem Posts.untouched {m : Movement} (posts : Posts m before after) {w : Wallet} (hw : w ∈ before.wallets)
    (inactive : w.status ≠ .active) : w ∈ after.wallets := by
  have out : w.id ∉ (m.wallets.map m.onWallet).map key := by
    intro mem
    rw [List.map_map] at mem
    obtain ⟨x, hx, same⟩ := List.mem_map.mp mem
    obtain rfl := Table.eq_of_key_eq (posts.wallets_mem x hx) hw ((Movement.onWallet_id x).symm.trans same)
    exact inactive (Movement.wallets_active hx)
  rw [posts.wallets]
  exact (Table.find?_eq_some.mp ((Table.find?_putAll_of_not_mem out).trans (Table.find?_key hw))).1

/-- A wallet whose account a movement posts to is one of the movement. -/
theorem Posts.wallet_mem {m : Movement} (posts : Posts m before after) (sound : before.Sound) (books : Books before)
    {w : Wallet} (hw : w ∈ before.wallets) (posted : w.ledgerAccountId ∈ m.accountIds) : w ∈ m.wallets := by
  obtain ⟨a, ha, id⟩ := Movement.exists_of_id_mem posted
  have kind := books.kind_of_owned hw (posts.accounts_mem a ha) id
  obtain ⟨x, owns, _⟩ := (m.admissible a ha).wallet kind
  have mem : x ∈ m.wallets := List.mem_filterMap.mpr ⟨a, ha, owns⟩
  have slot : Row.wallet w = Row.wallet x :=
    sound.unique _ hw _ (posts.wallets_mem x mem) (.walletAccount w.ledgerAccountId) (by simp [Row.keys, Row.slots])
      (by simp [Row.keys, Row.slots, m.linked a ha x owns, id])
  obtain rfl : w = x := by simpa using slot
  exact mem

theorem Ledgers.keeps (h : Ledgers before after) (sound : before.Sound) (books : Books before) : Keeps before after := by
  have none {P : Prop} (postings : after.ledgerPostings = before.ledgerPostings) {p : LedgerPosting}
      (hp : p ∈ after.ledgerPostings) (new : p ∉ before.ledgerPostings) : P := absurd (postings ▸ hp) new
  cases h with
  | same accounts wallets transactions postings =>
      exact ⟨fun w hw _ => wallets ▸ hw, fun p hp new => none postings hp new⟩
  | opened draws userId currency _ fresh accounts wallets transactions postings =>
      refine ⟨fun w hw _ => ?_, fun p hp new => none postings hp new⟩
      rw [wallets]
      exact Table.mem_put_of_ne hw (fresh w hw)
  | closed draws x hx active _ accounts wallets transactions postings =>
      refine ⟨fun w hw closed => ?_, fun p hp new => none postings hp new⟩
      rw [wallets]
      refine Table.mem_put_of_ne hw fun same => ?_
      obtain rfl := Table.eq_of_key_eq hw hx same
      cases closed.symm.trans active
  | moved m posts =>
      refine ⟨fun w hw closed => posts.untouched hw (by rw [closed]; decide), fun p hp new w hw link => ?_⟩
      rw [Table.mem_def, posts.ledgerPostings, List.mem_append] at hp
      rcases hp with hp | hp
      · exact absurd hp new
      · exact Movement.wallets_active (posts.wallet_mem sound books hw (link ▸ List.mem_map.mpr ⟨p, hp, rfl⟩))

/-- Closed wallets show nothing. -/
theorem Ledgers.closed_empty (h : Ledgers before after)
    (empty : ∀ w ∈ before.wallets, w.status = .closed → w.currentBalanceMinor = 0) :
    ∀ w ∈ after.wallets, w.status = .closed → w.currentBalanceMinor = 0 := by
  intro w hw closed
  cases h with
  | same accounts wallets _ _ => exact empty w (wallets ▸ hw) closed
  | opened draws userId currency _ fresh accounts wallets _ _ =>
      rw [wallets] at hw
      rcases Table.mem_put.mp hw with rfl | ⟨hw, _⟩
      · cases closed
      · exact empty w hw closed
  | closed draws x hx _ zero accounts wallets _ _ =>
      rw [wallets] at hw
      rcases Table.mem_put.mp hw with rfl | ⟨hw, _⟩
      · exact zero
      · exact empty w hw closed
  | moved m posts =>
      rw [posts.wallets] at hw
      have old : ∀ (ws : List Wallet) (t : Table Wallet), (∀ x ∈ ws, x.status ≠ .closed) → w ∈ t.putAll ws → w ∈ t := by
        intro ws
        induction ws with
        | nil => exact fun t _ hw => hw
        | cons x ws ih =>
            intro t others hw
            rcases Table.mem_put.mp (ih (t.put x) (fun y hy => others y (by simp [hy])) hw) with rfl | ⟨hw, _⟩
            · exact absurd closed (others w (by simp))
            · exact hw
      refine empty w (old _ _ (fun x hx => ?_) hw) closed
      obtain ⟨y, hy, rfl⟩ := List.mem_map.mp hx
      rw [Movement.onWallet_status, Movement.wallets_active hy]
      decide

end

/-- However closes and postings interleave: a closed wallet is empty and stays as it is, nothing is
posted to its account any more, and only active wallets are ever posted to. -/
theorem closed_wallets {sha256Hex : String → String} {initial : Db}
    {c : Config Db Settings Row Key DbError HttpException AttemptOutcome Result Request} (opening : Opening initial)
    (h : (system sha256Hex initial).Reachable c) :
    (∀ i ≤ c.log.length, ∀ w ∈ (stateAt initial c.log i).wallets, w.status = .closed → w.currentBalanceMinor = 0) ∧
    (∀ i j, i ≤ j → j ≤ c.log.length → ∀ w ∈ (stateAt initial c.log i).wallets, w.status = .closed →
      w ∈ (stateAt initial c.log j).wallets ∧
        ∀ p ∈ (stateAt initial c.log j).ledgerPostings, p.accountId = w.ledgerAccountId →
          p ∈ (stateAt initial c.log i).ledgerPostings) ∧
    (∀ j < c.log.length, ∀ p ∈ (stateAt initial c.log (j + 1)).ledgerPostings,
      p ∉ (stateAt initial c.log j).ledgerPostings → ∀ w ∈ (stateAt initial c.log j).wallets,
        w.ledgerAccountId = p.accountId → w.status = .active) := by
  have step {j : Nat} (lt : j < c.log.length) : Keeps (stateAt initial c.log j) (stateAt initial c.log (j + 1)) := by
    obtain ⟨_, _, _, ws, _, rows, accepts, change⟩ := done_of_certified (h.certified lt)
    obtain ⟨sound, books⟩ := reachable_books opening.sound opening.books h lt.le
    rw [state_after lt rows]
    exact (change.shape.ledgers accepts).keeps sound books
  have empty (i : Nat) (le : i ≤ c.log.length) :
      ∀ w ∈ (stateAt initial c.log i).wallets, w.status = .closed → w.currentBalanceMinor = 0 := by
    induction i with
    | zero => exact opening.closed
    | succ i ih =>
        obtain ⟨_, _, _, ws, _, rows, accepts, change⟩ := done_of_certified (h.certified le)
        rw [state_after le rows]
        exact (change.shape.ledgers accepts).closed_empty (ih (Nat.le_of_succ_le le))
  refine ⟨empty, fun i j le => ?_, fun j lt => (step lt).active⟩
  induction j, le using Nat.le_induction with
  | base => exact fun _ w hw _ => ⟨hw, fun p hp _ => hp⟩
  | succ j le ih =>
      intro lt w hw closed
      obtain ⟨there, old⟩ := ih (Nat.le_of_succ_le lt) w hw closed
      refine ⟨(step lt).closed w there closed, fun p hp on => ?_⟩
      by_cases known : p ∈ (stateAt initial c.log j).ledgerPostings
      · exact old p known on
      · cases closed.symm.trans ((step lt).active p hp known w there on.symm)

def sampleDeposit (n : Nat) : Request :=
  .post (sampleDraws (n + 4))
    { reference := "paid-" ++ toString n, currency := .usd,
      postings := [⟨usdClearing.id.text, -100⟩, ⟨(sampleUuid n 2).text, 100⟩] }

/-- A wallet is closed, and another one is opened and paid. -/
def sampleClosing : List Request := [
  sampleUser 0 "ada@example.com",
  .closeWallet (sampleDraws 2) (sampleUuid 0 0) (sampleUuid 0 1).text,
  sampleUser 1 "obi@example.com",
  sampleDeposit 1]

/-- Then somebody tries to pay the closed wallet. -/
def sampleClosed : List (Entry Request Row) × Result :=
  (system sampleHash migrated).perform ((system sampleHash migrated).performAll sampleClosing [] 0) 4 (sampleDeposit 0)

theorem sampleClosed_refused : sampleClosed.1.length = 4 ∧
    (stateAt migrated sampleClosed.1 2).wallets.rows.map Wallet.status = [.closed] ∧
    (stateAt migrated sampleClosed.1 4).wallets.rows.map Wallet.currentBalanceMinor = [0, 100] ∧
    (sampleClosed.2 matches .error (.http ⟨409, _⟩)) := by
  decide +kernel

theorem closed_wallets_sample : (stateAt migrated sampleClosed.1 2).wallets.rows.map Wallet.status = [.closed] ∧
    (∀ w ∈ (stateAt migrated sampleClosed.1 2).wallets, w.status = .closed →
      w ∈ (stateAt migrated sampleClosed.1 4).wallets ∧
        ∀ p ∈ (stateAt migrated sampleClosed.1 4).ledgerPostings, p.accountId = w.ledgerAccountId →
          p ∈ (stateAt migrated sampleClosed.1 2).ledgerPostings) ∧
    (stateAt migrated sampleClosed.1 4).wallets.rows.map Wallet.currentBalanceMinor = [0, 100] ∧
    (sampleClosed.2 matches .error (.http ⟨409, _⟩)) := by
  obtain ⟨c, reach, log, _⟩ := System.reachable_perform (system sampleHash migrated) sampleClosing (sampleDeposit 0)
  change c.log = sampleClosed.1 at log
  obtain ⟨length, closed, balances, refused⟩ := sampleClosed_refused
  have stays := (closed_wallets migrated_opening reach).2.1 2 4 (by decide) (by rw [log, length])
  rw [log] at stays
  exact ⟨closed, stays, balances, refused⟩

end Fintech
