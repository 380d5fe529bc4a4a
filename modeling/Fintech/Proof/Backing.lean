import Fintech.Proof.Booked

/-!
# The ledger bears the records out

Whatever a commit does, every transfer, reversal and succeeded payment has the ledger transaction
that moves its amount between the accounts of its wallets.
-/

namespace Fintech
open Relational Transactional DoubleEntry

/-- What the ledger and the wallets say of each record. -/
structure Borne (db : Db) : Prop where
  placed : ∀ p ∈ db.payments, db.Places p
  backed : ∀ r ∈ db, r.movement.isSome → Backed db r

section
variable {initial before after : Db}

theorem Backed.frozen {db : Db} {r : Row} (h : Backed db r) : r.Frozen := by
  cases h with
  | transfer _ _ completed => exact (Row.fixed_of_completed completed).frozen
  | reversal => exact (Row.fixed_of_isHistory rfl).frozen
  | payment _ _ _ succeeded => exact (Row.fixed_of_terminal (by rw [succeeded]; decide)).frozen

/-- The transaction that a record accounts for is there. -/
theorem Backed.movement {db : Db} {r : Row} (h : Backed db r) {id : Uuid} (moved : r.movement = some id) :
    ∃ t ∈ db.ledgerTransactions, t.id = id := by
  cases h with
  | transfer _ _ _ _ _ _ _ _ moves =>
      obtain ⟨t, ht, same, _⟩ := moves.transaction
      exact ⟨t, ht, same.trans (Option.some.inj moved)⟩
  | reversal _ _ _ _ _ _ _ _ _ _ _ _ _ moves =>
      obtain ⟨t, ht, same, _⟩ := moves.transaction
      exact ⟨t, ht, same.trans (Option.some.inj moved)⟩
  | payment _ _ _ succeeded ledger _ _ _ _ _ moves =>
      obtain ⟨t, ht, same, _⟩ := moves.transaction
      rw [Row.movement, if_pos succeeded, ledger] at moved
      exact ⟨t, ht, same.trans (Option.some.inj moved)⟩

theorem Db.Places.preserved {p : Payment} (h : before.Places p) (keeps : Preserves before after) : after.Places p := by
  obtain ⟨⟨w, hw, id, user, currency⟩, reference⟩ := h
  obtain ⟨w', hw', same⟩ := keeps.wallets w hw
  obtain ⟨id', user', _, currency'⟩ := Wallet.identity_eq.mp same
  exact ⟨⟨w', hw', id'.trans id, user'.trans user, currency'.trans currency⟩, reference⟩

theorem Db.Places.congr {db : Db} {p q : Payment} (h : db.Places p) (same : q.identity = p.identity) : db.Places q := by
  obtain ⟨_, user, wallet, _, reference, _, _, _, currency, _⟩ := Payment.identity_eq.mp same
  exact ⟨by simpa only [user, wallet, currency] using h.wallet, by simpa only [reference] using h.reference⟩

/-- What a commit adds to the records that account for money. -/
inductive Gains (before after : Db) : Request → Prop
  | none {i} : after.ledgerTransactions = before.ledgerTransactions →
      (∀ r ∈ after, r.movement.isSome → r ∈ before) → Gains before after i
  | unrecorded {draws input} (m : Movement) : Posts m before after → (∀ r ∈ after, r.movement.isSome → r ∈ before) →
      Gains before after (.post draws input)
  | record {i} (m : Movement) (r : Row) : Posts m before after → r ∈ after → r.movement = some m.opened.id →
      Backed after r → (∀ x ∈ after, x.movement.isSome → x = r ∨ x ∈ before) → Gains before after i

theorem Gains.backed {i : Request} (h : Gains before after i) (backed : ∀ r ∈ before, r.movement.isSome → Backed before r)
    (keeps : Preserves before after) : ∀ r ∈ after, r.movement.isSome → Backed after r := by
  intro r hr moved
  cases h with
  | none _ records => exact (backed r (records r hr moved) moved).preserved keeps
  | unrecorded _ _ records => exact (backed r (records r hr moved) moved).preserved keeps
  | record m x _ _ _ new records =>
      rcases records r hr moved with rfl | hr
      · exact new
      · exact (backed r hr moved).preserved keeps

theorem QuietPayments.succeeded (h : QuietPayments before after) {p : Payment} (hp : p ∈ after.payments)
    (succeeded : p.status = .succeeded) : p ∈ before.payments := by
  cases h with
  | same payments => exact payments ▸ hp
  | intended q pending _ _ payments =>
      rw [payments] at hp
      rcases Table.mem_put.mp hp with rfl | ⟨hp, _⟩
      · cases pending.symm.trans succeeded
      · exact hp
  | failed _ q _ _ failed _ payments =>
      rw [payments] at hp
      rcases Table.mem_put.mp hp with rfl | ⟨hp, _⟩
      · cases failed.symm.trans succeeded
      · exact hp

theorem QuietPayments.placed (h : QuietPayments before after) (keeps : Preserves before after)
    (placed : ∀ p ∈ before.payments, before.Places p) : ∀ p ∈ after.payments, after.Places p := by
  intro p hp
  cases h with
  | same payments => exact (placed p (payments ▸ hp)).preserved keeps
  | intended q _ _ new payments =>
      rw [payments] at hp
      rcases Table.mem_put.mp hp with rfl | ⟨hp, _⟩
      · exact new.preserved keeps
      · exact (placed p hp).preserved keeps
  | failed q p' mem _ _ same payments =>
      rw [payments] at hp
      rcases Table.mem_put.mp hp with rfl | ⟨hp, _⟩
      · exact ((placed q mem).congr same).preserved keeps
      · exact (placed p hp).preserved keeps

/-- The records that account for money after a commit, table by table. -/
theorem movement_cases {P : Row → Prop} (transfers : ∀ t ∈ after.transfers, P (.transfer t))
    (reversals : ∀ v ∈ after.transferReversals, P (.transferReversal v))
    (payments : ∀ p ∈ after.payments, p.status = .succeeded → P (.payment p)) :
    ∀ r ∈ after, r.movement.isSome → P r := by
  intro r hr moved
  cases r with
  | transfer t => exact transfers t hr
  | transferReversal v => exact reversals v hr
  | payment p =>
      by_cases succeeded : p.status = .succeeded
      · exact payments p hr succeeded
      · simp [Row.movement, succeeded] at moved
  | _ => simp [Row.movement] at moved

theorem Booked.placed {i : Request} (h : Booked before after i) (keeps : Preserves before after)
    (placed : ∀ p ∈ before.payments, before.Places p) : ∀ p ∈ after.payments, after.Places p := by
  have kept (payments : after.payments = before.payments) : ∀ p ∈ after.payments, after.Places p :=
    fun p hp => (placed p (payments ▸ hp)).preserved keeps
  cases h with
  | quiet quiet => exact quiet.payments.placed keeps placed
  | posted _ _ _ _ payments => exact kept payments
  | transferred _ _ _ _ _ _ _ payments => exact kept payments
  | reversed _ _ _ _ _ _ _ _ payments => exact kept payments
  | credited m p p' _ _ _ _ _ payments mem _ same =>
      intro q hq
      rw [payments] at hq
      rcases Table.mem_put.mp hq with rfl | ⟨hq, _⟩
      · exact ((placed p mem).congr same).preserved keeps
      · exact (placed q hq).preserved keeps

theorem Booked.gains {i : Request} (h : Booked before after i) (sound : before.Sound)
    (placed : ∀ p ∈ before.payments, before.Places p) (keeps : Preserves before after) (extends_ : after.Extends before) :
    Gains before after i := by
  have wallet {w : Wallet} (hw : w ∈ before.wallets) : ∃ w' ∈ after.wallets, w'.id = w.id ∧ w'.userId = w.userId ∧
      w'.ledgerAccountId = w.ledgerAccountId ∧ w'.currency = w.currency := by
    obtain ⟨w', hw', same⟩ := keeps.wallets w hw
    exact ⟨w', hw', Wallet.identity_eq.mp same⟩
  cases h with
  | quiet quiet =>
      refine .none quiet.transactions (movement_cases ?_ ?_ ?_)
      · exact fun t ht => (quiet.transfers ▸ ht : t ∈ before.transfers)
      · exact fun v hv => (quiet.transferReversals ▸ hv : v ∈ before.transferReversals)
      · exact fun p hp succeeded => quiet.payments.succeeded hp succeeded
  | posted m posts transfers reversals payments =>
      refine .unrecorded m posts (movement_cases ?_ ?_ ?_)
      · exact fun t ht => (transfers ▸ ht : t ∈ before.transfers)
      · exact fun v hv => (reversals ▸ hv : v ∈ before.transferReversals)
      · exact fun p hp _ => (payments ▸ hp : p ∈ before.payments)
  | transferred m t source destination posts transfers reversals payments completed sender source_mem source_id owned
      destination_mem destination_id ledger reference currency pair =>
      obtain ⟨source', mem, sid, user, account, _⟩ := wallet source_mem
      obtain ⟨destination', mem', did, _, account', _⟩ := wallet destination_mem
      have moves := posts.moves sound (.of_eq pair)
      rw [ledger, reference, currency, ← account, ← account'] at moves
      refine .record m (.transfer t) posts ?_ (congrArg some ledger.symm) ?_ (movement_cases ?_ ?_ ?_)
      · exact Table.mem_def.mpr (transfers ▸ by simp)
      · exact .transfer source' destination' completed mem (sid.trans source_id)
          (user.trans (owned.trans sender.symm)) mem' (did.trans destination_id) moves
      · intro x hx
        rw [Table.mem_def, transfers, List.mem_append, List.mem_singleton] at hx
        exact hx.symm.imp_left (congrArg _)
      · exact fun v hv => .inr (reversals ▸ hv : v ∈ before.transferReversals)
      · exact fun p hp _ => .inr (payments ▸ hp : p ∈ before.payments)
  | reversed m v t source destination posts transfers reversals payments actor named t_mem id completed owned _ amount
      source_mem source_id destination_mem destination_id ledger reference currency same pair =>
      obtain ⟨source', mem, sid, _, account, _⟩ := wallet source_mem
      obtain ⟨destination', mem', did, _, account', _⟩ := wallet destination_mem
      have moves := posts.moves sound ((List.Perm.of_eq pair).trans (.swap _ _ _))
      rw [ledger, reference, currency, ← account, ← account'] at moves
      refine .record m (.transferReversal v) posts ?_ (congrArg some ledger.symm) ?_ (movement_cases ?_ ?_ ?_)
      · exact Table.mem_def.mpr (reversals ▸ by simp)
      · exact .reversal t source' destination' (keeps.transfers t t_mem completed) id completed (owned.trans actor.symm) same
          amount mem (sid.trans source_id) mem' (did.trans destination_id) moves
      · exact fun t ht => .inr (transfers ▸ ht : t ∈ before.transfers)
      · intro x hx
        rw [Table.mem_def, reversals, List.mem_append, List.mem_singleton] at hx
        exact hx.symm.imp_left (congrArg _)
      · exact fun p hp _ => .inr (payments ▸ hp : p ∈ before.payments)
  | credited m p p' clearing w posts transfers reversals payments mem pending same succeeded ledger matched clearing_mem
      clearing_key wallet_mem wallet_id reference currency pair =>
      obtain ⟨w', w'_mem, wid, user, account, _⟩ := wallet wallet_mem
      obtain ⟨clearing', clearing'_mem, kept⟩ := extends_.account clearing_mem
      obtain ⟨cid, _, _, _, ckey⟩ := LedgerAccount.identity_eq.mp kept
      obtain ⟨⟨x, hx, xid, xuser, _⟩, trimmed⟩ := placed p mem
      obtain rfl : x = w := Table.eq_of_key_eq hx wallet_mem (xid.trans wallet_id.symm)
      obtain ⟨_, puser, pwallet, _, preference, _, _, pamount, pcurrency, _⟩ := Payment.identity_eq.mp same
      have moves := posts.moves sound (.of_eq pair)
      rw [reference, trimmed, currency, ← account, ← cid, ← pamount, ← pcurrency, ← preference] at moves
      have row : (Row.payment p').movement = some m.opened.id := by
        rw [Row.movement, if_pos succeeded, ledger]
      have there : p' ∈ after.payments := payments ▸ Table.mem_put_self _ _
      refine .record m (.payment p') posts there row ?_ (movement_cases ?_ ?_ ?_)
      · exact .payment m.opened.id clearing' w' succeeded ledger clearing'_mem (by rw [ckey, clearing_key, pcurrency])
          w'_mem (wid.trans (wallet_id.trans pwallet.symm)) (user.trans (xuser.trans puser.symm)) moves
      · exact fun t ht => .inr (transfers ▸ ht : t ∈ before.transfers)
      · exact fun v hv => .inr (reversals ▸ hv : v ∈ before.transferReversals)
      · intro q hq _
        rw [payments] at hq
        exact (Table.mem_put.mp hq).imp (congrArg _) And.left

theorem Borne.booked {i : Request} (h : Borne before) (sound : before.Sound) (keeps : Preserves before after)
    (extends_ : after.Extends before) (booked : Booked before after i) : Borne after where
  placed := booked.placed keeps h.placed
  backed := (booked.gains sound h.placed keeps extends_).backed h.backed keeps

/-! ## Runs -/

section
variable {sha256Hex : String → String} {c : Config Db Settings Row Key DbError HttpException AttemptOutcome Result Request}

theorem Borne.start (opening : Opening initial) : Borne initial ∧ ∀ r ∈ initial, ¬ r.movement.isSome := by
  have none : ∀ r ∈ initial, ¬ r.movement.isSome := by
    intro r hr moved
    refine @movement_cases initial (fun _ => False) (fun t ht => ?_) (fun v hv => ?_) (fun p hp _ => ?_) r hr moved
    · exact Table.not_mem_empty t (opening.transfers ▸ ht)
    · exact Table.not_mem_empty v (opening.transferReversals ▸ hv)
    · exact Table.not_mem_empty p (opening.payments ▸ hp)
  exact ⟨⟨fun p hp => absurd (opening.payments ▸ hp) (Table.not_mem_empty p), fun r hr moved => absurd moved (none r hr)⟩, none⟩

/-- What a commit finds, does and leaves. -/
structure Committing (before after : Db) (i : Request) : Prop where
  sound : before.Sound
  books : Books before
  borne : Borne before
  ledgers : Ledgers before after
  later : after.Extends before
  booked : Booked before after i

theorem Committing.preserves {i : Request} (h : Committing before after i) : Preserves before after :=
  h.ledgers.preserves h.later h.books

/-- Rule for runs, in terms of what each commit did to the records. -/
theorem reachable_booked (opening : Opening initial) (h : (system sha256Hex initial).Reachable c) {Inv : Db → Prop}
    (start : Inv initial) (step : ∀ before after i, (∃ e ∈ c.log, e.request = i) → Inv before →
      Committing before after i → Inv after) :
    (∀ i ≤ c.log.length, (stateAt initial c.log i).Sound ∧ Books (stateAt initial c.log i) ∧
      Borne (stateAt initial c.log i) ∧ Inv (stateAt initial c.log i)) ∧
    (∀ i i', i ≤ i' → i' ≤ c.log.length → (stateAt initial c.log i').Extends (stateAt initial c.log i)) := by
  refine @reachable_changes sha256Hex initial c (fun db => db.Sound ∧ Books db ∧ Borne db ∧ Inv db) (fun s t => t.Extends s)
    Db.extends_refl (fun h h' => h'.trans h) ⟨opening.sound, opening.books, (Borne.start opening).1, start⟩ ?_ h
  intro base now i outcome ws request _ earlier ⟨sound, books, borne, inv⟩ accepts change
  have ledgers := change.shape.ledgers accepts
  have booked := change.deed.booked accepts earlier ledgers
  have committing : Committing now (now.write ws) i := ⟨sound, books, borne, ledgers, accepts.extends, booked⟩
  exact ⟨⟨accepts.sound sound, books.ledgers sound ledgers, borne.booked sound committing.preserves accepts.extends booked,
    step _ _ i request inv committing⟩, accepts.extends⟩

/-- Each commit of a run, as a step from one state to the next. -/
theorem committing (opening : Opening initial) (h : (system sha256Hex initial).Reachable c) {j : Nat} (lt : j < c.log.length) :
    Committing (stateAt initial c.log j) (stateAt initial c.log (j + 1)) c.log[j].request := by
  obtain ⟨states, earlier⟩ := @reachable_booked initial _ c opening h (fun _ => True) trivial fun _ _ _ _ _ _ => trivial
  obtain ⟨sound, books, borne, _⟩ := states j lt.le
  obtain ⟨_, bases, _, ws, le, rows, accepts, change⟩ := done_of_certified (h.certified lt)
  rw [state_after lt rows]
  have ledgers := change.shape.ledgers accepts
  exact ⟨sound, books, borne, ledgers, accepts.extends,
    change.deed.booked accepts (fun n => earlier _ _ (le n) lt.le) ledgers⟩

/-- What one committed state keeps of the ones before it. -/
theorem reachable_preserves (opening : Opening initial) (h : (system sha256Hex initial).Reachable c) {i j : Nat} (le : i ≤ j)
    (lt : j ≤ c.log.length) : Preserves (stateAt initial c.log i) (stateAt initial c.log j) := by
  induction j, le using Nat.le_induction with
  | base => exact .refl _
  | succ j le ih => exact (ih (Nat.le_of_succ_le lt)).trans (committing opening h lt).preserves

end

end

end Fintech
