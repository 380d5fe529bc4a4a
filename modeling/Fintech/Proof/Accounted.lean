import Fintech.Proof.Backing

/-!
# Every movement has its record

Where money moves only through transfers, reversals and payments, each ledger transaction since the
opening is accounted for by exactly one of them, and the wallets show what the records add up to.
-/

namespace Fintech
open Relational Transactional DoubleEntry

/-! ## One record for each transaction -/

structure Accounted (initial db : Db) : Prop where
  opening : ∀ t ∈ initial.ledgerTransactions, t ∈ db.ledgerTransactions ∧ ∀ r ∈ db, r.movement ≠ some t.id
  explained : ∀ t ∈ db.ledgerTransactions, t ∈ initial.ledgerTransactions ∨
    ∃ r ∈ db, r.movement = some t.id ∧ ∀ r' ∈ db, r'.movement = some t.id → r' = r

section
variable {initial before after : Db}

theorem Accounted.gains {i : Request} (h : Accounted initial before) (borne : Borne before) (keeps : Preserves before after)
    (extends_ : after.Extends before) (gains : Gains before after i) (ordinary : ∀ draws input, i ≠ .post draws input) :
    Accounted initial after := by
  cases gains with
  | none transactions records =>
      refine ⟨fun t ht => ?_, fun t ht => ?_⟩
      · obtain ⟨there, none⟩ := h.opening t ht
        exact ⟨transactions ▸ there, fun r hr moved => none r (records r hr (by simp [moved])) moved⟩
      · rcases h.explained t (transactions ▸ ht) with old | ⟨r, hr, moved, only⟩
        · exact .inl old
        · refine .inr ⟨r, ?_, moved, fun r' hr' moved' => only r' (records r' hr' (by simp [moved'])) moved'⟩
          exact extends_.frozen hr (borne.backed r hr (by simp [moved])).frozen
  | unrecorded => exact absurd rfl (ordinary _ _)
  | record m r posts mem accounts _ records =>
      have fresh : ∀ x ∈ before, x.movement ≠ some m.opened.id := by
        intro x hx moved
        obtain ⟨t, ht, same⟩ := (borne.backed x hx (by simp [moved])).movement moved
        exact (posts.fresh t ht).1 same
      refine ⟨fun t ht => ?_, fun t ht => ?_⟩
      · obtain ⟨there, none⟩ := h.opening t ht
        refine ⟨keeps.transactions t there, fun x hx moved => ?_⟩
        rcases records x hx (by simp [moved]) with rfl | hx
        · exact (posts.fresh t there).1 (Option.some.inj (moved.symm.trans accounts))
        · exact none x hx moved
      · rw [Table.mem_def, posts.ledgerTransactions, List.mem_append, List.mem_singleton] at ht
        rcases ht with ht | rfl
        · rcases h.explained t ht with old | ⟨x, hx, moved, only⟩
          · exact .inl old
          · refine .inr ⟨x, extends_.frozen hx (borne.backed x hx (by simp [moved])).frozen, moved, fun x' hx' moved' => ?_⟩
            rcases records x' hx' (by simp [moved']) with rfl | hx'
            · exact absurd (Option.some.inj (moved'.symm.trans accounts)) (posts.fresh t ht).1
            · exact only x' hx' moved'
        · refine .inr ⟨r, mem, accounts, fun x hx moved => ?_⟩
          rcases records x hx (by simp [moved]) with rfl | hx
          · rfl
          · exact absurd moved (fresh x hx)

/-! ## The balances -/

theorem Movement.amount_of_pair {m : Movement} {a b : Uuid} {x y : Int}
    (pair : m.postings.map (fun p => (p.accountId, p.amountMinor)) = [(a, x), (b, y)]) (id : Uuid) :
    m.amount id = (if a = id then x else 0) + (if b = id then y else 0) := by
  rw [amount, moved, ← total_map, pair]
  simp

/-- Two wallets on one account are one wallet. -/
theorem Db.Sound.wallet_eq {db : Db} (sound : db.Sound) {w x : Wallet} (hw : w ∈ db.wallets) (hx : x ∈ db.wallets) :
    w.ledgerAccountId = x.ledgerAccountId ↔ w.id = x.id := by
  constructor
  · intro same
    have slot : Row.wallet w = Row.wallet x :=
      sound.unique _ hw _ hx (.walletAccount w.ledgerAccountId) (by simp [Row.keys, Row.slots])
        (by simp [Row.keys, Row.slots, same])
    rw [Row.wallet.inj slot]
  · intro same
    rw [Table.eq_of_key_eq hw hx same]

theorem QuietPayments.paidIn (h : QuietPayments before after) (walletId : Uuid) :
    after.paidIn walletId = before.paidIn walletId := by
  unfold Db.paidIn
  cases h with
  | same payments => rw [payments]
  | intended p pending fresh _ payments =>
      rw [payments, Table.sum_put_of_fresh fresh]
      simp [pending]
  | failed q p mem pending failed same payments =>
      rw [payments, Table.sum_put_of_mem mem (Payment.identity_eq.mp same).1.symm]
      simp [pending, failed]

/-- Looking up a transfer that is there, after another was added. -/
theorem Table.find?_of_rows_append {ρ κ : Type} [Keyed ρ κ] [DecidableEq κ] {t u : Table ρ} {r : ρ}
    (rows : u.rows = t.rows ++ [r]) {x : ρ} (hx : x ∈ t) : u.find? (key x) = t.find? (key x) := by
  rw [Table.find?_key hx, Table.find?_key]
  exact Table.mem_def.mpr (rows ▸ List.mem_append_left _ hx)

theorem sum_of_rows_append {ρ κ : Type} [Keyed ρ κ] {t u : Table ρ} {r : ρ} (rows : u.rows = t.rows ++ [r]) (f : ρ → Int) :
    u.sum f = t.sum f + f r := by
  simp [Table.sum, rows]

theorem Db.Sound.transfer_of {db : Db} (sound : db.Sound) {v : TransferReversal} (hv : v ∈ db.transferReversals) :
    ∃ t ∈ db.transfers, t.id = v.transferId :=
  Slice.transfers.exists_of_reference sound (r := .transferReversal v) hv (by simp [Row.references])

/-- A commit changes the flow of a wallet by what it moves on its account. -/
theorem Booked.flow {i : Request} (h : Booked before after i) (sound : before.Sound) (books : Books before)
    (ordinary : ∀ draws input, i ≠ .post draws input) :
    (∃ m, Posts m before after ∧ ∀ x ∈ before.wallets, after.flow x.id = before.flow x.id + m.amount x.ledgerAccountId) ∨
      (Quiet before after ∧ ∀ id, after.flow id = before.flow id) := by
  cases h with
  | quiet quiet =>
      refine .inr ⟨quiet, fun id => ?_⟩
      simp only [Db.flow, Db.transferredOut, Db.transferredIn, Db.reversedIn, Db.reversedOut, quiet.transfers,
        quiet.transferReversals, quiet.payments.paidIn]
  | posted => exact absurd rfl (ordinary _ _)
  | transferred m t source destination posts transfers reversals payments completed sender source_mem source_id owned
      destination_mem destination_id ledger reference currency pair =>
      refine .inl ⟨m, posts, fun x hx => ?_⟩
      have lookup : ∀ v ∈ before.transferReversals, after.transfers.find? v.transferId = before.transfers.find? v.transferId := by
        intro v hv
        obtain ⟨t, ht, same⟩ := sound.transfer_of hv
        rw [← same]
        exact Table.find?_of_rows_append transfers ht
      have reversedIn : after.reversedIn x.id = before.reversedIn x.id := by
        rw [Db.reversedIn, reversals]
        exact Table.sum_congr fun v hv => by rw [lookup v hv]
      have reversedOut : after.reversedOut x.id = before.reversedOut x.id := by
        rw [Db.reversedOut, reversals]
        exact Table.sum_congr fun v hv => by rw [lookup v hv]
      have paidIn : after.paidIn x.id = before.paidIn x.id := by
        rw [Db.paidIn, payments, Db.paidIn]
      rw [Movement.amount_of_pair pair, Db.flow, paidIn, reversedIn, reversedOut, Db.transferredOut,
        Db.transferredIn, sum_of_rows_append transfers, sum_of_rows_append transfers, ← source_id, ← destination_id]
      simp only [sound.wallet_eq source_mem hx, sound.wallet_eq destination_mem hx, Db.flow, Db.transferredOut, Db.transferredIn]
      by_cases out : source.id = x.id <;> by_cases into : destination.id = x.id <;> simp [out, into] <;> omega
  | reversed m v t source destination posts transfers reversals payments actor named t_mem id completed owned _ amount
      source_mem source_id destination_mem destination_id ledger reference currency same pair =>
      refine .inl ⟨m, posts, fun x hx => ?_⟩
      have found : before.transfers.find? v.transferId = some t := id ▸ Table.find?_key t_mem
      have paidIn : after.paidIn x.id = before.paidIn x.id := by
        rw [Db.paidIn, payments, Db.paidIn]
      have reversedIn : after.reversedIn x.id = before.reversedIn x.id + if source.id = x.id then v.amountMinor else 0 := by
        rw [Db.reversedIn, transfers, sum_of_rows_append reversals, found, source_id]
        simp [Db.reversedIn]
      have reversedOut : after.reversedOut x.id =
          before.reversedOut x.id + if destination.id = x.id then v.amountMinor else 0 := by
        rw [Db.reversedOut, transfers, sum_of_rows_append reversals, found, destination_id]
        simp [Db.reversedOut]
      rw [Movement.amount_of_pair pair, Db.flow, paidIn, reversedIn, reversedOut, Db.transferredOut,
        Db.transferredIn, transfers]
      simp only [sound.wallet_eq source_mem hx, sound.wallet_eq destination_mem hx, Db.flow, Db.transferredOut, Db.transferredIn]
      by_cases out : source.id = x.id <;> by_cases into : destination.id = x.id <;> simp [out, into] <;> omega
  | credited m p p' clearing w posts transfers reversals payments mem pending same succeeded ledger matched clearing_mem
      clearing_key wallet_mem wallet_id reference currency pair =>
      refine .inl ⟨m, posts, fun x hx => ?_⟩
      obtain ⟨id, _, wallet, _, _, _, _, amount, _⟩ := Payment.identity_eq.mp same
      have paidIn : after.paidIn x.id = before.paidIn x.id + if w.id = x.id then p.amountMinor else 0 := by
        rw [Db.paidIn, payments, Table.sum_put_of_mem mem id.symm, wallet_id]
        simp [Db.paidIn, pending, succeeded, wallet, amount]
      -- the clearing account is no wallet's
      have other : clearing.id ≠ x.ledgerAccountId := by
        intro on
        have kind := books.kind_of_owned hx clearing_mem on
        have policy := Books.checked sound (r := .ledgerAccount clearing) clearing_mem
          (c := ("LedgerAccount_kind_policy_check", (clearing.kind == .system && clearing.systemKey.isSome) ||
            (clearing.kind == .wallet && clearing.systemKey.isNone && !clearing.allowNegative))) (by simp [Row.checks])
        simp [kind, clearing_key] at policy
      rw [Movement.amount_of_pair pair, if_neg other, Db.flow, paidIn, Db.transferredOut, Db.transferredIn, Db.reversedIn,
        Db.reversedOut, transfers, reversals]
      simp only [sound.wallet_eq wallet_mem hx, Db.flow, Db.transferredOut, Db.transferredIn, Db.reversedIn, Db.reversedOut]
      by_cases into : w.id = x.id
      · simp [into]
        omega
      · simp [into]

/-- Every wallet shows what it opened with and what the records moved on it since. -/
def Balanced (initial db : Db) : Prop :=
  (∀ w ∈ initial.wallets, ∃ w' ∈ db.wallets, w'.id = w.id) ∧
    ∀ w ∈ db.wallets, w.currentBalanceMinor = initial.balanceOf w.id + db.flow w.id

theorem flow_of_fresh {db : Db} (sound : db.Sound) {id : Uuid} (fresh : ∀ w ∈ db.wallets, w.id ≠ id) : db.flow id = 0 := by
  have wallet {r : Row} (hr : r ∈ db) {k : Uuid} (mem : .row .wallet k ∈ r.references) : k ≠ id := by
    obtain ⟨w, hw, same⟩ := Slice.wallets.exists_of_reference sound hr mem
    exact same ▸ fresh w hw
  have source {t : Transfer} (ht : t ∈ db.transfers) : t.sourceWalletId ≠ id :=
    wallet (r := .transfer t) ht (by simp [Row.references])
  have destination {t : Transfer} (ht : t ∈ db.transfers) : t.destinationWalletId ≠ id :=
    wallet (r := .transfer t) ht (by simp [Row.references])
  have zero {ρ : Type} [Keyed ρ Uuid] {t : Table ρ} {f : ρ → Int} (h : ∀ r ∈ t, f r = 0) : t.sum f = 0 := by
    rw [Table.sum_congr h]
    simp [Table.sum]
  have paidIn : db.paidIn id = 0 := zero fun p hp =>
    if_neg fun paid => wallet (r := .payment p) hp (by simp [Row.references]) paid.2
  have transferredOut : db.transferredOut id = 0 := zero fun t ht => if_neg (source ht)
  have transferredIn : db.transferredIn id = 0 := zero fun t ht => if_neg (destination ht)
  have reversedIn : db.reversedIn id = 0 := zero fun v hv => by
    obtain ⟨t, ht, same⟩ := sound.transfer_of hv
    have found : db.transfers.find? v.transferId = some t := same ▸ Table.find?_key ht
    simp [found, source ht]
  have reversedOut : db.reversedOut id = 0 := zero fun v hv => by
    obtain ⟨t, ht, same⟩ := sound.transfer_of hv
    have found : db.transfers.find? v.transferId = some t := same ▸ Table.find?_key ht
    simp [found, destination ht]
  rw [Db.flow, paidIn, transferredOut, transferredIn, reversedIn, reversedOut]
  rfl

theorem Balanced.booked {i : Request} (h : Balanced initial before) (sound : before.Sound) (books : Books before)
    (keeps : Preserves before after) (booked : Booked before after i) (ordinary : ∀ draws input, i ≠ .post draws input) :
    Balanced initial after := by
  refine ⟨fun w hw => ?_, fun w hw => ?_⟩
  · obtain ⟨w', hw', id⟩ := h.1 w hw
    obtain ⟨w'', hw'', same⟩ := keeps.wallets w' hw'
    exact ⟨w'', hw'', (Wallet.identity_eq.mp same).1.trans id⟩
  · rcases booked.flow sound books ordinary with ⟨m, posts, flow⟩ | ⟨quiet, flow⟩
    · rw [posts.wallets_modify sound fun w hw a ha same => books.kind_of_owned hw ha same] at hw
      obtain ⟨x, hx, rfl⟩ := Table.mem_modify.mp hw
      have now := h.2 x hx
      rw [Movement.onWallet_balance, Movement.onWallet_id, flow x hx]
      omega
    · rw [flow]
      cases quiet.ledgers with
      | same _ wallets _ _ => exact h.2 w (wallets ▸ hw)
      | opened draws userId currency _ fresh _ wallets _ _ =>
          rw [wallets] at hw
          rcases Table.mem_put.mp hw with rfl | ⟨hw, _⟩
          · have none : initial.wallets.find? (newWallet draws userId currency).id = none := by
              rw [Table.find?_eq_none]
              intro w hw same
              obtain ⟨w', hw', id⟩ := h.1 w hw
              exact fresh w' hw' (id.trans same)
            rw [flow_of_fresh sound fresh, Db.balanceOf, none]
            rfl
          · exact h.2 w hw
      | closed draws x hx _ _ _ wallets _ _ =>
          rw [wallets] at hw
          rcases Table.mem_put.mp hw with rfl | ⟨hw, _⟩
          · exact h.2 x hx
          · exact h.2 w hw
      | moved m posts =>
          have count := congrArg List.length posts.ledgerTransactions
          simp [quiet.transactions] at count

/-! ## Every reachable state -/

theorem Accounted.start (opening : Opening initial) : Accounted initial initial :=
  ⟨fun t ht => ⟨ht, fun r hr moved => (Borne.start opening).2 r hr (by simp [moved])⟩, fun t ht => .inl ht⟩

theorem Balanced.start (opening : Opening initial) : Balanced initial initial := by
  refine ⟨fun w hw => ⟨w, hw, rfl⟩, fun w hw => ?_⟩
  have still : initial.flow w.id = 0 := by
    simp [Db.flow, Db.paidIn, Db.transferredOut, Db.transferredIn, Db.reversedIn, Db.reversedOut, opening.payments,
      opening.transfers, opening.transferReversals]
  have found : initial.wallets.find? w.id = some w := Table.find?_key hw
  rw [still, Db.balanceOf, found, add_zero]
  rfl

/-- What a succeeded payment accounts for. -/
theorem Db.Sound.succeeded {db : Db} (sound : db.Sound) {p : Payment} (hp : p ∈ db.payments) (succeeded : p.status = .succeeded) :
    (Row.payment p).movement.isSome := by
  have state := Books.checked sound (r := .payment p) hp (c := ("Payment_state_check", p.stateCheck)) (by simp [Row.checks])
  simp only [Payment.stateCheck, succeeded, Bool.and_eq_true] at state
  rw [Row.movement, if_pos succeeded]
  exact state.1

/-- Where nothing calls `LedgerService.post` on its own: every ledger transaction since the opening is
accounted for by exactly one transfer, reversal or succeeded payment, which it bears out; each of
these records has such a transaction; and each wallet shows what it opened with and the records
have moved since. -/
theorem movements_explained {sha256Hex : String → String} {initial : Db}
    {c : Config Db Settings Row Key DbError HttpException AttemptOutcome Result Request} (opening : Opening initial)
    (h : (system sha256Hex initial).Reachable c)
    (ordinary : ∀ e ∈ c.log, ∀ draws input, e.request ≠ .post draws input) :
    let db := stateAt initial c.log c.log.length
    (∀ t ∈ db.ledgerTransactions, t ∈ initial.ledgerTransactions ∨
      ∃ r ∈ db, r.movement = some t.id ∧ Backed db r ∧ ∀ r' ∈ db, r'.movement = some t.id → r' = r) ∧
    (∀ t ∈ initial.ledgerTransactions, ∀ r ∈ db, r.movement ≠ some t.id) ∧
    (∀ t ∈ db.transfers, Backed db (.transfer t)) ∧ (∀ v ∈ db.transferReversals, Backed db (.transferReversal v)) ∧
    (∀ p ∈ db.payments, p.status = .succeeded → Backed db (.payment p)) ∧
    ∀ w ∈ db.wallets, w.currentBalanceMinor = initial.balanceOf w.id + db.flow w.id := by
  obtain ⟨sound, books, borne, accounted, balanced⟩ := (@reachable_booked initial _ c opening h
    (fun db => Accounted initial db ∧ Balanced initial db) ⟨.start opening, .start opening⟩ (by
      intro before after i ⟨e, he, request⟩ ⟨accounted, balanced⟩ commits
      have ordinary : ∀ draws input, i ≠ .post draws input := request ▸ ordinary e he
      have gains := commits.booked.gains commits.sound commits.borne.placed commits.preserves commits.later
      exact ⟨accounted.gains commits.borne commits.preserves commits.later gains ordinary,
        balanced.booked commits.sound commits.books commits.preserves commits.booked ordinary⟩)).1 c.log.length le_rfl
  refine ⟨fun t ht => ?_, fun t ht => (accounted.opening t ht).2, fun t ht => borne.backed _ ht rfl,
    fun v hv => borne.backed _ hv rfl, fun p hp succeeded => borne.backed _ hp (sound.succeeded hp succeeded),
    balanced.2⟩
  rcases accounted.explained t ht with old | ⟨r, hr, moved, only⟩
  · exact .inl old
  · exact .inr ⟨r, hr, moved, borne.backed r hr (by simp [moved]), only⟩

theorem movements_explained_sample : sampleState.ledgerTransactions.rows.length = 3 ∧
    sampleState.transferReversals.rows.map TransferReversal.transferId = sampleState.transfers.rows.map Transfer.id ∧
    (∀ t ∈ sampleState.ledgerTransactions, ∃ r ∈ sampleState, r.movement = some t.id ∧ Backed sampleState r) ∧
    ∀ w ∈ sampleState.wallets, w.currentBalanceMinor = migrated.balanceOf w.id + sampleState.flow w.id := by
  obtain ⟨_, _, transfers, reversals, _, _, ledgers, _⟩ := sampleLog_seven
  obtain ⟨c, reach, log, length, state⟩ := sampleState_reached
  have explained := movements_explained migrated_opening reach fun e he => sampleLog_ordinary (log ▸ he)
  rw [length, state] at explained
  obtain ⟨recorded, _, _, _, _, balances⟩ := explained
  refine ⟨ledgers, reversals.trans transfers.symm, fun t ht => ?_, balances⟩
  rcases recorded t ht with old | ⟨r, hr, moved, backed, _⟩
  · exact absurd old (Table.not_mem_empty t)
  · exact ⟨r, hr, moved, backed⟩

end

end Fintech
