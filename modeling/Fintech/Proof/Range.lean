import Fintech.Proof.Accounted
import Fintech.Proof.Consistency
import Mathlib.Algebra.Order.Group.Int

/-!
# Funded movements stay in range

The balances of a currency cancel out, so that what two wallets hold together is bounded by what the
clearing account owes. A funded transfer or reversal is therefore never refused for range.
-/

namespace Fintech
open Relational Transactional DoubleEntry

/-- The refusals that are about the range of a `BIGINT`. -/
def rangeErrors : List HttpException := [
  badRequest "Ledger posting amount exceeds the supported BIGINT range",
  conflict "Ledger posting would exceed the supported BIGINT range",
  badRequest "amountMinor exceeds the supported BIGINT range"]

/-- The clearing account is the only SYSTEM account of its currency, and has not reached the lower limit. -/
def Debitable (db : Db) (currency : Currency) : Prop :=
  ∃ clearing ∈ db.ledgerAccounts, clearing.systemKey = some (clearingKey currency) ∧ clearing.currency = currency ∧
    (∀ a ∈ db.ledgerAccounts, a.kind = .system → a.currency = currency → a = clearing) ∧
    -9223372036854775808 < clearing.balanceMinor

/-- The wallet covers the amount, in a currency that can be debited. -/
def Funded (db : Db) (walletId : String) (amountMinor : Int) : Prop :=
  ∃ w ∈ db.wallets, Uuid.parse? walletId = some w.id ∧ amountMinor ≤ w.currentBalanceMinor ∧ Debitable db w.currency

/-- The key has a record of the same request, which failed with `e`. -/
def Scope.RefusedBefore {ρ : Type} (scope : Scope ρ) (db : Db) (userId : Uuid) (key hash : String) (e : HttpException) : Prop :=
  ∃ existing, scope.findRecord userId key db = some existing ∧ existing.1.status = .failed ∧ existing.1.requestHash = hash ∧
    existing.1.responseStatus = some e.status ∧ existing.1.errorMessage = some e.message

/-- The balance or the amount that a row holds is a `BIGINT`. -/
def Row.InRange : Row → Prop
  | .wallet w => isBigInt w.currentBalanceMinor
  | .ledgerAccount a => isBigInt a.balanceMinor
  | .ledgerPosting p => isBigInt p.amountMinor
  | _ => True

/-! ## Two wallets -/

section
variable {db : Db}

theorem Consistent.account (h : Consistent db) {w : Wallet} (hw : w ∈ db.wallets) :
    ∃ a ∈ db.ledgerAccounts, a.id = w.ledgerAccountId ∧ a.kind = .wallet ∧ a.currency = w.currency ∧
      a.balanceMinor = w.currentBalanceMinor ∧ 0 ≤ w.currentBalanceMinor := by
  obtain ⟨a, ha, id, kind, currency, balance⟩ := h.books.owned w hw
  have nonnegative := Books.checked h.sound (r := .wallet w) hw
    (c := ("Wallet_nonnegative_balance_check", 0 ≤ w.currentBalanceMinor)) (by simp [Row.checks])
  exact ⟨a, ha, id, kind, currency.symm, balance.symm, by simpa using nonnegative⟩

/-- Two wallets of one currency hold less together than the lower limit lets the clearing account owe. -/
theorem Consistent.two_wallets (h : Consistent db) {v w : Wallet} (hv : v ∈ db.wallets) (hw : w ∈ db.wallets)
    (different : v.id ≠ w.id) (currency : v.currency = w.currency) (debitable : Debitable db w.currency) :
    v.currentBalanceMinor + w.currentBalanceMinor ≤ 9223372036854775807 := by
  obtain ⟨clearing, hc, key, ofCurrency, only, limit⟩ := debitable
  obtain ⟨a, ha, a_id, a_kind, a_currency, a_balance, _⟩ := h.account hv
  obtain ⟨b, hb, b_id, b_kind, b_currency, b_balance, _⟩ := h.account hw
  have system : clearing.kind = .system := by
    have policy := Books.checked h.sound (r := .ledgerAccount clearing) hc (c := ("LedgerAccount_kind_policy_check",
      (clearing.kind == .system && clearing.systemKey.isSome) ||
        (clearing.kind == .wallet && clearing.systemKey.isNone && !clearing.allowNegative))) (by simp [Row.checks])
    simpa [key] using policy
  have apart : ∀ x : LedgerAccount, x.kind = .wallet → x ≠ clearing := by
    rintro x kind rfl
    cases system.symm.trans kind
  have others : a ≠ b := by
    rintro rfl
    exact different ((h.sound.wallet_eq hv hw).mp (a_id.symm.trans b_id))
  have solvent : ∀ x ∈ db.ledgerAccounts.rows.filter fun x => x.currency = w.currency, x ≠ clearing → 0 ≤ x.balanceMinor := by
    intro x hx other
    obtain ⟨hx, same⟩ := List.mem_filter.mp hx
    cases kind : x.kind with
    | system => exact absurd (only x hx kind (by simpa using same)) other
    | wallet =>
        obtain ⟨u, hu, link⟩ := h.books.linked x hx kind
        obtain ⟨y, hy, id, _, _, balance, nonnegative⟩ := h.account hu
        obtain rfl := Table.eq_of_key_eq hy hx (id.trans link)
        omega
  have distinct : (db.ledgerAccounts.rows.filter fun x => x.currency = w.currency).Nodup :=
    db.ledgerAccounts.unique.of_map.filter _
  have bound := add_le_neg_of_sum_eq_zero distinct (h.books.conserved h.sound w.currency) solvent
    (List.mem_filter.mpr ⟨hc, by simpa using ofCurrency⟩) (List.mem_filter.mpr ⟨ha, by simpa using a_currency.trans currency⟩)
    (List.mem_filter.mpr ⟨hb, by simpa using b_currency⟩) (apart a a_kind) (apart b b_kind) others
  omega

/-- Moving what one wallet covers to another of its currency is not refused for range. -/
theorem Consistent.pair_in_range (h : Consistent db) {payer payee : Wallet} {amount : Int} {input : LedgerTransactionInput}
    {e : HttpException} (payer_mem : payer ∈ db.wallets) (payee_mem : payee ∈ db.wallets) (different : payer.id ≠ payee.id)
    (currency : payer.currency = payee.currency) (positive : 0 < amount) (covered : amount ≤ payer.currentBalanceMinor)
    (debitable : Debitable db payee.currency)
    (postings : ∀ p ∈ input.postings, p = ⟨payer.ledgerAccountId.text, -amount⟩ ∨ p = ⟨payee.ledgerAccountId.text, amount⟩)
    (failure : PostFailure db input e) : e ∉ rangeErrors := by
  have together := h.two_wallets payer_mem payee_mem different currency debitable
  obtain ⟨a, ha, a_id, _, _, a_balance, _⟩ := h.account payer_mem
  obtain ⟨b, hb, b_id, _, _, b_balance, nonnegative⟩ := h.account payee_mem
  have bigint : ∀ n : Int, -9223372036854775808 ≤ n → n ≤ 9223372036854775807 → isBigInt n := by
    intro n lower upper
    simp [isBigInt, lower, upper]
  cases failure with
  | missing => simp [rangeErrors, notFound, badRequest, conflict]
  | invalid invalid =>
      cases invalid_of_normalize invalid with
      | malformed mem =>
          have all : ∀ e ∈ malformedInputs, e ∉ rangeErrors := by decide
          exact all e mem
      | range p mem past =>
          refine absurd ?_ past
          rcases postings p mem with rfl | rfl
          · exact bigint _ (by dsimp only; omega) (by dsimp only; omega)
          · exact bigint _ (by dsimp only; omega) (by dsimp only; omega)
  | refused mem refused =>
      rename_i posting
      have named := List.mem_map_of_mem (f := LedgerPostingInput.accountId) mem
      cases LedgerService.refusal_of_nextBalance h.books.paired named refused with
      | missing _ => simp [rangeErrors, notFound, badRequest, conflict]
      | currency _ _ _ _ => simp [rangeErrors, badRequest, conflict]
      | inactive _ _ _ _ _ _ _ => simp [rangeErrors, badRequest, conflict]
      | funds _ _ _ _ _ _ => simp [rangeErrors, badRequest, conflict]
      | range x hx text _ past =>
          refine absurd ?_ past
          rcases postings posting mem with rfl | rfl
          · obtain rfl := Table.eq_of_key_eq hx ha (Uuid.ext (text.trans (congrArg Uuid.text a_id.symm)))
            exact bigint _ (by dsimp only; omega) (by dsimp only; omega)
          · obtain rfl := Table.eq_of_key_eq hx hb (Uuid.ext (text.trans (congrArg Uuid.text b_id.symm)))
            exact bigint _ (by dsimp only; omega) (by dsimp only; omega)

/-- The wallets of a transfer are of one currency. -/
theorem Consistent.transfer_currency (h : Consistent db) (borne : Borne db) {t : Transfer} (ht : t ∈ db.transfers)
    {v w : Wallet} (hv : v ∈ db.wallets) (v_id : v.id = t.sourceWalletId) (hw : w ∈ db.wallets)
    (w_id : w.id = t.destinationWalletId) : v.currency = w.currency := by
  cases borne.backed (.transfer t) ht rfl with
  | transfer source destination completed source_mem source_id owned destination_mem destination_id moves =>
      obtain rfl := Table.eq_of_key_eq source_mem hv (source_id.trans v_id.symm)
      obtain rfl := Table.eq_of_key_eq destination_mem hw (destination_id.trans w_id.symm)
      obtain ⟨x, hx, id, _, _, ofCurrency⟩ := moves.transaction
      have on_account {u : Wallet} (hu : u ∈ db.wallets) (amount : Int)
          (mem : (u.ledgerAccountId, amount) ∈ (db.postingsOf t.ledgerTransactionId).map fun p => (p.accountId, p.amountMinor)) :
          u.currency = x.currency := by
        obtain ⟨p, hp, same⟩ := List.mem_map.mp mem
        obtain ⟨hp, own⟩ := Db.mem_postingsOf.mp hp
        obtain ⟨a, ha, a_id, _, a_currency, _⟩ := h.account hu
        rw [← a_currency]
        exact h.books.currency p hp x hx (id.trans own.symm) a ha (a_id.trans (congrArg Prod.fst same).symm)
      rw [on_account source_mem (-t.amountMinor) (moves.postings.symm.subset (by simp)),
        on_account destination_mem t.amountMinor (moves.postings.symm.subset (by simp))]

theorem TransfersService.WorkFailure.in_range {draws : Draws} {senderUserId : Uuid} {request : NormalizedTransferRequest}
    {e : HttpException} (h : Consistent db) (positive : 0 < request.amountMinor)
    (funded : Funded db request.sourceWalletId request.amountMinor)
    (failure : WorkFailure db draws senderUserId request e) : e ∉ rangeErrors := by
  cases failure with
  | refused mem =>
      have all : ∀ e ∈ refusals, e ∉ rangeErrors := by
        simp [refusals, rangeErrors, notFound, badRequest, conflict]
      exact all e mem
  | unresolved _ _ => simp [rangeErrors, internalServerError, badRequest, conflict]
  | unposted source destination source_mem named _ destination_mem different currency failure =>
      obtain ⟨w, hw, text, covered, debitable⟩ := funded
      obtain rfl := Table.eq_of_key_eq hw source_mem (Option.some.inj (text.symm.trans named))
      refine h.pair_in_range source_mem destination_mem different currency positive covered (currency ▸ debitable) ?_ failure
      simp [ledgerInput]

theorem ReversalsService.WorkFailure.in_range {draws : Draws} {actorUserId : Uuid} {request : NormalizedReversalRequest}
    {e : HttpException} (h : Consistent db) (borne : Borne db) {t : Transfer} (ht : t ∈ db.transfers)
    (requested : Uuid.parse? request.transferId = some t.id) (funded : Funded db t.destinationWalletId.text t.amountMinor)
    (failure : WorkFailure db draws actorUserId request e) : e ∉ rangeErrors := by
  cases failure with
  | refused mem =>
      have all : ∀ e ∈ refusals, e ∉ rangeErrors := by
        simp [refusals, rangeErrors, notFound, badRequest, conflict]
      exact all e mem
  | unposted t' source destination transfer_mem named _ completed source_mem source_id destination_mem destination_id failure =>
      obtain rfl := Table.eq_of_key_eq transfer_mem ht (Option.some.inj (named.symm.trans requested))
      obtain ⟨w, hw, text, covered, debitable⟩ := funded
      rw [Uuid.parse?_text, Option.some.injEq] at text
      obtain rfl := Table.eq_of_key_eq hw destination_mem (text.symm.trans destination_id.symm)
      have positive : 0 < t'.amountMinor := by
        have := Books.checked h.sound (r := .transfer t') ht (c := ("Transfer_positive_amount_check", 0 < t'.amountMinor))
          (by simp [Row.checks])
        simpa using this
      have different : t'.sourceWalletId ≠ t'.destinationWalletId := by
        have := Books.checked h.sound (r := .transfer t') ht
          (c := ("Transfer_distinct_wallets_check", t'.sourceWalletId != t'.destinationWalletId)) (by simp [Row.checks])
        simpa using this
      have currency : source.currency = w.currency := h.transfer_currency borne ht source_mem source_id hw destination_id
      have debitable' : Debitable db source.currency := currency ▸ debitable
      refine h.pair_in_range hw source_mem ?_ currency.symm positive covered debitable' ?_ failure
      · rw [destination_id, source_id]
        exact different.symm
      · simp [ledgerInput, or_comm]

end

/-! ## The attempts -/

/-- A text that fits is taken whole. -/
theorem jsTake_eq {n : Nat} {s : String} (fits : jsLength (jsTake n s) + 2 ≤ n) : jsTake n s = s := by
  have whole : ∀ (cs : List Char) (n : Nat), ((jsTake.go n cs).map utf16Units).sum + 2 ≤ n → jsTake.go n cs = cs := by
    intro cs
    induction cs with
    | nil => exact fun n _ => by cases n <;> rfl
    | cons c cs ih =>
        intro n fits
        have units : utf16Units c ≤ 2 := by
          unfold utf16Units
          split <;> omega
        have short : utf16Units c ≤ n := by omega
        rw [jsTake.go, if_pos short] at fits ⊢
        rw [List.map_cons, List.sum_cons] at fits
        rw [ih (n - utf16Units c) (by omega)]
  have taken : (jsTake n s).toList = jsTake.go n s.toList := by rw [jsTake, String.toList_ofList]
  rw [jsLength, taken] at fits
  exact String.toList_inj.mp (taken.trans (whole s.toList n fits))

section
variable {ρ : Type} {scope : Scope ρ} {s : Db} {draws : Draws} {userId : Uuid} {key hash : String}

theorem Scope.refusedBefore_of_replay {existing : IdempotencyRecord × Option ρ} {e : HttpException}
    (found : scope.findRecord userId key s = some existing)
    (replayed : scope.resolveExistingIdempotency existing hash = .ok (.error e)) : scope.RefusedBefore s userId key hash e := by
  obtain ⟨same, replayed⟩ := bind_unit_eq_ok.mp replayed
  rw [failIf_eq_ok, not_not] at same
  refine ⟨existing, found, ?_⟩
  split at replayed
  · split at replayed <;> cases replayed
  · rename_i failed
    split at replayed
    · rename_i status message stored text
      cases replayed
      exact ⟨failed, same, (Option.filter_eq_some_iff.mp stored).1, (Option.filter_eq_some_iff.mp text).1⟩
    · cases replayed
  · cases replayed

/-- Where the work does not fail for range, only an earlier refusal does. -/
theorem Scope.attempt_in_range {work : Tx ρ} {Does : ρ → List Write → Prop} {Fails : HttpException → Prop}
    (keeps : ∀ r record, (scope.complete r record).id = record.id)
    (works : Works s (scope.claim draws userId key hash) work Does Fails) (range : ∀ e, Fails e → e ∉ rangeErrors)
    (resolves : ∀ existing e, scope.findRecord userId key s = some existing →
      scope.resolveExistingIdempotency existing hash = .error e → e ∉ rangeErrors) :
    (Tx.committing (scope.attempt draws userId key hash work)).Ensures (fun _ => s)
      (fun r _ => ∀ e ∈ rangeErrors, r = .error e ∨ r = .ok (.error e) → scope.RefusedBefore s userId key hash e)
      { locals := {} } := by
  refine ensures_committing_result (ensures_attempt keeps works (.start {}) ?_ ?_)
  · rintro _ e thrown e' mem (same | same)
    · cases same
      cases thrown with
      | unresolved found unresolved => exact absurd mem (resolves _ e found unresolved)
      | failed _ fails _ => exact absurd mem (range e fails)
    · cases same
  · rintro _ outcome ws attempted _ e mem (same | same)
    · cases same
    · cases same
      cases attempted with
      | replayed existing _ found replayed => exact Scope.refusedBefore_of_replay found replayed
      | refused e' _ fails _ _ =>
          have fits : ∀ e ∈ rangeErrors, jsLength e.message + 2 ≤ 255 := by decide
          have message : jsTake 255 e'.message = e'.message := jsTake_eq (fits ⟨e'.status, jsTake 255 e'.message⟩ mem)
          rw [message] at mem
          exact absurd mem (range e' fails)

end

theorem TransfersService.in_range_of_normalize {input : CreateTransferDto} {amount : Int} {e : HttpException}
    (value : bigInt? input.amountMinor = some amount) (positive : 0 < amount) (bigint : amount ≤ 9223372036854775807)
    (h : normalizeTransferRequest input = .error e) : e ∉ rangeErrors := by
  rcases failIf_bind_eq_error.mp h with ⟨_, rfl⟩ | ⟨_, h⟩
  · simp [rangeErrors, badRequest, conflict]
  rw [value] at h
  rcases failIf_bind_eq_error.mp h with ⟨out, _⟩ | ⟨_, h⟩
  · unfold maxMinorUnits at out
    omega
  · cases h

theorem TransfersService.amount_of_normalize {input : CreateTransferDto} {request : NormalizedTransferRequest}
    (h : normalizeTransferRequest input = .ok request) : request.sourceWalletId = toLowerCase input.sourceWalletId ∧
      bigInt? input.amountMinor = some request.amountMinor ∧ 0 < request.amountMinor := by
  obtain ⟨_, h⟩ := bind_unit_eq_ok.mp h
  split at h
  · rename_i amount value
    obtain ⟨range, h⟩ := bind_unit_eq_ok.mp h
    rw [failIf_eq_ok, not_or, not_le, not_lt] at range
    cases h
    exact ⟨rfl, value, range.1⟩
  · cases h

/-! ## What is written -/

theorem Accepts.checked {db : Db} {ws : List Write} (h : Accepts db ws) : ∀ w ∈ ws, w.row.accept = .ok () := by
  induction ws generalizing db with
  | nil => simp
  | cons w ws ih =>
      intro x hx
      rcases List.mem_cons.mp hx with rfl | hx
      · cases x with
        | insert r => exact h.1.check
        | update old new => exact h.1.check
      · exact ih h.2 x hx

theorem Row.inRange_of_accept {r : Row} (h : r.accept = .ok ()) : r.InRange := by
  have passed := (Row.accept_eq_ok.mp h).2
  cases r with
  | wallet w => exact passed (bigint w.currentBalanceMinor) (by simp [Row.checks])
  | ledgerAccount a => exact passed (bigint a.balanceMinor) (by simp [Row.checks])
  | ledgerPosting p => exact passed (bigint p.amountMinor) (by simp [Row.checks])
  | _ => trivial

/-- While the clearing account of a currency can be debited, a funded transfer or reversal is refused for range only where
its key has a record of the same request that failed so before. Whatever is committed is in range. -/
theorem funded_movements_in_range {sha256Hex : String → String}
    {c : Config Db Settings Row Key DbError HttpException AttemptOutcome Result Request}
    (h : (system sha256Hex migrated).Reachable c) :
    (∀ i ≤ c.log.length, ∀ draws senderUserId header input isolation body amount,
      Body sha256Hex (.createTransfer draws senderUserId header input) isolation body →
      bigInt? input.amountMinor = some amount →
      Funded (stateAt migrated c.log i) (toLowerCase input.sourceWalletId) amount →
      ∀ result view, Prog.run (fun _ => stateAt migrated c.log i) body { locals := {} } = .ok (result, view) →
      ∀ e ∈ rangeErrors, result = .error e ∨ result = .ok (.error e) →
      ∃ key request, normalizeIdempotencyKey header = .ok key ∧ TransfersService.normalizeTransferRequest input = .ok request ∧
        TransfersService.scope.RefusedBefore (stateAt migrated c.log i) senderUserId key
          (TransfersService.hashRequest sha256Hex request) e) ∧
    (∀ i ≤ c.log.length, ∀ input : TransfersService.CreateTransferDto, ∀ amount, bigInt? input.amountMinor = some amount →
      0 < amount → Funded (stateAt migrated c.log i) (toLowerCase input.sourceWalletId) amount →
      ∀ e, TransfersService.normalizeTransferRequest input = .error e → e ∉ rangeErrors) ∧
    (∀ i ≤ c.log.length, ∀ draws actorUserId transferId header input isolation body,
      Body sha256Hex (.createReversal draws actorUserId transferId header input) isolation body →
      ∀ t ∈ (stateAt migrated c.log i).transfers, Uuid.parse? (toLowerCase transferId) = some t.id →
      Funded (stateAt migrated c.log i) t.destinationWalletId.text t.amountMinor →
      ∀ result view, Prog.run (fun _ => stateAt migrated c.log i) body { locals := {} } = .ok (result, view) →
      ∀ e ∈ rangeErrors, result = .error e ∨ result = .ok (.error e) → ∃ key, normalizeIdempotencyKey header = .ok key ∧
        ReversalsService.scope.RefusedBefore (stateAt migrated c.log i) actorUserId key
          (ReversalsService.hashRequest sha256Hex (ReversalsService.normalizeRequest transferId input)) e) ∧
    ∀ entry ∈ c.log, ∀ r ∈ entry.writes, r.InRange := by
  refine ⟨?transfers, ?requests, ?reversals, ?rows⟩
  case transfers =>
    intro i le draws senderUserId header input isolation body amount isBody value funded result view ran e mem failed
    cases isBody with
    | @transfer _ _ _ _ key request hkey hrequest =>
        obtain ⟨source, value', positive⟩ := TransfersService.amount_of_normalize hrequest
        obtain rfl := Option.some.inj (value.symm.trans value')
        rw [← source] at funded
        have consistent := reachable_consistent migrated_opening h le
        have attempt := Scope.attempt_in_range (fun _ _ => rfl) (TransfersService.works (stateAt migrated c.log i) draws
          senderUserId request (TransfersService.scope.claim draws senderUserId key
            (TransfersService.hashRequest sha256Hex request))) (fun e failure => failure.in_range consistent positive funded)
            fun existing e found unresolved => by
              rw [consistent.transfer_resolves found unresolved]
              simp [rangeErrors, conflict, badRequest, TransfersService.scope]
        exact ⟨key, request, hkey, hrequest, Prog.wp_of_run attempt.wp ran e mem failed⟩
  case requests =>
    intro i le input amount value positive funded e failed
    obtain ⟨w, hw, _, covered, _⟩ := funded
    have range := Books.checked (reachable_consistent migrated_opening h le).sound (r := .wallet w) hw
      (c := bigint w.currentBalanceMinor) (by simp [Row.checks])
    simp only [bigint, isBigInt, Bool.and_eq_true, decide_eq_true_eq] at range
    exact TransfersService.in_range_of_normalize value positive (by omega) failed
  case reversals =>
    intro i le draws actorUserId transferId header input isolation body isBody t ht named funded result view ran e mem failed
    have borne : Borne (stateAt migrated c.log i) :=
      ((@reachable_booked migrated _ c migrated_opening h (fun _ => True) trivial fun _ _ _ _ _ _ => trivial).1 i le).2.2.1
    cases isBody with
    | @reversal _ _ _ _ _ key hkey =>
        have consistent := reachable_consistent migrated_opening h le
        have requested : Uuid.parse? (ReversalsService.normalizeRequest transferId input).transferId = some t.id := by
          simpa only [ReversalsService.normalizeRequest] using named
        generalize ReversalsService.normalizeRequest transferId input = request at requested ran
        have range : ∀ e, ReversalsService.WorkFailure (stateAt migrated c.log i) draws actorUserId request e →
            e ∉ rangeErrors := fun e failure => failure.in_range consistent borne ht requested funded
        have attempt := Scope.attempt_in_range (fun _ _ => rfl) (ReversalsService.works (stateAt migrated c.log i) draws
          actorUserId request (ReversalsService.scope.claim draws actorUserId key
            (ReversalsService.hashRequest sha256Hex request))) range fun existing e found unresolved => by
              rw [consistent.reversal_resolves found unresolved]
              simp [rangeErrors, conflict, badRequest, ReversalsService.scope]
        exact ⟨key, hkey, Prog.wp_of_run attempt.wp ran e mem failed⟩
  case rows =>
    intro entry mem r hr
    obtain ⟨j, lt, rfl⟩ := List.mem_iff_getElem.mp mem
    obtain ⟨_, _, _, ws, _, rows, accepts, _⟩ := done_of_certified (h.certified lt)
    rw [rows] at hr
    obtain ⟨w, hw, rfl⟩ := List.mem_map.mp hr
    exact Row.inRange_of_accept (accepts.checked w hw)

/-- A user registers, and the clearing account funds the wallet. -/
def sampleFundedCalls : List Request := [
  sampleUser 0 "ada@example.com",
  .post (sampleDraws 1)
    { reference := "funding-1", currency := .usd,
      postings := [⟨usdClearing.id.text, -5000⟩, ⟨((sampleDraws 0).id .ledgerAccount).text, 5000⟩] }]

def sampleFundedLog : List (Entry Request Row) := (system sampleHash migrated).performAll sampleFundedCalls [] 0

theorem sampleFundedLog_funded : sampleFundedLog.length = 2 ∧
    Funded (stateAt migrated sampleFundedLog 2) (toLowerCase (sampleUuid 0 1).text) 2500 := by
  change _ ∧ ∃ w ∈ (stateAt migrated sampleFundedLog 2).wallets.rows,
    Uuid.parse? (toLowerCase (sampleUuid 0 1).text) = some w.id ∧ 2500 ≤ w.currentBalanceMinor ∧
    ∃ clearing ∈ (stateAt migrated sampleFundedLog 2).ledgerAccounts.rows,
      clearing.systemKey = some (clearingKey w.currency) ∧ clearing.currency = w.currency ∧
      (∀ a ∈ (stateAt migrated sampleFundedLog 2).ledgerAccounts.rows, a.kind = .system → a.currency = w.currency →
        a = clearing) ∧ -9223372036854775808 < clearing.balanceMinor
  decide

theorem funded_movements_in_range_sample : ∃ db : Db, Funded db (toLowerCase (sampleUuid 0 1).text) 2500 ∧
    ∀ draws senderUserId header destinationWalletId isolation body,
      Body sampleHash (.createTransfer draws senderUserId header ⟨(sampleUuid 0 1).text, destinationWalletId, none, "2500"⟩)
        isolation body →
      ∀ result view, Prog.run (fun _ => db) body { locals := {} } = .ok (result, view) →
      ∀ e ∈ rangeErrors, result = .error e ∨ result = .ok (.error e) →
      ∃ key request, normalizeIdempotencyKey header = .ok key ∧ TransfersService.normalizeTransferRequest
        ⟨(sampleUuid 0 1).text, destinationWalletId, none, "2500"⟩ = .ok request ∧ TransfersService.scope.RefusedBefore db senderUserId
          key (TransfersService.hashRequest sampleHash request) e := by
  obtain ⟨c, reach, log⟩ := System.reachable_performAll (system sampleHash migrated) sampleFundedCalls
  obtain ⟨length, funded⟩ := sampleFundedLog_funded
  have inRange := (funded_movements_in_range reach).1 c.log.length le_rfl
  rw [log, ← sampleFundedLog, length] at inRange
  refine ⟨_, funded, fun draws senderUserId header destinationWalletId isolation body isBody => ?_⟩
  have value : bigInt? "2500" = some 2500 := by decide
  exact inRange draws senderUserId header _ isolation body 2500 isBody value funded

/-- The first wallet holds all that the clearing account may owe; of two transfers there and back, the first is to be
reversed while the first wallet is full, and again when the second holds what it covers. -/
def sampleRefusedReversal (n : Nat) : Request :=
  .createReversal (sampleDraws n) (sampleUuid 0 0) (sampleUuid 3 6).text (some "reversal-1") {}

def sampleMovement (n sender receiver : Nat) (key : String) : Request :=
  .createTransfer (sampleDraws n) (sampleUuid sender 0) (some key)
    { sourceWalletId := (sampleUuid sender 1).text, destinationWalletId := some (sampleUuid receiver 1).text, amountMinor := "1" }

def sampleRangeCalls : List Request := [
  sampleUser 0 "ada@example.com",
  sampleUser 1 "obi@example.com",
  .post (sampleDraws 2)
    { reference := "funding-1", currency := .usd,
      postings := [⟨usdClearing.id.text, -9223372036854775807⟩,
        ⟨((sampleDraws 0).id .ledgerAccount).text, 9223372036854775807⟩] },
  sampleMovement 3 0 1 "transfer-1",
  sampleMovement 4 1 0 "transfer-2",
  sampleRefusedReversal 5,
  sampleMovement 6 0 1 "transfer-3"]

def sampleRangeLog : List (Entry Request Row) := (system sampleHash migrated).performAll sampleRangeCalls [] 0

/-- The reversal again, with the key that was refused. -/
def sampleRetry : Tx AttemptOutcome :=
  let request := ReversalsService.normalizeRequest (sampleUuid 3 6).text {}
  Tx.committing (ReversalsService.scope.attempt (sampleDraws 7) (sampleUuid 0 0) "reversal-1"
    (ReversalsService.hashRequest sampleHash request) (ReversalsService.work (sampleDraws 7) (sampleUuid 0 0) request))

theorem sampleRangeLog_funded : sampleRangeLog.length = 7 ∧
    (∃ t ∈ (stateAt migrated sampleRangeLog 7).transfers, Uuid.parse? (toLowerCase (sampleUuid 3 6).text) = some t.id ∧
      Funded (stateAt migrated sampleRangeLog 7) t.destinationWalletId.text t.amountMinor) ∧
    (Prog.run (fun _ => stateAt migrated sampleRangeLog 7) sampleRetry { locals := {} }
      matches .ok (.ok (.error ⟨409, "Ledger posting would exceed the supported BIGINT range"⟩), _)) := by
  change _ ∧ (∃ t ∈ (stateAt migrated sampleRangeLog 7).transfers.rows, _ ∧
    ∃ w ∈ (stateAt migrated sampleRangeLog 7).wallets.rows, Uuid.parse? t.destinationWalletId.text = some w.id ∧
    t.amountMinor ≤ w.currentBalanceMinor ∧ ∃ clearing ∈ (stateAt migrated sampleRangeLog 7).ledgerAccounts.rows,
      clearing.systemKey = some (clearingKey w.currency) ∧ clearing.currency = w.currency ∧
      (∀ a ∈ (stateAt migrated sampleRangeLog 7).ledgerAccounts.rows, a.kind = .system → a.currency = w.currency →
        a = clearing) ∧ -9223372036854775808 < clearing.balanceMinor) ∧ _
  decide +kernel

/-- Without that exception it fails: the refusal is replayed although the receiver has been funded since. -/
theorem funded_reversal_refused : ¬ ∀ c, (system sampleHash migrated).Reachable c → ∀ i ≤ c.log.length,
    ∀ draws actorUserId transferId header input isolation body,
      Body sampleHash (.createReversal draws actorUserId transferId header input) isolation body →
      ∀ t ∈ (stateAt migrated c.log i).transfers, Uuid.parse? (toLowerCase transferId) = some t.id →
      Funded (stateAt migrated c.log i) t.destinationWalletId.text t.amountMinor →
      ∀ result view, Prog.run (fun _ => stateAt migrated c.log i) body { locals := {} } = .ok (result, view) →
      ∀ e ∈ rangeErrors, ¬ (result = .error e ∨ result = .ok (.error e)) := by
  intro never
  obtain ⟨c, reach, log⟩ := System.reachable_performAll (system sampleHash migrated) sampleRangeCalls
  obtain ⟨length, ⟨t, ht, named, funded⟩, refused⟩ := sampleRangeLog_funded
  have key : normalizeIdempotencyKey (some "reversal-1") = .ok "reversal-1" := by decide
  specialize never c reach c.log.length le_rfl (sampleDraws 7) (sampleUuid 0 0) (sampleUuid 3 6).text (some "reversal-1") {}
    .serializable sampleRetry (.reversal key)
  rw [log, ← sampleRangeLog, length] at never
  cases ran : Prog.run (fun _ => stateAt migrated sampleRangeLog 7) sampleRetry { locals := {} } with
  | error d => simp [ran] at refused
  | ok done =>
      obtain ⟨result, view⟩ := done
      rw [ran] at refused
      split at refused
      · rename_i same
        cases same
        exact never t ht named funded _ _ ran _ (by simp [rangeErrors, conflict]) (.inr rfl)
      · cases refused

end Fintech
