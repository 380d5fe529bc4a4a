import Fintech.Proof.Checkouts
import Fintech.Proof.Execution
import Fintech.Proof.Reversals

/-!
# Amounts that are accepted, stored and answered

`PaymentsService.create` accepts exactly the numerals of its gate. Over every run, what a transfer or a payment stores and
answers prints as it was sent, and a settlement is refused for its amount exactly when the integers differ.
-/

namespace Fintech
open Relational Transactional

/-! ## Creating a payment -/

namespace PaymentsService

/-- The fingerprint of a request to pay. -/
abbrev hashRequest (sha256Hex : String → String) (walletId amountMinor : String) : String :=
  sha256Hex (jsonObject [("walletId", some walletId), ("amountMinor", some amountMinor)])

/-- The user can open a payment under the key: the wallet is theirs and active, and the key and what is drawn are new. -/
structure Opens (db : Db) (draws : Draws) (usePaystack : Bool) (userId : Uuid) (key walletId : String) (wallet : Wallet) :
    Prop where
  named : Uuid.parse? (toLowerCase walletId) = some wallet.id
  mem : wallet ∈ db.wallets
  owned : wallet.userId = userId
  active : wallet.status = .active
  currency : usePaystack → wallet.currency = .ngn
  unused : ∀ p ∈ db.payments, ¬ (p.userId = userId ∧ p.idempotencyKey = key)
  fresh : ∀ p ∈ db.payments, p.id ≠ draws.id .payment
  reference : ∀ p ∈ db.payments, p.reference ≠ "payment" ++ (if usePaystack then "-" else ":") ++ draws.reference.text

/-- The bound of the numerals that are accepted. -/
def bound (usePaystack : Bool) : Int := if usePaystack then maxSafeInteger else maxMinorUnits

section
variable {sha256Hex : String → String} {db : Db} {draws : Draws} {usePaystack : Bool} {userId : Uuid} {header : Option String}
  {key : String} {input : CreatePaymentDto} {wallet : Wallet}

theorem key_found (sent : header.map jsTrim = some key) (valid : isIdempotencyKey key) :
    (header.map jsTrim).filter (fun key => isIdempotencyKey key) = some key := by
  rw [sent]
  exact Option.filter_some_pos valid

theorem normalize_eq_ok (sent : header.map jsTrim = some key) (valid : isIdempotencyKey key)
    (numeral : IsNumeral maxMinorUnits input.amountMinor) :
    normalize sha256Hex header input = .ok (key, hashRequest sha256Hex (toLowerCase input.walletId) input.amountMinor) := by
  obtain ⟨r, normal⟩ := (@amount_gate sha256Hex header key input sent valid).mpr numeral
  rw [normalize, key_found sent valid] at normal ⊢
  obtain ⟨accepted, _⟩ := bind_unit_eq_ok.mp normal
  exact bind_unit_eq_ok.mpr ⟨accepted, rfl⟩

/-- Every other amount is refused before the database is asked. -/
theorem create_refuses (sent : header.map jsTrim = some key) (valid : isIdempotencyKey key)
    (other : ¬ IsNumeral maxMinorUnits input.amountMinor) : create sha256Hex draws usePaystack userId header input =
      .done (failed (badRequest "amountMinor exceeds the positive BIGINT range")) := by
  have numeral := isNumeral_iff 19 input.amountMinor maxMinorUnits (by decide) (by decide)
  rw [← numeral, Classical.not_and_iff_not_or_not] at other
  have refused : normalize sha256Hex header input = .error (badRequest "amountMinor exceeds the positive BIGINT range") := by
    rw [normalize, key_found sent valid]
    exact failIf_bind_eq_error.mpr (.inl ⟨other, rfl⟩)
  rw [create, refused]

/-- The payment that is opened. -/
abbrev opened (sha256Hex : String → String) (draws : Draws) (usePaystack : Bool) (userId : Uuid) (key : String)
    (input : CreatePaymentDto) (wallet : Wallet) : Payment :=
  intent draws usePaystack wallet userId key (hashRequest sha256Hex (toLowerCase input.walletId) input.amountMinor)
    ((bigInt? input.amountMinor).getD 0)

theorem isText_of_all {s : String} {p : Char → Bool} (plain : p '\x00' = false) (h : ∀ c ∈ s.toList, p c) : isText s := by
  rw [isText, List.all_eq_true]
  intro c hc
  rw [bne_iff_ne]
  rintro rfl
  exact absurd (h _ hc) (by simp [plain])

theorem isText_of_isIdempotencyKey {s : String} (h : isIdempotencyKey s) : isText s := by
  simp only [isIdempotencyKey, Bool.and_eq_true, List.all_eq_true] at h
  refine isText_of_all ?_ h.2
  decide

theorem isText_of_isSha256Hex {s : String} (h : isSha256Hex s) : isText s := by
  simp only [isSha256Hex, Bool.and_eq_true, List.all_eq_true] at h
  exact isText_of_all rfl h.2

theorem isText_reference (word : String) (id : Uuid) (plain : isText word) : isText (word ++ id.text) := by
  rw [isText, String.toList_append, List.all_append, ← isText, plain, Bool.true_and]
  refine isText_of_all (p := fun c => c == '-' || isLowerHex c) rfl fun c hc => ?_
  rcases mem_of_isUuidText id.canonical.1 hc with rfl | hex
  · rfl
  · simp [hex]

theorem Opens.executed (sound : db.Sound)
    (hex : isSha256Hex (hashRequest sha256Hex (toLowerCase input.walletId) input.amountMinor)) (valid : isIdempotencyKey key)
    (opens : Opens db draws usePaystack userId key input.walletId wallet) (numeral : IsNumeral maxMinorUnits input.amountMinor) :
    (Write.insert (.payment (opened sha256Hex draws usePaystack userId key input wallet))).Executed { paymentWrite := true } db := by
  obtain ⟨n, value, _, one, le⟩ := numeral.value
  have word : isText ("payment" ++ if usePaystack then "-" else ":") := by cases usePaystack <;> decide
  have short : (("payment" ++ if usePaystack then "-" else ":") ++ draws.reference.text).length ≤ 120 := by
    rw [String.length_append, length_of_isUuidText draws.reference.canonical.1]
    cases usePaystack <;> decide
  have amount : (opened sha256Hex draws usePaystack userId key input wallet).amountMinor = n := by simp [opened, intent, value]
  have before : beforeInsert db { paymentWrite := true }
      (.payment (opened sha256Hex draws usePaystack userId key input wallet)) = .ok () := rfl
  refine ⟨⟨⟨db, _, before⟩, ?check, ?fresh, ?referenced⟩, before⟩
  case check =>
    refine Row.accept_eq_ok.mpr ⟨?_, ?_⟩
    · simp only [Row.texts, List.mem_cons, List.not_mem_nil, or_false, forall_eq_or_imp, forall_eq]
      exact ⟨isText_reference _ _ word, isText_of_isIdempotencyKey valid, isText_of_isSha256Hex hex⟩
    · simp only [Row.checks, List.mem_cons, List.not_mem_nil, or_false, forall_eq_or_imp, forall_eq, amount]
      refine ⟨by simpa [varchar, intent] using short, ?_, decide_eq_true (by omega), hex, valid, rfl⟩
      simp only [bigint, isBigInt, maxMinorUnits] at le ⊢
      simp
      omega
  case fresh =>
    intro k hk
    refine Slice.payments.free (Row.table_of_mem_keys hk) fun p hp mem => ?_
    have keys : k = .row .payment (draws.id .payment) ∨ k = .paymentReference (opened sha256Hex draws usePaystack userId key
        input wallet).reference ∨ k = .paymentKey userId key := by
      simpa [Row.keys, Row.slots, Row.pk, intent] using hk
    have own : k = .row .payment p.id ∨ k = .paymentReference p.reference ∨ k = .paymentKey p.userId p.idempotencyKey ∨
        ∃ id, k = .paymentLedger id := by
      simp [Row.keys, Row.slots, Row.pk] at mem
      grind
    rcases keys with rfl | rfl | rfl
    · have same : draws.id .payment = p.id := by simpa using own
      exact opens.fresh p hp same.symm
    · have same : (opened sha256Hex draws usePaystack userId key input wallet).reference = p.reference := by simpa using own
      exact opens.reference p hp same.symm
    · have same : userId = p.userId ∧ key = p.idempotencyKey := by simpa using own
      exact opens.unused p hp ⟨same.1.symm, same.2.symm⟩
  case referenced =>
    have user : db.taken (.row .user wallet.userId) :=
      sound.referenced (.wallet wallet) opens.mem _ (by simp [Row.references])
    have wallet' : db.taken (.row .wallet wallet.id) := Slice.wallets.taken opens.mem
    simpa [Row.references, intent, opens.owned ▸ user] using wallet'

/-- The gate of the provider, and the wallet's. -/
theorem Opens.validates (opens : Opens db draws usePaystack userId key input.walletId wallet) :
    (if usePaystack then validateIntent input.amountMinor wallet.currency else .ok ()) = .ok () ∧
      IsNumeral maxMinorUnits input.amountMinor ↔ IsNumeral (bound usePaystack) input.amountMinor := by
  cases usePaystack with
  | false => simp [bound]
  | true =>
      rw [if_pos rfl, opens.currency rfl, paystack_gate]
      refine and_iff_left_of_imp fun ⟨n, one, le, text⟩ => ⟨n, one, ?_, text⟩
      simp only [maxSafeInteger, maxMinorUnits] at le ⊢
      omega

theorem Opens.findByKey_eq_none (opens : Opens db draws usePaystack userId key input.walletId wallet) :
    findByKey userId key db = none := by
  refine List.find?_eq_none.mpr fun p hp => ?_
  simpa using opens.unused p hp

/-- A pending payment of an owned wallet may be committed. -/
theorem Opens.commits (opens : Opens db draws usePaystack userId key input.walletId wallet) {p : Payment}
    (same : p = opened sha256Hex draws usePaystack userId key input wallet) : atCommit (db.put (.payment p)) (.payment p) = .ok () := by
  have there : (db.put (.payment p)).payments.find? p.id = some p := Table.find?_put_self _ p
  have wallet' : (db.put (.payment p)).wallets.find? p.walletId = some wallet := by
    subst same
    exact Table.find?_key opens.mem
  change validatePaymentIntegrity _ p = .ok ()
  rw [validatePaymentIntegrity, there]
  simp only [wallet']
  subst same
  refine bind_unit_eq_ok.mpr ⟨failIf_eq_ok.mpr ?_, rfl⟩
  simp [intent, opens.owned]

theorem runs_createPayment (sound : db.Sound)
    (hex : isSha256Hex (hashRequest sha256Hex (toLowerCase input.walletId) input.amountMinor)) (valid : isIdempotencyKey key)
    (opens : Opens db draws usePaystack userId key input.walletId wallet)
    (numeral : IsNumeral (bound usePaystack) input.amountMinor) {p : Payment}
    (same : p = opened sha256Hex draws usePaystack userId key input wallet) :
    Tx.Runs db (Tx.committing do
      let payment ← createIntent draws usePaystack userId key
        (hashRequest sha256Hex (toLowerCase input.walletId) input.amountMinor) (toLowerCase input.walletId) input.amountMinor
      return (.ok (.payment payment) : AttemptOutcome))
      (fun r v => r = .ok (.ok (.payment p)) ∧ v.writes = [.payment p]) { locals := {} } := by
  obtain ⟨validates, inside⟩ := opens.validates.mpr numeral
  have found : findWallet (toLowerCase input.walletId) userId db = .ok (some wallet) := by
    refine bind_eq_ok.mpr ⟨wallet.id, castUuid_eq_ok.mpr opens.named, ?_⟩
    have there : db.wallets.find? wallet.id = some wallet := Table.find?_key opens.mem
    rw [there, Option.filter_some_pos (by simpa using opens.owned)]
    rfl
  have executed : (Write.insert (.payment (opened sha256Hex draws usePaystack userId key input wallet))).Executed
      { paymentWrite := true } db := opens.executed sound hex valid inside
  have commits := opens.commits same
  rw [← same] at executed
  have intends : (createIntent draws usePaystack userId key (hashRequest sha256Hex (toLowerCase input.walletId) input.amountMinor)
      (toLowerCase input.walletId) input.amountMinor).Runs db (fun r v =>
        r = .ok p ∧ Stands { paymentWrite := true } v [.insert (.payment p)]) { locals := {} } := by
    refine runs_read (.start {}) fun v₁ h₁ => ?_
    rw [Db.write_nil, opens.findByKey_eq_none]
    refine runs_query h₁ found fun v₂ h₂ => ?_
    refine runs_orThrow rfl (runs_throwIf (not_not.mpr opens.active) (runs_lift validates ?_))
    refine runs_setConfig h₂ rfl fun v₃ h₃ => ?_
    subst same
    exact runs_create h₃ executed fun v₄ h₄ => runs_pure ⟨rfl, h₄⟩
  refine runs_bind (a := fun r v => r = .ok (.ok (.payment p)) ∧ Stands { paymentWrite := true } v [.insert (.payment p)])
    (runs_bind intends ?_ fun e v' failed => nomatch failed.1) ?_ fun e v' failed => nomatch failed.1
  · rintro _ v₁ ⟨same, h₁⟩
    cases same
    exact runs_pure ⟨rfl, h₁⟩
  · rintro _ v₁ ⟨same, h₁⟩
    cases same
    refine runs_exec (b := ()) (e := { locals := v₁.locals }) ?_ (runs_pure ⟨rfl, ?_⟩)
    · rw [h₁.seen, h₁.locals]
      refine bind_eq_ok.mpr ⟨(), ?_, rfl⟩
      exact bind_eq_ok.mpr ⟨(), commits, rfl⟩
    · rw [View.after_writes, h₁.writes]
      rfl

theorem currency_of_validateIntent {amountMinor : String} {currency : Currency}
    (valid : validateIntent amountMinor currency = .ok ()) : currency = .ngn := by
  rw [validateIntent, failIf_eq_ok, not_or, not_not] at valid
  exact valid.1

theorem bound_of_validates {currency : Currency} (validates : usePaystack → validateIntent input.amountMinor currency = .ok ())
    (inside : IsNumeral maxMinorUnits input.amountMinor) : IsNumeral (bound usePaystack) input.amountMinor := by
  cases usePaystack with
  | false => exact inside
  | true =>
      obtain rfl := currency_of_validateIntent (validates rfl)
      exact paystack_gate.mp (validates rfl)

/-- `create` opens a payment of just the numerals of its gate, and stores and answers them as they were sent. -/
theorem create_gate (sound : db.Sound)
    (hex : isSha256Hex (hashRequest sha256Hex (toLowerCase input.walletId) input.amountMinor)) (sent : header.map jsTrim = some key)
    (valid : isIdempotencyKey key) (opens : Opens db draws usePaystack userId key input.walletId wallet) :
    IsNumeral (bound usePaystack) input.amountMinor ↔ ∃ p, (toPaymentResponse p).amountMinor = input.amountMinor ∧
      (create sha256Hex draws usePaystack userId header input).alone {} db = ([[.payment p]], .ok (.payment p)) := by
  constructor
  · intro numeral
    have inside := (opens.validates.mpr numeral).2
    let p := opened sha256Hex draws usePaystack userId key input wallet
    obtain ⟨_, v, ran, rfl, writes⟩ := (runs_createPayment sound hex valid opens numeral (Eq.refl p)).run
    refine ⟨p, intent_text inside .., ?_⟩
    rw [create, normalize_eq_ok sent valid inside]
    simp only [Client.alone, ran, writes, unwrapOutcome]
  · rintro ⟨p, _, ran⟩
    by_cases inside : IsNumeral maxMinorUnits input.amountMinor
    · rw [create, normalize_eq_ok sent valid inside] at ran
      simp only [Client.alone] at ran
      split at ran
      · rename_i d _
        cases d with
        | uniqueViolation =>
            simp only [Client.alone, opens.findByKey_eq_none] at ran
            cases ran
        | _ => cases ran
      · cases ran
      · rename_i outcome v done
        have normal : normalize sha256Hex header input = .ok (key, _) := normalize_eq_ok sent valid inside
        have views : Views .readCommitted fun _ => db := ⟨fun _ _ _ => Store.le_refl db, fun h => by cases h⟩
        obtain ⟨ws, _, change⟩ := ((@Body.payment sha256Hex draws usePaystack userId header input _ _
          normal).faithful _ views).holds done
        cases change db (Settled.snapshot db) with
        | payment normal' intends =>
            cases normal.symm.trans normal'
            cases intends with
            | existing _ _ mem user named _ => exact (opens.unused _ mem ⟨user, named⟩).elim
            | created _ wallet' _ _ _ validates => exact bound_of_validates validates inside
    · rw [create_refuses sent valid inside] at ran
      cases ran

end

end PaymentsService

/-! ## What is stored -/

/-- The payment is of a request for its amount, which its provider accepts. -/
structure Payment.Requested (sha256Hex : String → String) (p : Payment) : Prop where
  request : ∃ walletId, p.requestHash = PaymentsService.hashRequest sha256Hex walletId (toString p.amountMinor)
  positive : 0 < p.amountMinor
  currency : p.provider = .paystack → p.currency = .ngn

section
variable {sha256Hex : String → String} {base : Nat → Db} {now : Db} {i : Request} {outcome : AttemptOutcome} {ws : List Write}

theorem PaymentsService.normalize_value {header : Option String} {input : CreatePaymentDto} {key hash : String}
    (normal : normalize sha256Hex header input = .ok (key, hash)) :
    hash = hashRequest sha256Hex (toLowerCase input.walletId) input.amountMinor ∧
      ∃ n, bigInt? input.amountMinor = some n ∧ toString n = input.amountMinor ∧ 1 ≤ n := by
  obtain ⟨_, sent, valid⟩ := key_of_normalize normal
  have numeral := (amount_gate sent valid).mp ⟨_, normal⟩
  cases normal.symm.trans (normalize_eq_ok sent valid numeral)
  obtain ⟨n, value, text, one, _⟩ := numeral.value
  exact ⟨rfl, n, value, text, one⟩

/-- The payments that a change writes are requested, and by a request to pay for its own amount. -/
theorem Change.requested (h : Change sha256Hex base now i outcome ws) (earlier : ∀ p ∈ (base 0).payments, p.Requested sha256Hex)
    {p : Payment} (mem : p ∈ Slice.payments.written ws) : p.Requested sha256Hex ∧
      ∀ draws usePaystack userId header input, i = .createPayment draws usePaystack userId header input →
        (PaymentsService.toPaymentResponse p).amountMinor = input.amountMinor := by
  cases h with
  | registered draws input => cases mem
  | opened draws userId currency => cases mem
  | closed closes => cases closes <;> cases mem
  | posted postings records =>
      rw [Movement.written_other (by decide)] at mem
      cases mem
  | transfer _ _ attempted =>
      cases attempted with
      | replayed _ _ _ _ => cases mem
      | completed t ws _ does =>
          cases does with
          | intro source destination beneficiaryId m events _ _ _ _ _ _ _ _ _ announces => simp [announces.written] at mem
      | refused e _ _ _ _ => cases mem
  | reversal _ attempted =>
      cases attempted with
      | replayed _ _ _ _ => cases mem
      | completed v ws _ does =>
          cases does with
          | intro t source destination m events _ _ _ _ _ _ _ _ _ _ _ _ announces => simp [announces.written] at mem
      | refused e _ _ _ _ => cases mem
  | @payment draws usePaystack userId header input _ _ _ _ normal intends =>
      cases intends with
      | existing _ _ _ _ _ _ => cases mem
      | created n wallet _ owned active valid =>
          obtain ⟨rfl, amount, value, text, one⟩ := PaymentsService.normalize_value normal
          obtain rfl := List.mem_singleton.mp mem
          refine ⟨⟨⟨toLowerCase input.walletId, ?hash⟩, ?positive, ?currency⟩, ?own⟩
          case hash => rw [PaymentsService.intent, value, Option.getD_some, text]
          case positive =>
            rw [PaymentsService.intent, value, Option.getD_some]
            exact Int.zero_lt_one.trans_le one
          case currency =>
            intro paystack
            cases usePaystack with
            | false => cases paystack
            | true => exact PaymentsService.currency_of_validateIntent (valid rfl)
          case own =>
            rintro _ _ _ _ _ ⟨⟩
            rw [PaymentsService.toPaymentResponse, PaymentsService.intent, value, Option.getD_some, text]
  | settled attempt settles =>
      refine ⟨?_, fun _ _ _ _ _ same => by cases same⟩
      cases settles with
      | duplicate _ _ _ _ _ _ _ _ => cases mem
      | repeated _ _ _ _ _ => cases mem
      | failed old _ before _ _ _ _ announces =>
          simp [announces.written] at mem
          subst mem
          exact ⟨(earlier old before).request, (earlier old before).positive, (earlier old before).currency⟩
      | succeeded old _ _ m _ before _ _ _ _ _ _ _ _ _ announces =>
          simp [announces.written] at mem
          subst mem
          exact ⟨(earlier old before).request, (earlier old before).positive, (earlier old before).currency⟩
  | other side =>
      rw [aside_written (fun w hw => .inl (side w hw)) (fun _ => rfl) (by decide)] at mem
      cases mem

/-- The transfers that a change writes are for the amount of its request. -/
theorem Change.transferred {draws : Draws} {senderUserId : Uuid} {header : Option String}
    {input : TransfersService.CreateTransferDto}
    (h : Change sha256Hex base now (.createTransfer draws senderUserId header input) outcome ws) (valid : input.Valid)
    {t : Transfer} (mem : t ∈ Slice.transfers.written ws) :
    (TransfersService.toTransferResponse t).amountMinor = input.amountMinor := by
  cases h with
  | transfer _ normal attempted =>
      cases attempted with
      | replayed _ _ _ _ => cases mem
      | completed t ws _ does =>
          cases does with
          | intro source destination beneficiaryId m events _ _ _ _ _ _ _ _ _ announces =>
              simp [announces.written] at mem
              subst mem
              exact TransfersService.amount_text valid normal
      | refused e _ _ _ _ => cases mem

variable {initial : Db} {c : Config Db Settings Row Key DbError HttpException AttemptOutcome Result Request}

theorem reachable_requested (opening : Opening initial) (h : (system sha256Hex initial).Reachable c) {j : Nat}
    (le : j ≤ c.log.length) : ∀ p ∈ (stateAt initial c.log j).payments, p.Requested sha256Hex := by
  refine (@reachable_changes sha256Hex initial c (fun db => ∀ p ∈ db.payments, p.Requested sha256Hex) (fun _ _ => True)
    (fun _ => trivial) (fun _ _ => trivial) ?_ ?_ h).1 j le
  · rw [opening.payments]
    exact fun p hp => absurd hp (Table.not_mem_empty p)
  · intro base now i outcome ws _ earlier _ known accepts change
    refine ⟨fun p hp => ?_, trivial⟩
    rcases Slice.payments.mem_written hp with old | new
    · exact known p old
    · exact (change.requested (earlier 0) new).1

/-- The payment that a call of `create` returns is for the amount of its request. -/
theorem returned_amount (injective : Function.Injective sha256Hex) (opening : Opening initial)
    (h : (system sha256Hex initial).Reachable c) {r : Transactional.Result Request Result} (hr : r ∈ c.results) {draws : Draws}
    {usePaystack : Bool} {userId : Uuid} {header : Option String} {input : PaymentsService.CreatePaymentDto}
    (request : r.request = .createPayment draws usePaystack userId header input) {p : Payment}
    (result : r.result = .ok (.payment p)) : (PaymentsService.toPaymentResponse p).amountMinor = input.amountMinor := by
  obtain ⟨call, i, born, answer⟩ := r
  dsimp only at request result
  subst request result
  obtain ⟨key, hash, normal, _, _, same, k, le, there⟩ := returned_payment h hr
  obtain ⟨walletId, hashed⟩ := (reachable_requested opening h le p there).request
  obtain ⟨rfl, _⟩ := PaymentsService.normalize_value normal
  have fields := jsonObject_injective (injective (same.symm.trans hashed))
  simp only [List.cons.injEq, Prod.mk.injEq, Option.some.injEq, true_and, and_true] at fields
  exact fields.2.symm

/-- The transfer that a call of `create` answers with is for the amount of its request. -/
theorem answered_amount (injective : Function.Injective sha256Hex) (opening : Opening initial)
    (h : (system sha256Hex initial).Reachable c) {r : Transactional.Result Request Result} (hr : r ∈ c.results) {draws : Draws}
    {senderUserId : Uuid} {header : Option String} {input : TransfersService.CreateTransferDto}
    (request : r.request = .createTransfer draws senderUserId header input) (valid : input.Valid)
    {t : TransferResponse} (result : r.result = .ok (.transfer t)) : t.amountMinor = input.amountMinor := by
  have program : (system sha256Hex initial).program r.request =
      TransfersService.create sha256Hex draws senderUserId header input := by rw [request]; rfl
  cases normalized : (do return (← normalizeIdempotencyKey header, ← TransfersService.normalizeTransferRequest input) :
      Except HttpException _) with
  | error e =>
      have refused : ((system sha256Hex initial).program r.request).Answers ((system sha256Hex initial).Ends fun _ => True)
          (fun _ => True) (fun _ result => result = failed e) [] := by
        rw [program, TransfersService.create, normalized]
        rfl
      have ended := h.answered hr refused fun _ _ _ => trivial
      cases result.symm.trans ended
  | ok pair =>
      obtain ⟨key, keyed, rest⟩ := bind_eq_ok.mp normalized
      obtain ⟨normal, accepted, same⟩ := bind_eq_ok.mp rest
      have carries : r.request.Carries sha256Hex TransfersService.scope.name senderUserId key
          (TransfersService.hashRequest sha256Hex normal) := by
        rw [request]
        exact .transfer keyed accepted
      rcases key_answered opening h hr carries with ⟨record, mem, _, _, _, answered⟩ | ⟨⟨failure, fails⟩, _⟩
      · rw [result] at answered
        cases answered with
        | recorded same recorded =>
            cases recorded with
            | transfer x _ there named =>
                obtain ⟨y, hy, id, request', hashed, text⟩ := (reachable_recordsAnswer opening h le_rfl).transfers record mem _ named
                obtain rfl : y = x := Table.eq_of_key_eq hy there id
                have fields := jsonObject_injective (injective (same.trans hashed))
                simp only [List.cons.injEq, Prod.mk.injEq, Option.some.injEq, true_and, and_true] at fields
                obtain ⟨_, _, _, _, _, normalText⟩ := TransfersService.normalizeTransferRequest_eq_ok.mp accepted
                rw [TransfersService.toTransferResponse, ← text, ← fields.2.2.2, ← TransfersService.amount_text valid accepted]
                rw [← normalText]
        | refused e _ _ same => cases same
        | broken broken =>
            obtain ⟨d, same, _⟩ := broken
            cases same
      · cases result.symm.trans fails

end

/-! ## What a settlement compares -/

namespace PaymentsService

section
variable {db : Db} {event : VerifiedPaymentEvent} {provider : PaymentProvider} {p : Payment}

theorem payment_eq (sound : db.Sound) {q : Payment} (hp : p ∈ db.payments) (hq : q ∈ db.payments)
    (same : p.reference = q.reference) : p = q := by
  have slot : Row.payment p = Row.payment q :=
    sound.unique _ hp _ hq (.paymentReference p.reference) (by simp [Row.keys, Row.slots]) (by simp [Row.keys, Row.slots, same])
  exact Slice.payments.row_inj.mp slot

/-- Evidence of another amount or currency is refused for that. -/
theorem runs_mismatch (sound : db.Sound) (mem : p ∈ db.payments) (own : p.provider = provider)
    (reference : p.reference = event.reference)
    (differs : toString p.amountMinor ≠ event.amountMinor ∨ p.currency ≠ event.currency) (draws : Draws) :
    Tx.Runs db (Tx.committing (settle draws event provider)) (fun r _ => r = .error mismatch) { locals := {} } := by
  have found : db.payments.rows.find? (fun p => p.provider = provider ∧ p.reference = event.reference) = some p := by
    have there : (db.payments.rows.find? fun p => p.provider = provider ∧ p.reference = event.reference).isSome :=
      List.find?_isSome.mpr ⟨p, mem, by simp [own, reference]⟩
    obtain ⟨q, found⟩ := Option.isSome_iff_exists.mp there
    have named : q.provider = provider ∧ q.reference = event.reference := by simpa using List.find?_some found
    rw [payment_eq sound mem (List.mem_of_find?_eq_some found) (reference.trans named.2.symm)]
    exact found
  have refused : (settle draws event provider).Runs db (fun r _ => r = .error mismatch) { locals := {} } := by
    refine runs_lock (.start {}) rfl fun v₁ h₁ => runs_orThrow found ?_
    rw [Prog.throwIf, if_pos differs]
    exact ⟨rfl⟩
  refine runs_bind refused (fun _ _ ok => ?_) fun _ _ failed => failed
  cases ok

/-- Evidence of the payment's amount and currency is not. -/
theorem ensures_agrees (sound : db.Sound) (paired : Paired db) (mem : p ∈ db.payments) (reference : p.reference = event.reference)
    (agrees : toString p.amountMinor = event.amountMinor ∧ p.currency = event.currency) (draws : Draws) :
    (Tx.committing (settle draws event provider)).Ensures (fun _ => db)
      (fun r _ => r ≠ .error mismatch ∧ ∀ e, r ≠ .ok (.error e)) { locals := {} } := by
  apply @ensures_committing_result _ _ _ _ fun r : Except HttpException AttemptOutcome =>
    r ≠ .error mismatch ∧ ∀ e, r ≠ .ok (.error e)
  refine ensures_settle (.start {}) (fun _ e failure => ⟨?_, nofun⟩) fun _ outcome ws settles _ => ⟨nofun, fun e same => ?_⟩
  · rintro ⟨⟩
    generalize same : mismatch = e at failure
    cases failure with
    | refused among =>
        have others : ∀ e ∈ refusals, mismatch ≠ e := by simp [refusals, mismatch, notFound, conflict]
        exact others _ among same
    | mismatched q mem' named differs =>
        obtain rfl := payment_eq sound mem mem' (reference.trans named.symm)
        exact differs.elim (absurd agrees.1) (absurd agrees.2)
    | unposted _ _ _ _ _ _ _ _ unposted =>
        have known := unposted.conflicts paired (same ▸ rfl)
        exact absurd known (same ▸ by simp [LedgerService.conflicts, mismatch, conflict])
  · cases same
    cases settles

/-- A settlement, by itself, is refused for the amount or the currency just when they differ. -/
theorem settleVerified_mismatch (sound : db.Sound) (paired : Paired db) (mem : p ∈ db.payments) (own : p.provider = provider)
    (reference : p.reference = event.reference) (draws : Nat → Draws) (attempts : Nat) :
    (settleVerified draws event provider (attempts + 1)).alone {} db = ([], failed mismatch) ↔
      toString p.amountMinor ≠ event.amountMinor ∨ p.currency ≠ event.currency := by
  constructor
  · contrapose
    intro agrees
    rw [not_or, not_not, not_not] at agrees
    suffices never : ∀ attempts, ((settleVerified draws event provider attempts).alone {} db).2 ≠ failed mismatch from
      fun same => never (attempts + 1) (congrArg Prod.snd same)
    intro attempts
    induction attempts with
    | zero => exact fun same => by cases same
    | succ attempts ih =>
        simp only [settleVerified, Client.alone]
        cases ran : (Tx.committing (settle (draws attempts) event provider)).run (fun _ => db) { locals := {} } with
        | error d =>
            dsimp only
            split
            · exact ih
            · exact fun same => by cases same
        | ok ended =>
            obtain ⟨r, v⟩ := ended
            obtain ⟨other, passed⟩ := (ensures_agrees sound paired mem reference agrees _).holds ran
            rcases r with e | e | reply
            · rintro ⟨⟩
              exact other rfl
            · exact absurd rfl (passed e)
            · exact fun same => by cases same
  · intro differs
    obtain ⟨_, v, ran, rfl⟩ := (runs_mismatch sound mem own reference differs (draws attempts)).run
    rw [settleVerified, Client.alone, ran]
    rfl

end

end PaymentsService

/-! ## All gates -/

/-- The gates accept exactly the numerals up to their bound; what is made of an accepted amount prints back as it was sent. -/
structure MoneyGates (sha256Hex : String → String) : Prop where
  transfer : ∀ input : TransfersService.CreateTransferDto, input.ValidIds → OneDestination input →
    ((input.Valid ∧ ∃ r, TransfersService.normalizeTransferRequest input = .ok r) ↔
      IsNumeral maxMinorUnits input.amountMinor)
  transferText : ∀ (input : TransfersService.CreateTransferDto) r draws senderUserId source destination beneficiaryId
    ledgerTransactionId, input.Valid → TransfersService.normalizeTransferRequest input = .ok r →
    (TransfersService.toTransferResponse (TransfersService.completedTransfer draws senderUserId source destination
      beneficiaryId ledgerTransactionId r.amountMinor)).amountMinor = input.amountMinor
  payment : ∀ (header : Option String) key (input : PaymentsService.CreatePaymentDto), header.map jsTrim = some key →
    isIdempotencyKey key →
    ((∃ r, PaymentsService.normalize sha256Hex header input = .ok r) ↔ IsNumeral maxMinorUnits input.amountMinor)
  /-- `create` refuses every other string, and commits nothing. -/
  paymentRefused : ∀ draws usePaystack userId (header : Option String) key (input : PaymentsService.CreatePaymentDto),
    header.map jsTrim = some key → isIdempotencyKey key → ¬ IsNumeral maxMinorUnits input.amountMinor → ∀ db,
    (PaymentsService.create sha256Hex draws usePaystack userId header input).alone {} db =
      ([], failed (badRequest "amountMinor exceeds the positive BIGINT range"))
  /-- Where a payment can be opened, `create` opens one of just these amounts, and stores and answers it as it was sent. -/
  paymentOpened : ∀ (db : Db) draws usePaystack userId (header : Option String) key (input : PaymentsService.CreatePaymentDto)
    wallet, db.Sound → header.map jsTrim = some key → isIdempotencyKey key →
    isSha256Hex (PaymentsService.hashRequest sha256Hex (toLowerCase input.walletId) input.amountMinor) →
    PaymentsService.Opens db draws usePaystack userId key input.walletId wallet →
    (IsNumeral (PaymentsService.bound usePaystack) input.amountMinor ↔
      ∃ p, (PaymentsService.toPaymentResponse p).amountMinor = input.amountMinor ∧
        (PaymentsService.create sha256Hex draws usePaystack userId header input).alone {} db =
          ([[.payment p]], .ok (.payment p)))
  event : ∀ hash fields e, MockPaymentProvider.eventSchema hash (.object fields) = some e → ∀ s,
    ((MockPaymentProvider.eventSchema hash (.object (MockPaymentProvider.withAmount fields s))).isSome ↔
      IsNumeral maxMinorUnits s)
  paystack : ∀ s, PaymentsService.validateIntent s .ngn = .ok () ↔ IsNumeral PaymentsService.maxSafeInteger s
  /-- The comparison that authorises a credit compares the integers. -/
  comparison : ∀ s (payment : Payment) input data, PaymentsService.validateIntent s .ngn = .ok () →
    bigInt? s = some payment.amountMinor → PaystackProvider.transactionSchema input = some data →
    (toString payment.amountMinor = (PaystackProvider.evidence sha256Hex data).amountMinor ↔ payment.amountMinor = data.amount)

theorem gates (sha256Hex : String → String) : MoneyGates sha256Hex where
  transfer _ := TransfersService.amount_gate
  transferText _ _ _ _ _ _ _ _ valid normal := TransfersService.amount_text valid normal
  payment _ _ _ := PaymentsService.amount_gate
  paymentRefused := by
    intro draws usePaystack userId header key input sent valid other db
    rw [PaymentsService.create_refuses sent valid other]
    rfl
  paymentOpened _ _ _ _ _ _ _ _ sound sent valid hex opens := PaymentsService.create_gate sound hex sent valid opens
  event _ _ _ := MockPaymentProvider.amount_gate
  paystack _ := PaymentsService.paystack_gate
  comparison := by
    intro s payment input data admitted value parsed
    obtain ⟨n, value', _, one, _⟩ := (PaymentsService.paystack_gate.mp admitted).value
    have pos : 0 < payment.amountMinor := by
      rw [value, Option.some.injEq] at value'
      omega
    have amount := PaystackProvider.transactionSchema_amount parsed
    exact toString_inj pos (by omega)

/-- What a run stores and answers prints as it was sent; a settlement is refused for its amount just when the integers differ. -/
structure AmountsKept (sha256Hex : String → String)
    (c : Config Db Settings Row Key DbError HttpException AttemptOutcome Result Request) : Prop where
  transfers : ∀ e ∈ c.log, ∀ draws senderUserId header input, e.request = .createTransfer draws senderUserId header input →
    input.Valid → ∀ t, .transfer t ∈ e.writes → (TransfersService.toTransferResponse t).amountMinor = input.amountMinor
  payments : ∀ e ∈ c.log, ∀ draws usePaystack userId header input,
    e.request = .createPayment draws usePaystack userId header input →
    ∀ p, .payment p ∈ e.writes → (PaymentsService.toPaymentResponse p).amountMinor = input.amountMinor
  transferAnswers : Function.Injective sha256Hex → ∀ r ∈ c.results, ∀ draws senderUserId header input,
    r.request = .createTransfer draws senderUserId header input → input.Valid →
    ∀ t, r.result = .ok (.transfer t) → t.amountMinor = input.amountMinor
  paymentAnswers : Function.Injective sha256Hex → ∀ r ∈ c.results, ∀ draws usePaystack userId header input,
    r.request = .createPayment draws usePaystack userId header input →
    ∀ p, r.result = .ok (.payment p) → (PaymentsService.toPaymentResponse p).amountMinor = input.amountMinor
  settlement : ∀ j ≤ c.log.length, ∀ p ∈ (stateAt migrated c.log j).payments, p.provider = .paystack → ∀ input data,
    PaystackProvider.transactionSchema input = some data → data.reference = p.reference → ∀ draws,
    (((system sha256Hex migrated).program (.settle draws (PaystackProvider.evidence sha256Hex data) .paystack)).alone {}
        (stateAt migrated c.log j) = ([], failed PaymentsService.mismatch) ↔ p.amountMinor ≠ data.amount)

/-- All money gates accept the same numbers and round-trip them. -/
theorem money_gates (sha256Hex : String → String) : MoneyGates sha256Hex ∧
    ∀ c : Config Db Settings Row Key DbError HttpException AttemptOutcome Result Request,
      (system sha256Hex migrated).Reachable c → AmountsKept sha256Hex c := by
  refine ⟨gates sha256Hex, fun c h => ?_⟩
  constructor
  case transfers =>
    intro e he draws senderUserId header input request valid t ht
    obtain ⟨j, lt, rfl⟩ := List.getElem_of_mem he
    obtain ⟨_, _, _, ws, _, rows, _, change⟩ := done_of_certified (h.certified lt)
    rw [rows] at ht
    obtain ⟨w, hw, row⟩ := List.mem_map.mp ht
    rw [request] at change
    exact change.transferred valid (List.mem_filterMap.mpr ⟨w, hw, row ▸ Slice.transfers.of_row t⟩)
  case payments =>
    intro e he draws usePaystack userId header input request p hp
    obtain ⟨j, lt, rfl⟩ := List.getElem_of_mem he
    obtain ⟨_, _, _, ws, le, rows, _, change⟩ := done_of_certified (h.certified lt)
    rw [rows] at hp
    obtain ⟨w, hw, row⟩ := List.mem_map.mp hp
    have earlier := reachable_requested migrated_opening h ((le 0).trans lt.le)
    exact (change.requested earlier (List.mem_filterMap.mpr ⟨w, hw, row ▸ Slice.payments.of_row p⟩)).2 _ _ _ _ _ request
  case transferAnswers =>
    exact fun injective r hr _ _ _ _ request valid t => answered_amount injective migrated_opening h hr request valid
  case paymentAnswers =>
    exact fun injective r hr _ _ _ _ _ request p => returned_amount injective migrated_opening h hr request
  case settlement =>
    intro j le p mem own input data parsed reference draws
    have consistent := reachable_consistent migrated_opening h le
    have requested := reachable_requested migrated_opening h le p mem
    have amount := PaystackProvider.transactionSchema_amount parsed
    have same : p.reference = (PaystackProvider.evidence sha256Hex data).reference := reference.symm
    refine (PaymentsService.settleVerified_mismatch consistent.sound consistent.books.paired mem own same draws 2).trans ?_
    change toString p.amountMinor ≠ toString data.amount ∨ p.currency ≠ .ngn ↔ _
    rw [requested.currency own, ne_eq, toString_inj requested.positive (by omega)]
    simp

/-! ## At the bound of each gate -/

def largestTransfer : TransfersService.CreateTransferDto where
  sourceWalletId := "00000000-0000-4000-8000-00000000000A"
  destinationWalletId := some "00000000-0000-4000-8000-00000000000b"
  amountMinor := "9223372036854775807"

def sampleEventFields (amountMinor : String) : List (String × Json) := [
  ("eventId", .string "00000000-0000-4000-8000-00000000000c"),
  ("reference", .string "payment:00000000-0000-4000-8000-00000000000d"), ("amountMinor", .string amountMinor),
  ("currency", .string "USD"), ("status", .string "SUCCEEDED")]

def samplePayer : Request :=
  .register (sampleDraws 0)
    { email := "ada@example.com", passwordHash := "hash", firstName := "Ada", lastName := "Obi", currency := some .ngn }

def samplePayingInput (amountMinor : String) : PaymentsService.CreatePaymentDto where
  walletId := (sampleUuid 0 1).text
  amountMinor := amountMinor

/-- A user opens a Paystack payment of the largest amount. -/
def samplePaying : Request :=
  .createPayment (sampleDraws 1) true (sampleUuid 0 0) (some " pay-1 ") (samplePayingInput "9007199254740991")

/-- An injective function that is SHA-256 on the text that the run hashes. -/
def samplePayingSha256 : String ≃ String :=
  Equiv.swap (jsonObject [("walletId", some "00000000-0000-4000-8000-000000001001"), ("amountMinor", some "9007199254740991")])
    "fea644ddb1f28693df65ef042722dc622e4b49372be8988b61d7b5809d9c2bf9"

def samplePayingLog : List (Entry Request Row) := (system samplePayingSha256 migrated).performAll [samplePayer] [] 0

def samplePaid : List (Entry Request Row) × Result := (system samplePayingSha256 migrated).perform samplePayingLog 1 samplePaying

theorem samplePaid_eq : samplePayingLog.length = 1 ∧
    (∃ w ∈ (stateAt migrated samplePayingLog 1).wallets.rows, Uuid.parse? (toLowerCase (sampleUuid 0 1).text) = some w.id ∧
      w.userId = sampleUuid 0 0 ∧ w.status = .active ∧ w.currency = .ngn) ∧
    (stateAt migrated samplePayingLog 1).payments.rows = [] ∧ samplePaid.1.length = 2 ∧
    (∃ p ∈ (stateAt migrated samplePaid.1 2).payments.rows, p.provider = .paystack ∧
      p.reference = "payment-00000000-0000-4000-8000-000000001120" ∧ p.amountMinor = 9007199254740991) ∧
    (samplePaid.2 matches .ok (.payment _)) := by
  decide +kernel

/-- What Paystack answers when it has collected a kobo less. -/
def samplePaystackAnswer : Json := .object [
  ("id", .number 1234), ("reference", .string "payment-00000000-0000-4000-8000-000000001120"),
  ("amount", .number 9007199254740990), ("currency", .string "NGN"), ("domain", .string "test"), ("status", .string "success")]

theorem money_gates_sample :
    (∃ r, TransfersService.normalizeTransferRequest largestTransfer = .ok r) ∧
    (MockPaymentProvider.eventSchema "" (.object
      (MockPaymentProvider.withAmount (sampleEventFields "1") "9223372036854775807"))).isSome ∧
    (PaymentsService.create samplePayingSha256 (sampleDraws 1) true (sampleUuid 0 0) (some "pay-1")
      (samplePayingInput "9223372036854775808")).alone {} migrated =
        ([], failed (badRequest "amountMinor exceeds the positive BIGINT range")) ∧
    (∃ p, (PaymentsService.toPaymentResponse p).amountMinor = "9007199254740991" ∧
      (PaymentsService.create samplePayingSha256 (sampleDraws 1) true (sampleUuid 0 0) (some " pay-1 ")
        (samplePayingInput "9007199254740991")).alone {} (stateAt migrated samplePayingLog 1) =
          ([[.payment p]], .ok (.payment p))) ∧
    (∃ p, samplePaid.2 = .ok (.payment p) ∧ (PaymentsService.toPaymentResponse p).amountMinor = "9007199254740991") ∧
    (∃ data, PaystackProvider.transactionSchema samplePaystackAnswer = some data ∧
      ((system samplePayingSha256 migrated).program (.settle sampleDraws
        (PaystackProvider.evidence samplePayingSha256 data) .paystack)).alone {} (stateAt migrated samplePaid.1 2) =
          ([], failed PaymentsService.mismatch)) ∧
    ∃ e ∈ sampleReversedLog, ∃ t, .transfer t ∈ e.writes ∧ (TransfersService.toTransferResponse t).amountMinor = "2500" := by
  obtain ⟨gates, kept⟩ := money_gates samplePayingSha256
  obtain ⟨length, ⟨w, hw, named, owned, active, currency⟩, none, length', ⟨p, hp, provider, reference, amount⟩, answer⟩ :=
    samplePaid_eq
  obtain ⟨c, reach, log, mem⟩ := System.reachable_perform (system samplePayingSha256 migrated) [samplePayer] samplePaying
  obtain ⟨c', reach', log'⟩ := System.reachable_performAll (system samplePayingSha256 migrated) [samplePayer]
  have sound := (reachable_sound migrated_sound reach').1 1 (log' ▸ length.ge)
  rw [log'] at sound
  change c.log = samplePaid.1 at log
  change ⟨1, samplePaying, samplePayingLog.length, samplePaid.2⟩ ∈ c.results at mem
  have largest : IsNumeral maxMinorUnits "9223372036854775807" :=
    ⟨maxMinorUnits, by decide, by decide, by decide⟩
  have safe : IsNumeral PaymentsService.maxSafeInteger "9007199254740991" :=
    ⟨PaymentsService.maxSafeInteger, by decide, by decide, by decide⟩
  refine ⟨?transfer, ?event, ?refused, ?opened, ?answered, ?settlement, ?stored⟩
  case transfer => exact ((gates.transfer largestTransfer (by decide) (by decide)).mpr largest).2
  case event =>
    obtain ⟨e, accepted⟩ : ∃ e, MockPaymentProvider.eventSchema "" (.object (sampleEventFields "1")) = some e :=
      Option.isSome_iff_exists.mp (by decide)
    exact (gates.event "" _ e accepted _).mpr largest
  case refused =>
    have other : ¬ IsNumeral maxMinorUnits "9223372036854775808" := by
      rw [← isNumeral_iff 19 _ maxMinorUnits (by decide) (by decide)]
      decide
    exact gates.paymentRefused _ _ _ _ "pay-1" _ (by decide) (by decide) other _
  case opened =>
    have hex : isSha256Hex (PaymentsService.hashRequest samplePayingSha256
        (toLowerCase (samplePayingInput "9007199254740991").walletId) (samplePayingInput "9007199254740991").amountMinor) := by
      decide
    have unpaid {P : Payment → Prop} : ∀ p ∈ (stateAt migrated samplePayingLog 1).payments, P p := by
      intro p hp
      rw [Table.mem_def, none] at hp
      cases hp
    have opens : PaymentsService.Opens (stateAt migrated samplePayingLog 1) (sampleDraws 1) true (sampleUuid 0 0) "pay-1"
        (samplePayingInput "9007199254740991").walletId w :=
      ⟨named, hw, owned, active, fun _ => currency, unpaid, unpaid, unpaid⟩
    exact (gates.paymentOpened _ _ _ _ _ _ _ _ sound (by decide) (by decide) hex opens).mp safe
  case answered =>
    cases result : samplePaid.2 with
    | error e =>
        rw [result] at answer
        cases answer
    | ok reply =>
        rw [result] at answer
        cases reply with
        | payment p =>
            refine ⟨p, rfl, ?_⟩
            exact (kept c reach).paymentAnswers samplePayingSha256.injective _ mem _ _ _ _ _ rfl p result
        | _ => cases answer
  case settlement =>
    obtain ⟨data, parsed, sum, about⟩ : ∃ data, PaystackProvider.transactionSchema samplePaystackAnswer = some data ∧
        data.amount = 9007199254740990 ∧ data.reference = "payment-00000000-0000-4000-8000-000000001120" := by
      refine ⟨⟨1234, _, 9007199254740990, "test", "success"⟩, by decide, rfl, rfl⟩
    rw [← log] at length' hp ⊢
    refine ⟨data, parsed, ((kept c reach).settlement 2 length'.ge p hp provider _ data parsed (about.trans reference.symm) _).mpr ?_⟩
    rw [amount, sum]
    decide
  case stored =>
    obtain ⟨c, reach, log⟩ := System.reachable_performAll (system sampleReversedSha256 migrated) sampleReversed
    obtain ⟨_, ⟨e, he, kind, wrote⟩, _⟩ := sampleReversedLog_reverses
    obtain ⟨r, hr, row⟩ := List.any_eq_true.mp wrote
    have request : e.request ∈ sampleReversed := (System.request_of_mem_performAll he).resolve_left List.not_mem_nil
    have stored := ((money_gates sampleReversedSha256).2 c reach).transfers e (log ▸ he)
    cases r with
    | transfer t =>
        refine ⟨e, he, t, hr, ?_⟩
        simp only [sampleReversed, List.mem_cons, List.not_mem_nil, or_false] at request
        rcases request with request | request | request | request | request
        case inr.inr.inr.inl => exact stored _ _ _ _ request (by decide) t hr
        all_goals
          rw [request] at kind
          cases kind
    | _ => cases row

end Fintech
