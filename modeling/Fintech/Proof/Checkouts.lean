import Fintech.Proof.Authority

/-!
# Payments and checkouts are created once

What the calls of `createPayment` return, and what the claims of checkouts keep the processes from doing, however they
interleave, fail, crash and are repeated.
-/

namespace Fintech
open Relational Transactional Handler

/-! ## Payments by their keys -/

namespace PaymentsService

/-- The payment is of the user and the request, and is there or is written. -/
structure Intended (P : Db → Prop) (userId : Uuid) (key hash : String) (p : Payment) (written : Prop) : Prop where
  user : p.userId = userId
  named : p.idempotencyKey = key
  same : p.requestHash = hash
  there : (∃ s, P s ∧ p ∈ s.payments) ∨ written

theorem findByKey_eq_some {userId : Uuid} {key : String} {db : Db} {p : Payment} (h : findByKey userId key db = some p) :
    p ∈ db.payments ∧ p.userId = userId ∧ p.idempotencyKey = key :=
  ⟨List.mem_of_find?_eq_some h, by simpa using List.find?_some h⟩

theorem replay_eq_ok {existing p : Payment} {hash : String} (h : replay existing hash = .ok p) :
    existing.requestHash = hash ∧ p = existing := by
  obtain ⟨same, returned⟩ := bind_unit_eq_ok.mp h
  rw [failIf_eq_ok, not_not] at same
  cases returned
  exact ⟨same, rfl⟩

theorem ensures_createIntent_leaves {base : Nat → Db} {P : Db → Prop} (seen : ∀ n, P (base n)) {v : View Settings Row Key}
    {draws : Draws} {usePaystack : Bool} {userId : Uuid} {key hash walletId amountMinor : String} (h : Tracks base v []) :
    (createIntent draws usePaystack userId key hash walletId amountMinor).Ensures base
      (Tx.leaves base fun p rows => Intended P userId key hash p (rows = [.payment p])) v := by
  refine ensures_bind (ensures_read h fun v₁ h₁ => ?_)
  rw [Db.write_nil]
  cases found : findByKey userId key (base v.executed) with
  | some existing =>
      refine ensures_lift (fun _ _ => trivial) fun p ok => ⟨⟨_, h₁⟩, ?_⟩
      obtain ⟨same, rfl⟩ := replay_eq_ok ok
      obtain ⟨mem, user, named⟩ := findByKey_eq_some found
      exact ⟨user, named, same, .inl ⟨_, seen _, mem⟩⟩
  | none =>
      refine ensures_bind (ensures_query h₁ fun v₂ found _ h₂ => ?_)
      refine ensures_bind (ensures_orThrow (fun _ => trivial) fun wallet _ => ?_)
      refine ensures_bind (ensures_throwIf (fun _ => trivial) fun _ => ?_)
      refine ensures_bind (ensures_lift (fun _ _ => trivial) fun _ _ => ?_)
      refine ensures_bind (ensures_setConfig h₂ fun v₃ h₃ => ?_)
      refine ensures_bind (ensures_create h₃ fun v₄ h₄ => ?_)
      exact ensures_pure ⟨⟨_, h₄⟩, rfl, rfl, rfl, .inr h₄.writes⟩

/-- What a call of `create` returns. -/
theorem create_answers {sha256Hex : String → String} {initial : Db} {P : Db → Prop} (draws : Draws) (usePaystack : Bool)
    (userId : Uuid) (header : Option String) (input : CreatePaymentDto) :
    (program sha256Hex (.createPayment draws usePaystack userId header input)).Answers ((system sha256Hex initial).Ends P) P
      (fun made result => ∀ p, result = .ok (.payment p) → ∃ key hash, normalize sha256Hex header input = .ok (key, hash) ∧
        Intended P userId key hash p ([.payment p] ∈ made)) [] := by
  change (create sha256Hex draws usePaystack userId header input).Answers _ _ _ _
  unfold create
  cases normalized : normalize sha256Hex header input with
  | error e => exact fun p same => absurd same (by simp [failed])
  | ok x =>
      obtain ⟨key, hash⟩ := x
      intro e ws ends
      cases ends with
      | @committed base outcome view seen _ ran =>
          intro p same
          have body := @ensures_createIntent_leaves base P seen { locals := {} } draws usePaystack userId key hash
            (toLowerCase input.walletId) input.amountMinor (.start {})
          have returns := @Tx.Ensures.leaves_returns base { locals := {} } _ _ _
            (fun outcome rows => ∀ p, outcome = .ok (.payment p) → Intended P userId key hash p (rows = [.payment p])) _
            (fun payment => (.ok (.payment payment) : AttemptOutcome)) body ?_
          · have right := ((ensures_committing_leaves returns).holds ran).2
            cases outcome with
            | error e => cases same
            | ok reply =>
                cases same
                obtain ⟨user, named, same, there⟩ := right p rfl
                refine ⟨key, hash, rfl, user, named, same, there.imp_right fun rows => ?_⟩
                simp [rows]
          · rintro payment rows intended p ⟨⟩
            exact intended
      | thrown => exact fun p same => absurd same (by simp [failed])
      | aborted d =>
          cases d with
          | uniqueViolation =>
              intro db seen
              cases found : findByKey userId key db with
              | none =>
                  simp only [found]
                  exact fun p same => absurd same (by simp [failed])
              | some existing =>
                  cases replayed : replay existing hash with
                  | error e =>
                      simp only [found, replayed]
                      exact fun p same => absurd same (by simp [failed])
                  | ok payment =>
                      simp only [found, replayed]
                      rintro p same
                      cases same
                      obtain ⟨same, rfl⟩ := replay_eq_ok replayed
                      obtain ⟨mem, user, named⟩ := findByKey_eq_some found
                      exact ⟨key, hash, rfl, user, named, same, .inl ⟨db, seen, mem⟩⟩
          | _ => exact fun p same => absurd same (by simp)

/-- A payment of the key with another request is there. -/
structure Taken (userId : Uuid) (key hash : String) (db : Db) : Prop where
  sound : db.Sound
  taken : ∃ p ∈ db.payments, p.userId = userId ∧ p.idempotencyKey = key ∧ p.requestHash ≠ hash

def usedDifferently : HttpException := conflict "Idempotency-Key was used with a different payment request"

theorem Taken.replays {userId : Uuid} {key hash : String} {db : Db} (h : Taken userId key hash db) :
    ∃ existing, findByKey userId key db = some existing ∧ replay existing hash = .error usedDifferently := by
  obtain ⟨p, hp, user, named, other⟩ := h.taken
  cases found : findByKey userId key db with
  | none =>
      have none := List.find?_eq_none.mp found p hp
      simp [user, named] at none
  | some existing =>
      obtain ⟨mem, user', named'⟩ := findByKey_eq_some found
      have same : Row.payment existing = .payment p := by
        refine h.sound.unique _ mem _ hp (.paymentKey userId key) ?_ ?_
        · simp [Row.keys, Row.slots, user', named']
        · simp [Row.keys, Row.slots, user, named]
      cases same
      refine ⟨p, rfl, ?_⟩
      rw [replay, failIf, if_pos other]
      rfl

/-- A call of `create` with a key that is taken by another request is refused. -/
theorem create_refused {sha256Hex : String → String} {initial : Db} {draws : Draws} {usePaystack : Bool} {userId : Uuid}
    {header : Option String} {input : CreatePaymentDto} {key hash : String}
    (normalized : normalize sha256Hex header input = .ok (key, hash)) :
    (program sha256Hex (.createPayment draws usePaystack userId header input)).Answers
      ((system sha256Hex initial).Ends (Taken userId key hash)) (Taken userId key hash) (fun made result => made = [] ∧
        (result = failed usedDifferently ∨ ∃ d, result = .error (.database d))) [] := by
  change (create sha256Hex draws usePaystack userId header input).Answers _ _ _ _
  unfold create
  rw [normalized]
  intro e ws ends
  have refused (base : Nat → Db) (seen : ∀ n, Taken userId key hash (base n)) (v : View Settings Row Key) (start : Tracks base v []) :
      (Tx.committing do
        let payment ← createIntent draws usePaystack userId key hash (toLowerCase input.walletId) input.amountMinor
        return (.ok (.payment payment) : AttemptOutcome)).Ensures base (fun r _ => r = .error usedDifferently) v := by
    refine ensures_committing_result (ensures_bind (ensures_bind (ensures_read start fun v' tracks => ?_)))
    obtain ⟨existing, found, replays⟩ := (seen v.executed).replays
    rw [Db.write_nil, found]
    exact ensures_lift (fun e thrown => replays.symm.trans thrown ▸ rfl) fun p ok => absurd (replays.symm.trans ok) (by simp)
  cases ends with
  | committed seen _ ran => cases (refused _ seen _ (.start {})).holds ran
  | thrown seen _ ran =>
      cases (refused _ seen _ (.start {})).holds ran
      exact ⟨rfl, .inl rfl⟩
  | aborted d =>
      cases d with
      | uniqueViolation =>
          intro db seen
          obtain ⟨existing, found, replays⟩ := seen.replays
          simp only [found, replays]
          exact ⟨rfl, .inl rfl⟩
      | _ => exact ⟨rfl, .inr ⟨_, rfl⟩⟩

end PaymentsService

section
variable {sha256Hex : String → String} {initial : Db}
  {c : Config Db Settings Row Key DbError HttpException AttemptOutcome Result Request}

/-- The payment that a call of `create` has returned is, or was, in the database. -/
theorem returned_payment (h : (system sha256Hex initial).Reachable c) {call born : Nat} {draws : Draws} {usePaystack : Bool}
    {userId : Uuid} {header : Option String} {input : PaymentsService.CreatePaymentDto} {p : Payment}
    (mem : ⟨call, .createPayment draws usePaystack userId header input, born, .ok (.payment p)⟩ ∈ c.results) :
    ∃ key hash, PaymentsService.normalize sha256Hex header input = .ok (key, hash) ∧ p.userId = userId ∧
      p.idempotencyKey = key ∧ p.requestHash = hash ∧ ∃ k ≤ c.log.length, p ∈ (stateAt initial c.log k).payments := by
  have since : (system sha256Hex initial).Since (fun s => ∃ k ≤ c.log.length, s = stateAt initial c.log k) c.log born :=
    fun k _ le => ⟨k, le, rfl⟩
  obtain ⟨key, hash, normalized, intended⟩ :=
    h.answered mem (PaymentsService.create_answers draws usePaystack userId header input) since p rfl
  refine ⟨key, hash, normalized, intended.user, intended.named, intended.same, ?_⟩
  rcases intended.there with ⟨_, ⟨k, le, rfl⟩, there⟩ | wrote
  · exact ⟨k, le, there⟩
  · obtain ⟨e, he, _, writes⟩ := mem_commitsOf.mp wrote
    obtain ⟨j, lt, rfl⟩ := List.getElem_of_mem he
    refine ⟨j + 1, lt, ?_⟩
    rw [stateAt_succ lt, writes]
    exact Table.mem_put_self _ _

/-! ## Checkouts by their payments -/

/-- A checkout with its URL stays as it is. -/
theorem Row.fixed_of_url {checkout : PaymentCheckout} (h : checkout.checkoutUrl.isSome) :
    (Row.paymentCheckout checkout).Fixed := by
  intro s new table allowed
  cases new <;> cases table
  rw [beforeUpdate, failIf_eq_ok, not_or, not_or] at allowed
  exact allowed.2.1 h

theorem ensures_other_rows {base : Nat → Db} {v : View Settings Row Key} {rows : List Row} (h : Tracks base v []) :
    Tx.Ensures base (do
      Prog.each writeSideRow rows
      return (.ok .done : AttemptOutcome)) (Tx.yields base fun _ _ ws => ws.map Write.row = rows) v := by
  refine ensures_bind (ensures_each (fun done v => ∃ ws, Tracks base v ws ∧ ws.map Write.row = done) rows ⟨[], h, rfl⟩ ?_ ?_)
  · rintro done r rest v₁ _ ⟨ws, h₁, rfl⟩
    refine ensures_writeSideRow h₁ fun v₂ w row _ h₂ => ⟨_, h₂, ?_⟩
    rw [List.map_append, List.map_singleton, row]
  · rintro v₁ ⟨ws, h₁, rows⟩
    exact ensures_pure ⟨ws, h₁, fun _ _ => rows⟩

/-- The other calls write their rows. -/
theorem other_writes (h : (system sha256Hex initial).Reachable c) {j : Nat} (lt : j < c.log.length) {isolation : Isolation}
    {rows : List Row} (request : c.log[j].request = .other isolation rows) : c.log[j].writes = rows := by
  obtain ⟨_, born, isolation', body, next, outcome, view, bases, leads, writes, committed⟩ := h.certified lt
  rw [request] at leads
  change (program sha256Hex (.other isolation rows)).Leads _ at leads
  have body : Body sha256Hex (.other isolation rows) isolation' body := ((program_bodies _).leads leads).1
  cases body with
  | other =>
      obtain ⟨ws, wrote, _, rows⟩ := writes_of_committed rfl committed (ensures_committing (ensures_other_rows (.start {})))
      rw [writes, wrote, rows]

end

/-! ## A run -/

def sampleUrl : String := "https://checkout.paystack.com/abc"

/-- Paystack initializes what it is asked to. -/
def samplePaystack : PaystackProvider.Request → Option Json
  | .initializeTransaction reference _ _ _ => some (.object [("status", .bool true), ("data", .object
      [("reference", .string reference), ("authorization_url", .string sampleUrl)])])
  | .verifyTransaction _ => none

def sampleOrder (n : Nat) (endpoint : Endpoint) : Incoming :=
  { sampleIncoming n (some "pay-1") endpoint with
    env := { sampleEnvironment with paymentProvider := .paystack, paystackSecretKey := some "sk_test_1" } }

def sampleAda : AuthController.RegisterDto where
  email := "ada@example.com"
  password := "correct horse"
  firstName := "Ada"
  lastName := "Obi"
  currency := some .ngn

def sampleIntent : PaymentsService.CreatePaymentDto := { walletId := (sampleUuid 0 1).text, amountMinor := "500000" }

/-- A user registers, and asks twice for the same payment. -/
def sampleOrders : List Incoming :=
  [sampleOrder 0 (.register sampleAda), sampleOrder 1 (.createPayment sampleIntent), sampleOrder 2 (.createPayment sampleIntent)]

def sampleOrdered : List (Entry Request Row) := ((api sampleNode sampleJwt migrated).serveAll samplePaystack sampleOrders 0 {}).log

theorem sampleOrdered_eq : sampleOrdered.length = 6 ∧
    (stateAt migrated sampleOrdered 6).paymentCheckouts.rows.map PaymentCheckout.checkoutUrl = [some sampleUrl] := by
  decide +kernel

theorem sample_ordered : ∃ w, (api sampleNode sampleJwt migrated).Reachable w ∧ w.base.log = sampleOrdered := by
  obtain ⟨w, reach, _, trail⟩ := Gateway.reachable_serveAll (api sampleNode sampleJwt migrated) samplePaystack sampleOrders
  exact ⟨w, reach, congrArg Trail.log trail⟩

/-! ## Runs of the API -/

section
variable {node : Node} {jwt : JwtService} {w : ApiWorld}

/-- The payment was in the database. -/
def Stored (w : ApiWorld) (p : Payment) : Prop := ∃ k ≤ w.base.log.length, p ∈ (stateAt migrated w.base.log k).payments

/-- Payments that share a key are one payment. -/
theorem Stored.identity_eq {p q : Payment} (hp : Stored w p) (hq : Stored w q) (h : (api node jwt migrated).Reachable w)
    {k : Key} (key : ∀ x : Payment, x.identity = p.identity → k ∈ (Row.payment x).keys)
    (key' : ∀ x : Payment, x.identity = q.identity → k ∈ (Row.payment x).keys) : p.identity = q.identity := by
  obtain ⟨i, le, mem⟩ := hp
  obtain ⟨j, le', mem'⟩ := hq
  obtain ⟨x, hx, same⟩ := (later_state h le le_rfl).payment mem
  obtain ⟨y, hy, same'⟩ := (later_state h le' le_rfl).payment mem'
  have sound := (reachable_sound migrated_sound h.invariant.base).1 _ le_rfl
  cases sound.unique (.payment x) hx (.payment y) hy k (key x same) (key' y same')
  exact same.symm.trans same'

/-- The request is the user's, for a payment under the key. -/
structure Asks (node : Node) (jwt : JwtService) (r : Incoming) (userId : Uuid) (key hash : String) : Prop where
  bearer : ∃ sub, JwtAuthGuard.authenticate jwt r.env (r.now / 1000) r.authorization = .ok sub ∧ Uuid.parse? sub = some userId
  payment : ∃ input, r.endpoint = .createPayment input ∧
    PaymentsService.normalize (fun s => node.sha256Hex (utf8 s)) r.idempotencyKey input = .ok (key, hash)

theorem Created.stored (h : (api node jwt migrated).Reachable w) {n j : Nat} {r : Incoming} {p : Payment}
    (created : Created jwt r (w.eventsBefore n j) p) : Stored w p ∧ Asks node jwt r p.userId p.idempotencyKey p.requestHash := by
  obtain ⟨userId, usePaystack, input, call, endpoint, authenticated, returned⟩ := created.returned
  obtain ⟨i, _, at_⟩ := World.mem_eventsBefore.mp returned
  obtain ⟨born, result⟩ := h.invariant.bears _ (List.mem_of_getElem? at_)
  obtain ⟨key, hash, normalized, rfl, rfl, rfl, stored⟩ := returned_payment h.invariant.base result
  exact ⟨stored, authenticated.token, input, endpoint, normalized⟩

/-- With commit `k` the process claimed the checkout, which was not there before, and is there ever after. -/
structure ClaimedAt (w : ApiWorld) (n : Nat) (paymentId : Uuid) (k : Nat) : Prop where
  performed : ∃ (i : Nat) (e : ApiEvent) (entry : Entry Request Row), w.history[i]? = some (n, e) ∧
    w.base.log[k]? = some entry ∧ e.made = some (entry.call, entry.request)
  before : (stateAt migrated w.base.log k).paymentCheckouts.find? paymentId = none
  after : ∀ k' ≤ w.base.log.length, k < k' → (stateAt migrated w.base.log k').paymentCheckouts.find? paymentId ≠ none

theorem Claimed.at_commit (h : (api node jwt migrated).Reachable w) {n j : Nat} {r : Incoming} {p : Payment}
    (claimed : Claimed r (w.eventsBefore n j) p) : ∃ k, k ≤ w.base.log.length ∧ ClaimedAt w n p.id k := by
  obtain ⟨call, k, db, none, performed⟩ := claimed
  obtain ⟨i, _, at_⟩ := World.mem_eventsBefore.mp performed
  obtain ⟨rfl, ws, entry⟩ := h.invariant.bears _ (List.mem_of_getElem? at_)
  obtain ⟨lt, same⟩ := List.getElem?_eq_some_iff.mp entry
  refine ⟨k, lt.le, ⟨i, _, _, at_, entry, rfl⟩, none, fun k' le later gone => ?_⟩
  have writes := other_writes h.invariant.base lt (congrArg Entry.request same)
  have there : { paymentId := p.id, createdAt := r.draws.createdAt .paymentCheckout } ∈
      (stateAt migrated w.base.log (k + 1)).paymentCheckouts := by
    rw [stateAt_succ lt, writes]
    exact Table.mem_put_self _ _
  obtain ⟨x, hx, pk⟩ := @System.stateAt_le _ _ _ _ _ migrated w.base.log _ _ (Nat.succ_le_of_lt later) (.paymentCheckout _) there
  cases x <;> simp only [Row.pk, Key.row.injEq, reduceCtorEq, false_and] at pk
  exact Table.find?_eq_none.mp gone _ hx pk.2

/-- Two processes do not claim the same checkout. -/
theorem ClaimedAt.unique (h : (api node jwt migrated).Reachable w) {n n' k k' : Nat} {paymentId : Uuid} (le : k ≤ w.base.log.length)
    (le' : k' ≤ w.base.log.length) (claimed : ClaimedAt w n paymentId k) (claimed' : ClaimedAt w n' paymentId k') : n = n' := by
  rcases Nat.lt_trichotomy k k' with lt | rfl | lt
  · exact absurd claimed'.before (claimed.after k' le' lt)
  · obtain ⟨i, e, entry, acted, logged, made⟩ := claimed.performed
    obtain ⟨i', e', entry', acted', logged', made'⟩ := claimed'.performed
    cases logged.symm.trans logged'
    obtain rfl := h.made_once acted acted' made made'
    cases acted.symm.trans acted'
    rfl
  · exact absurd claimed.before (claimed'.after k le lt)

/-- The URL that a process knows is the one in the database. -/
theorem Knows.stored (h : (api node jwt migrated).Reachable w) {n j : Nat} {paymentId : Uuid} {url : String}
    (knows : Knows (w.eventsBefore n j) paymentId url) : ∃ k ≤ w.base.log.length, ∃ checkout ∈ (stateAt migrated w.base.log k).paymentCheckouts,
      checkout.paymentId = paymentId ∧ checkout.checkoutUrl = some url := by
  cases knows with
  | read commits db checkout read found known =>
      obtain ⟨i, _, at_⟩ := World.mem_eventsBefore.mp read
      obtain ⟨le, rfl⟩ := h.invariant.bears _ (List.mem_of_getElem? at_)
      obtain ⟨mem, same⟩ := Table.find?_eq_some.mp found
      exact ⟨commits, le, checkout, mem, same, known⟩
  | wrote call commits db checkout found performed =>
      obtain ⟨i, _, at_⟩ := World.mem_eventsBefore.mp performed
      obtain ⟨rfl, ws, entry⟩ := h.invariant.bears _ (List.mem_of_getElem? at_)
      obtain ⟨lt, same⟩ := List.getElem?_eq_some_iff.mp entry
      have writes := other_writes h.invariant.base lt (congrArg Entry.request same)
      refine ⟨commits + 1, lt, { checkout with checkoutUrl := some url }, ?_, (Table.find?_eq_some.mp found).2, rfl⟩
      rw [stateAt_succ lt, writes]
      exact Table.mem_put_self _ _

/-- The URL of a checkout stays. -/
theorem url_stays (h : (api node jwt migrated).Reachable w) {i k : Nat} (le : i ≤ k) (hk : k ≤ w.base.log.length)
    {checkout : PaymentCheckout} (mem : checkout ∈ (stateAt migrated w.base.log i).paymentCheckouts)
    (set : checkout.checkoutUrl.isSome) : checkout ∈ (stateAt migrated w.base.log k).paymentCheckouts :=
  (later_state h le hk).frozen (r := .paymentCheckout checkout) mem (Row.fixed_of_url set).frozen

theorem initialized_once (h : (api node jwt migrated).Reachable w) {i j n n' : Nat} {e e' : ApiEvent} {reference : String}
    (hi : w.history[i]? = some (n, e)) (hj : w.history[j]? = some (n', e')) (asked : IsInitialization e reference)
    (asked' : IsInitialization e' reference) : i = j := by
  obtain ⟨r, _, conforms⟩ := conforming h hi
  obtain ⟨r', _, conforms'⟩ := conforming h hj
  obtain ⟨first, p, created, rfl, claimed⟩ := conforms.initialization reference asked
  obtain ⟨first', p', created', same, claimed'⟩ := conforms'.initialization _ asked'
  obtain ⟨k, le, claims⟩ := claimed.at_commit h
  obtain ⟨k', le', claims'⟩ := claimed'.at_commit h
  have identity : p'.identity = p.identity := by
    refine (created'.stored h).1.identity_eq (created.stored h).1 h (k := .paymentReference p.reference) ?_ ?_
    · intro x kept
      simp [Row.keys, Row.slots, ← same, (Payment.identity_eq.mp kept).2.2.2.2.1]
    · intro x kept
      simp [Row.keys, Row.slots, (Payment.identity_eq.mp kept).2.2.2.2.1]
  rw [(Payment.identity_eq.mp identity).1] at claims'
  obtain rfl := claims.unique h le le' claims'
  -- one process initializes once
  rcases Nat.lt_trichotomy i j with before | same | after
  · exact absurd asked (first' e (World.mem_eventsBefore.mpr ⟨i, before, hi⟩) _)
  · exact same
  · exact absurd asked' (first e' (World.mem_eventsBefore.mpr ⟨j, after, hj⟩) _)

/-- The URL in an answer is stored with the payment's checkout. -/
theorem answered_url (h : (api node jwt migrated).Reachable w) {n : Nat} {p : PaymentsService.PaymentResponse} {u : String}
    (answered : (n, Event.responded (.ok (.payment p (some u)))) ∈ w.history) : ∃ k ≤ w.base.log.length,
      ∃ checkout ∈ (stateAt migrated w.base.log k).paymentCheckouts, checkout.paymentId = p.id ∧ checkout.checkoutUrl = some u := by
  obtain ⟨i, lt, at_⟩ := List.getElem_of_mem answered
  obtain ⟨r, _, conforms⟩ := conforming h (List.getElem?_eq_some_iff.mpr ⟨lt, at_⟩)
  exact ((conforms.response p _ rfl).1 u rfl).stored h

/-- However the processes interleave, fail, crash and are repeated, and whatever the provider answers: the provider is
asked at most once to initialize the checkout of a payment; the URL of a checkout, once there, never changes; and every
URL that is ever answered for a payment is the one that is stored with it. -/
theorem checkouts_once (h : (api node jwt migrated).Reachable w) :
    (∀ (i j n n' : Nat) (e e' : ApiEvent) (reference : String), w.history[i]? = some (n, e) → w.history[j]? = some (n', e') →
      IsInitialization e reference → IsInitialization e' reference → i = j) ∧
    (∀ k ≤ w.base.log.length, ∀ checkout ∈ (stateAt migrated w.base.log k).paymentCheckouts, ∀ url,
      checkout.checkoutUrl = some url →
      (∀ k', k ≤ k' → k' ≤ w.base.log.length → checkout ∈ (stateAt migrated w.base.log k').paymentCheckouts) ∧
      ∀ n p u, (n, Event.responded (.ok (.payment p (some u)))) ∈ w.history → p.id = checkout.paymentId → u = url) ∧
    ∀ n p u, (n, Event.responded (.ok (.payment p (some u)))) ∈ w.history → ∃ k ≤ w.base.log.length,
      ∃ checkout ∈ (stateAt migrated w.base.log k).paymentCheckouts, checkout.paymentId = p.id ∧ checkout.checkoutUrl = some u := by
  refine ⟨fun i j n n' e e' reference => initialized_once h, fun k le checkout mem url set => ⟨fun k' later le' => ?_, ?_⟩,
    fun n p u => answered_url h⟩
  · exact url_stays h later le' mem (by simp [set])
  · intro n p u answered about
    obtain ⟨k', le', checkout', mem', about', set'⟩ := answered_url h answered
    have last := url_stays h le le_rfl mem (by simp [set])
    have last' := url_stays h le' le_rfl mem' (by simp [set'])
    obtain rfl : checkout = checkout' := Table.eq_of_key_eq last last' (about.symm.trans about'.symm)
    exact Option.some.inj (set'.symm.trans set)

theorem checkouts_once_sample : ∃ (w : ApiWorld) (db : Db),
    db.paymentCheckouts.rows.map PaymentCheckout.checkoutUrl = [some sampleUrl] ∧
      ∀ checkout ∈ db.paymentCheckouts, ∀ n p u, (n, Event.responded (.ok (.payment p (some u)))) ∈ w.history →
        p.id = checkout.paymentId → u = sampleUrl := by
  obtain ⟨w, reach, log⟩ := sample_ordered
  obtain ⟨length, urls⟩ := sampleOrdered_eq
  rw [← log] at length urls
  refine ⟨w, _, urls, fun checkout mem n p u => ?_⟩
  have url : checkout.checkoutUrl ∈ [some sampleUrl] := urls ▸ List.mem_map_of_mem mem
  exact ((checkouts_once reach).2.1 6 length.ge checkout mem sampleUrl (List.mem_singleton.mp url)).2 n p u

/-- However calls with one key interleave, fail, crash and are repeated: a user's key names at most one payment, ever;
whoever is answered is answered that payment; and from the moment it is there a call with another request commits nothing
and is refused, unless the database fails. -/
theorem payment_keys_once (h : (api node jwt migrated).Reachable w) :
    (∀ p q, Stored w p → Stored w q → p.userId = q.userId → p.idempotencyKey = q.idempotencyKey → p.identity = q.identity) ∧
    (∀ n r userId key hash p url, w.requests[n]? = some r → Asks node jwt r userId key hash →
      (n, Event.responded (.ok (.payment p url))) ∈ w.history → ∃ q, Stored w q ∧ q.userId = userId ∧
        q.idempotencyKey = key ∧ q.requestHash = hash ∧ p = PaymentsService.toPaymentResponse q) ∧
    ∀ x ∈ w.base.results, ∀ draws usePaystack userId header input key hash,
      x.request = .createPayment draws usePaystack userId header input →
      PaymentsService.normalize (fun s => node.sha256Hex (utf8 s)) header input = .ok (key, hash) →
      (∃ p ∈ (stateAt migrated w.base.log x.born).payments, p.userId = userId ∧ p.idempotencyKey = key ∧ p.requestHash ≠ hash) →
      (∀ e ∈ w.base.log, e.call ≠ x.call) ∧
        (x.result = failed PaymentsService.usedDifferently ∨ ∃ d, x.result = .error (.database d)) := by
  refine ⟨fun p q hp hq user key => ?_, fun n r userId key hash p url served asks answered => ?_,
    fun x hx draws usePaystack userId header input key hash request normalized taken => ?_⟩
  · refine hp.identity_eq hq h (k := .paymentKey p.userId p.idempotencyKey) ?_ ?_
    · intro x kept
      obtain ⟨_, user, _, _, _, key, _⟩ := Payment.identity_eq.mp kept
      simp [Row.keys, Row.slots, user, key]
    · intro x kept
      obtain ⟨_, user', _, _, _, key', _⟩ := Payment.identity_eq.mp kept
      simp [Row.keys, Row.slots, user', key', user, key]
  · obtain ⟨i, lt, at_⟩ := List.getElem_of_mem answered
    obtain ⟨r', served', conforms⟩ := conforming h (List.getElem?_eq_some_iff.mpr ⟨lt, at_⟩)
    cases served.symm.trans served'
    obtain ⟨input, endpoint, normalized⟩ := asks.payment
    obtain ⟨q, created, rfl⟩ := (conforms.response p url rfl).2 input endpoint
    obtain ⟨stored, own⟩ := created.stored h
    obtain ⟨input', endpoint', normalized'⟩ := own.payment
    cases endpoint.symm.trans endpoint'
    cases normalized.symm.trans normalized'
    obtain ⟨sub, token, parsed⟩ := asks.bearer
    obtain ⟨sub', token', parsed'⟩ := own.bearer
    cases token.symm.trans token'
    cases parsed.symm.trans parsed'
    exact ⟨q, stored, rfl, rfl, rfl, rfl⟩
  · have base : (system (fun s => node.sha256Hex (utf8 s)) migrated).Reachable w.base := h.invariant.base
    have since : (system (fun s => node.sha256Hex (utf8 s)) migrated).Since (PaymentsService.Taken userId key hash) w.base.log x.born := by
      intro k lo hi
      obtain ⟨p, hp, user, named, other⟩ := taken
      obtain ⟨p', hp', same⟩ := (later_state h lo hi).payment hp
      obtain ⟨_, user', _, _, _, named', hash', _⟩ := Payment.identity_eq.mp same
      exact ⟨(reachable_sound migrated_sound base).1 k hi, p', hp', user'.trans user, named'.trans named,
        fun equal => other (hash'.symm.trans equal)⟩
    have program := @PaymentsService.create_refused _ migrated draws usePaystack userId header input key hash normalized
    rw [← request] at program
    obtain ⟨none, result⟩ := base.answered hx program since
    refine ⟨fun e he own => ?_, result⟩
    have mem : e.writes ∈ commitsOf w.base.log x.call := mem_commitsOf.mpr ⟨e, he, own, rfl⟩
    rw [none] at mem
    cases mem

theorem payment_keys_once_sample : ∃ w : ApiWorld, w.base.log.length = 6 ∧ ∀ p q, Stored w p → Stored w q →
    p.userId = q.userId → p.idempotencyKey = q.idempotencyKey → p.identity = q.identity := by
  obtain ⟨w, reach, log⟩ := sample_ordered
  exact ⟨w, log ▸ sampleOrdered_eq.1, (payment_keys_once reach).1⟩

end

end Fintech
