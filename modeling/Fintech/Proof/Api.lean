import Fintech.Model.Api

/-!
# What the API starts

Every call of the system that a process starts is permitted by the request that it serves: the user is the one whom the
guard has authenticated, and a settlement rests on the evidence of its provider.
-/

namespace Fintech
open Relational Transactional Handler

abbrev ApiEvent := Event Db Result DbError Request PaystackProvider.Request (Option Json) Response

abbrev ApiWorld := World Db Settings Row Key DbError HttpException AttemptOutcome Result Request PaystackProvider.Request
  (Option Json) Response Incoming

/-- The token of the request names the user, who was there when the guard looked. -/
structure Authenticated (jwt : JwtService) (r : Incoming) (done : List ApiEvent) (userId : Uuid) : Prop where
  token : ∃ sub, JwtAuthGuard.authenticate jwt r.env (r.now / 1000) r.authorization = .ok sub ∧ Uuid.parse? sub = some userId
  there : ∃ commits db, Event.read commits db ∈ done ∧ ∃ user ∈ db.users, user.id = userId

/-- The evidence on which the process settles the event. -/
inductive Evidence (node : Node) (r : Incoming) (done : List ApiEvent) (event : VerifiedPaymentEvent) :
    PaymentProvider → Prop
  | mock (rawBody : Bytes) (timestamp signature : Option String) : r.endpoint = .receive rawBody timestamp signature →
      MockPaymentProvider.verify node r.env r.now rawBody timestamp signature = .ok event → Evidence node r done event .mock
  | paystack (reference : String) (response : Option Json) :
      Event.answered (.verifyTransaction reference) response ∈ done → PaystackProvider.isEnabled r.env →
      PaystackProvider.reconcile (fun s => node.sha256Hex (utf8 s)) (PaystackProvider.secretKey r.env) reference response =
        .ok (some event) → Evidence node r done event .paystack

/-- The provider is enabled in the environment. -/
inductive Selects (env : Environment) : PaymentProvider → Prop
  | mock : MockPaymentProvider.isEnabled env → Selects env .mock
  | paystack : PaystackProvider.isEnabled env → Selects env .paystack

/-- The calls that a process may start after what it has done. -/
inductive Permits (node : Node) (jwt : JwtService) (r : Incoming) (done : List ApiEvent) : Request → Prop
  | register (input : AuthController.RegisterDto) : r.endpoint = .register input →
      Permits node jwt r done (.register r.draws (AuthService.userInput node r.salt input.transform))
  | createWallet {userId} (currency : Currency) : Authenticated jwt r done userId →
      Permits node jwt r done (.createWallet r.draws userId currency)
  | closeWallet {userId} (walletId : String) : Authenticated jwt r done userId →
      Permits node jwt r done (.closeWallet r.draws userId walletId)
  | createTransfer {userId} (input : TransfersService.CreateTransferDto) : input.Valid → Authenticated jwt r done userId →
      Permits node jwt r done (.createTransfer r.draws userId r.idempotencyKey input)
  | createReversal {userId} (transferId : String) (input : ReversalsService.CreateReversalDto) : input.Valid →
      Authenticated jwt r done userId →
      Permits node jwt r done (.createReversal r.draws userId transferId r.idempotencyKey input)
  | createPayment {userId} (usePaystack : Bool) (input : PaymentsService.CreatePaymentDto) :
      Selects r.env (if usePaystack then .paystack else .mock) → Authenticated jwt r done userId →
      Permits node jwt r done (.createPayment r.draws usePaystack userId r.idempotencyKey input)
  | settle {event provider} : Evidence node r done event provider →
      Permits node jwt r done (.settle r.settlements event provider)
  | other (isolation : Isolation) (rows : List Row) : Permits node jwt r done (.other isolation rows)

/-! ## Checkouts -/

def IsInitialization (e : ApiEvent) (reference : String) : Prop :=
  ∃ amount currency email, e = .asked (.initializeTransaction reference amount currency email)

/-- The call of `createPayment` that the process has made returned the payment. -/
structure Created (jwt : JwtService) (r : Incoming) (done : List ApiEvent) (p : Payment) : Prop where
  intro ::
  returned : ∃ userId usePaystack input call, r.endpoint = .createPayment input ∧ Authenticated jwt r done userId ∧
    Event.returned call (.createPayment r.draws usePaystack userId r.idempotencyKey input) (.ok (.payment p)) ∈ done

/-- The process has found no checkout of the payment, and has claimed it. -/
def Claimed (r : Incoming) (done : List ApiEvent) (p : Payment) : Prop :=
  ∃ call commits db, db.paymentCheckouts.find? p.id = none ∧ Event.performed call commits db
    (.other .readCommitted [.paymentCheckout { paymentId := p.id, createdAt := r.draws.createdAt .paymentCheckout }]) ∈ done

/-- The process has read the URL of the payment's checkout, or has written it. -/
inductive Knows (done : List ApiEvent) (paymentId : Uuid) (url : String) : Prop
  | read (commits : Nat) (db : Db) (checkout : PaymentCheckout) : Event.read commits db ∈ done →
      db.paymentCheckouts.find? paymentId = some checkout → checkout.checkoutUrl = some url → Knows done paymentId url
  | wrote (call commits : Nat) (db : Db) (checkout : PaymentCheckout) :
      db.paymentCheckouts.find? paymentId = some checkout → Event.performed call commits db
        (.other .readCommitted [.paymentCheckout { checkout with checkoutUrl := some url }]) ∈ done → Knows done paymentId url

/-! ## Sessions -/

/-- The process has registered the user, or has read the user and has verified the password. -/
inductive Admits (node : Node) (r : Incoming) (done : List ApiEvent) : SafeUser → Prop
  | registered {user : SafeUser} (input : AuthController.RegisterDto) (call : Nat) (wallet : WalletResponse) :
      r.endpoint = .register input →
      Event.called call (.register r.draws (AuthService.userInput node r.salt input.transform)) ∈ done →
      Event.returned call (.register r.draws (AuthService.userInput node r.salt input.transform))
        (.ok (.registered user wallet)) ∈ done →
      Admits node r done user
  | loggedIn (input : AuthController.LoginDto) (commits : Nat) (db : Db) (user : User) : r.endpoint = .login input →
      Event.read commits db ∈ done → UsersService.findByEmailWithPassword input.transform.email db = some user →
      PasswordService.verifyOrBurn node input.password (some user.passwordHash) →
      Admits node r done (UsersService.toSafeUser user)

/-- What a process may do after what it has done. -/
structure Conforms (node : Node) (jwt : JwtService) (r : Incoming) (done : List ApiEvent) (e : ApiEvent) : Prop where
  call : ∀ m k, e.made = some (m, k) → Permits node jwt r done k
  initialization : ∀ reference, IsInitialization e reference → (∀ e' ∈ done, ∀ reference', ¬ IsInitialization e' reference') ∧
    ∃ p, Created jwt r done p ∧ p.reference = reference ∧ Claimed r done p
  response : ∀ p url, e = .responded (.ok (.payment p url)) → (∀ u, url = some u → Knows done p.id u) ∧
    ∀ input, r.endpoint = .createPayment input → ∃ payment, Created jwt r done payment ∧ p = PaymentsService.toPaymentResponse payment
  session : ∀ token user wallet, e = .responded (.ok (.session token user wallet)) →
    token = AuthService.issueAccessToken jwt r.env (r.now / 1000) user ∧ Admits node r done user

/-- Neither a payment nor a session. -/
def Answer.IsPlain : Answer → Prop
  | .payment _ _ | .session _ _ _ => False
  | _ => True

/-- Whatever the process does conforms. -/
structure Permitting (node : Node) (jwt : JwtService) (r : Incoming) (p : Handler) (done : List ApiEvent) : Prop where
  always : p.Always (fun _ => True) (Conforms node jwt r) done

section
variable {node : Node} {jwt : JwtService} {r : Incoming} {done : List ApiEvent} {user : SafeUser}

theorem Authenticated.append {userId : Uuid} (h : Authenticated jwt r done userId) (more : List ApiEvent) :
    Authenticated jwt r (done ++ more) userId := by
  obtain ⟨commits, db, read, there⟩ := h.there
  exact ⟨h.token, commits, db, List.mem_append_left _ read, there⟩

theorem Created.append {p : Payment} (h : Created jwt r done p) (more : List ApiEvent) : Created jwt r (done ++ more) p := by
  obtain ⟨userId, usePaystack, input, call, endpoint, authenticated, returned⟩ := h.returned
  exact ⟨userId, usePaystack, input, call, endpoint, authenticated.append more, List.mem_append_left _ returned⟩

/-- No checkout has been initialized. -/
def Uninitialized (done : List ApiEvent) : Prop := ∀ e ∈ done, ∀ reference, ¬ IsInitialization e reference

theorem Uninitialized.concat (h : Uninitialized done) {e : ApiEvent} (other : ∀ reference, ¬ IsInitialization e reference) :
    Uninitialized (done ++ [e]) := by
  intro x hx
  rcases List.mem_append.mp hx with hx | hx
  · exact h x hx
  · rw [List.mem_singleton.mp hx]
    exact other

theorem mapped_eq_ok {ε α β : Type} {x : Except ε α} {f : α → β} {b : β} (h : x.map f = .ok b) : ∃ a, x = .ok a ∧ f a = b := by
  cases x with
  | error e => cases h
  | ok a => exact ⟨a, rfl, Except.ok.inj h⟩

theorem conforms_of_plain {e : ApiEvent} (made : e.made = none) (other : ∀ reference, ¬ IsInitialization e reference)
    (response : ∀ t, e ≠ .responded t) : Conforms node jwt r done e := by
  constructor
  · intro m k own
    cases made.symm.trans own
  · intro reference initialization
    exact absurd initialization (other reference)
  · intro p url same
    exact absurd same (response _)
  · intro token user wallet same
    exact absurd same (response _)

theorem conforms_read (commits : Nat) (db : Db) : Conforms node jwt r done (.read commits db) :=
  conforms_of_plain rfl (by rintro _ ⟨_, _, _, ⟨⟩⟩) (by rintro _ ⟨⟩)

theorem conforms_returned (m : Nat) (k : Request) (result : Result) : Conforms node jwt r done (.returned m k result) :=
  conforms_of_plain rfl (by rintro _ ⟨_, _, _, ⟨⟩⟩) (by rintro _ ⟨⟩)

theorem conforms_made {e : ApiEvent} {m : Nat} {k : Request} (made : e.made = some (m, k)) (permits : Permits node jwt r done k) :
    Conforms node jwt r done e := by
  constructor
  · intro m' k' own
    cases made.symm.trans own
    exact permits
  · rintro reference ⟨_, _, _, rfl⟩
    cases made
  · rintro p url rfl
    cases made
  · rintro token user wallet rfl
    cases made

theorem permitting_respond {t : Response}
    (payment : ∀ p url, t = .ok (.payment p url) → (∀ u, url = some u → Knows done p.id u) ∧ ∀ input,
      r.endpoint = .createPayment input → ∃ payment, Created jwt r done payment ∧ p = PaymentsService.toPaymentResponse payment)
    (session : ∀ token user wallet, t = .ok (.session token user wallet) →
      token = AuthService.issueAccessToken jwt r.env (r.now / 1000) user ∧ Admits node r done user) :
    Permitting node jwt r (.respond t) done := by
  refine ⟨fun _ => ⟨?_, ?_, ?_, ?_⟩⟩
  · rintro m k ⟨⟩
  · rintro reference ⟨_, _, _, ⟨⟩⟩
  · rintro p url same
    cases same
    exact payment p url rfl
  · rintro token user wallet same
    cases same
    exact session token user wallet rfl

theorem permitting_plain {t : Response} (plain : ∀ a, t = .ok a → a.IsPlain) : Permitting node jwt r (.respond t) done := by
  apply permitting_respond
  · rintro p url same
    exact (plain _ same).elim
  · rintro token user wallet same
    exact (plain _ same).elim

theorem permitting_error (f : Failure) : Permitting node jwt r (.respond (.error f)) done :=
  permitting_plain fun a same => absurd same (by simp)

theorem permitting_fail (e : HttpException) : Permitting node jwt r (fail e) done := permitting_error _

theorem permitting_answered {a : Answer} (plain : a.IsPlain) : Permitting node jwt r (.respond (.ok a)) done :=
  permitting_plain fun _ same => Except.ok.inj same ▸ plain

theorem permitting_reply (reply : Reply) : Permitting node jwt r (Handler.reply reply) done := permitting_answered trivial

theorem permitting_answer {result : Except HttpException Answer} (plain : ∀ a, result = .ok a → a.IsPlain) :
    Permitting node jwt r (answer result) done := by
  cases result with
  | error e => exact permitting_fail e
  | ok a => exact permitting_answered (plain a rfl)

theorem permitting_query {q : Db → Handler}
    (h : ∀ commits db, Permitting node jwt r (q db) (done ++ [.read commits db])) : Permitting node jwt r (.query q) done :=
  ⟨fun commits db _ => ⟨conforms_read commits db, (h commits db).always⟩⟩

theorem permitting_read {f : Db → Except HttpException Answer} (plain : ∀ db a, f db = .ok a → a.IsPlain) :
    Permitting node jwt r (Handler.read f) done :=
  permitting_query fun _ db => permitting_answer (plain db)

theorem permitting_list {f : Db → Answer} (plain : ∀ db, (f db).IsPlain) :
    Permitting node jwt r (Handler.read fun db => .ok (f db)) done :=
  permitting_read fun db _ same => Except.ok.inj same ▸ plain db

theorem permitting_mapped {α : Type} {f : Db → Except HttpException α} {g : α → Answer} (plain : ∀ a, (g a).IsPlain) :
    Permitting node jwt r (Handler.read fun db => (f db).map g) done := by
  refine permitting_read fun db b same => ?_
  obtain ⟨a, _, rfl⟩ := mapped_eq_ok same
  exact plain a

theorem permitting_run {k : Request} {next : Reply → Handler} (permits : Permits node jwt r done k)
    (h : ∀ m reply, Permitting node jwt r (next reply) (done ++ [.called m k] ++ [.returned m k (.ok reply)])) :
    Permitting node jwt r (run k next) done := by
  refine ⟨fun m _ => ⟨conforms_made rfl permits, fun result _ => ⟨conforms_returned m k result, ?_⟩⟩⟩
  cases result with
  | ok reply => exact (h m reply).always
  | error f => exact (permitting_error f).always

theorem permitting_ask {o : PaystackProvider.Request} {next : Option Json → Handler}
    (initialization : ∀ reference, IsInitialization (.asked o) reference → Uninitialized done ∧
      ∃ p, Created jwt r done p ∧ p.reference = reference ∧ Claimed r done p)
    (h : ∀ i, Permitting node jwt r (next i) (done ++ [.asked o] ++ [.answered o i])) :
    Permitting node jwt r (.ask o next) done := by
  refine ⟨fun _ => ⟨⟨?_, initialization, ?_, ?_⟩, fun i _ => ⟨?_, (h i).always⟩⟩⟩
  · rintro m k ⟨⟩
  · rintro p url ⟨⟩
  · rintro token user wallet ⟨⟩
  · exact conforms_of_plain rfl (by rintro _ ⟨_, _, _, ⟨⟩⟩) (by rintro _ ⟨⟩)

theorem permitting_write {q : Db → Except DbError Request} {next : Db → Handler}
    (others : ∀ db k, q db = .ok k → ∃ isolation rows, k = .other isolation rows)
    (h : ∀ m commits db k, q db = .ok k → Permitting node jwt r (next db) (done ++ [.performed m commits db k])) :
    Permitting node jwt r (write q next) done := by
  refine ⟨fun m commits db k ok _ => ⟨?_, (h m commits db k ok).always⟩, fun d _ => ⟨?_, (permitting_error _).always⟩⟩
  · obtain ⟨isolation, rows, rfl⟩ := others db k ok
    exact conforms_made rfl (.other isolation rows)
  · exact conforms_of_plain rfl (by rintro _ ⟨_, _, _, ⟨⟩⟩) (by rintro _ ⟨⟩)

theorem permitting_lift {α : Type} {result : Except HttpException α} {next : α → Handler}
    (h : ∀ a, result = .ok a → Permitting node jwt r (next a) done) : Permitting node jwt r (lift result next) done := by
  cases result with
  | ok a => exact h a rfl
  | error e => exact permitting_fail e

theorem permitting_withUuid {id : String} {next : Uuid → Handler} (h : ∀ id, Permitting node jwt r (next id) done) :
    Permitting node jwt r (withUuid id next) done := by
  unfold withUuid
  split
  · exact h _
  · exact permitting_fail _

theorem permitting_withBody {valid : Prop} [Decidable valid] {next : Handler}
    (h : valid → Permitting node jwt r next done) : Permitting node jwt r (withBody valid next) done := by
  unfold withBody
  split
  · rename_i valid
    exact h valid
  · exact permitting_fail _

end

theorem JwtAuthGuard.findUser_eq_ok {sub : String} {db : Db} {user : SafeUser} (h : findUser sub db = .ok user) :
    Uuid.parse? sub = some user.id ∧ ∃ u ∈ db.users, user = UsersService.toSafeUser u := by
  cases cast : castUuid sub with
  | error d =>
      rw [findUser, UsersService.findSafeById, cast] at h
      cases h
  | ok id =>
      cases row : db.users.find? id with
      | none =>
          simp only [findUser, UsersService.findSafeById, cast, bind, Except.bind, row] at h
          cases h
      | some u =>
          simp only [findUser, UsersService.findSafeById, cast, bind, Except.bind, row] at h
          cases h
          obtain ⟨mem, same⟩ := Table.find?_eq_some.mp row
          exact ⟨(castUuid_eq_ok.mp cast).trans (congrArg some same.symm), u, mem, rfl⟩

section
variable {node : Node} {jwt : JwtService} {r : Incoming} {done : List ApiEvent}

/-- The user that the guard hands on is authenticated. -/
theorem permitting_guard {next : SafeUser → Handler} (h : ∀ user commits db, Authenticated jwt r [.read commits db] user.id →
    Permitting node jwt r (next user) [.read commits db]) : Permitting node jwt r (JwtAuthGuard.guard jwt r next) [] := by
  refine permitting_lift fun sub token => permitting_query fun commits db => permitting_lift fun user found => ?_
  obtain ⟨parsed, u, there, rfl⟩ := JwtAuthGuard.findUser_eq_ok found
  exact h _ _ _ ⟨⟨sub, token, parsed⟩, commits, db, by simp, u, there, rfl⟩

namespace AuthService

theorem permitting_registerUser {input : AuthController.RegisterDto} (endpoint : r.endpoint = .register input) :
    Permitting node jwt r (registerUser node jwt r input.transform) done := by
  refine permitting_run (.register input endpoint) fun m reply => ?_
  split
  · rename_i user wallet
    refine permitting_respond (by simp) ?_
    rintro token user' wallet' same
    cases same
    exact ⟨rfl, .registered input m wallet endpoint (by simp) (by simp)⟩
  · exact permitting_reply _

theorem login_eq_ok {user : Option User} {password : String} {found : SafeUser} (h : login node user password = .ok found) :
    ∃ u, user = some u ∧ PasswordService.verifyOrBurn node password (some u.passwordHash) = true ∧
      found = UsersService.toSafeUser u := by
  unfold login at h
  split at h
  · rename_i u
    split at h
    · rename_i verified
      cases h
      exact ⟨u, rfl, verified, rfl⟩
    · cases h
  · cases h

theorem permitting_loginUser {input : AuthController.LoginDto} (endpoint : r.endpoint = .login input) :
    Permitting node jwt r (loginUser node jwt r input.transform) done := by
  refine permitting_query fun commits db => permitting_lift fun user logged => permitting_respond (by simp) ?_
  rintro token user' wallet same
  cases same
  obtain ⟨u, found, verified, rfl⟩ := login_eq_ok logged
  simp only [AuthController.LoginDto.transform] at verified
  exact ⟨rfl, .loggedIn input commits db u endpoint (by simp) found verified⟩

theorem permitting_getProfile (user : SafeUser) : Permitting node jwt r (getProfile user) done := by
  refine permitting_query fun commits db => ?_
  split
  · exact permitting_answered trivial
  · exact permitting_fail _

end AuthService

/-! ## Payments -/

namespace PaymentsService

theorem permitting_answerPayment {payment : Payment} {checkoutUrl : Option String} (created : Created jwt r done payment)
    (known : ∀ u, checkoutUrl = some u → Knows done payment.id u) :
    Permitting node jwt r (answerPayment payment checkoutUrl) done := by
  refine permitting_respond (fun p url same => ?_) (by simp)
  cases same
  exact ⟨known, fun _ _ => ⟨payment, created, rfl⟩⟩

theorem permitting_cachedCheckout {payment : Payment} (created : Created jwt r done payment) :
    Permitting node jwt r (cachedCheckout payment) done := by
  refine permitting_query fun commits db => ?_
  split
  · exact permitting_error _
  · rename_i cached found
    split
    · exact permitting_fail _
    · rename_i url filtered
      refine permitting_answerPayment (created.append _) ?_
      rintro u ⟨⟩
      exact .read commits db cached (by simp) found (Option.filter_eq_some_iff.mp filtered).1

theorem recordCheckout_eq_ok {payment : Payment} {url : String} {db : Db} {k : Request} (h : recordCheckout payment url db = .ok k) :
    ∃ checkout, db.paymentCheckouts.find? payment.id = some checkout ∧
      k = .other .readCommitted [.paymentCheckout { checkout with checkoutUrl := some url }] := by
  cases found : db.paymentCheckouts.find? payment.id with
  | none =>
      rw [recordCheckout, found] at h
      cases h
  | some checkout =>
      rw [recordCheckout, found] at h
      cases h
      exact ⟨checkout, rfl, rfl⟩

theorem permitting_startCheckout {env : Environment} {payment : Payment} {email : String} (created : Created jwt r done payment)
    (claimed : Claimed r done payment) (fresh : Uninitialized done) :
    Permitting node jwt r (startCheckout env payment email) done := by
  refine permitting_lift fun request asks => permitting_ask ?_ fun response => permitting_lift fun url _ => ?_
  · rintro reference ⟨amount, currency, email, same⟩
    refine ⟨fresh, payment, created, ?_, claimed⟩
    simp only [PaystackProvider.checkoutRequest, bind_unit_eq_ok] at asks
    obtain ⟨_, _, _, asks⟩ := asks
    cases asks
    cases same
    rfl
  · apply permitting_write
    · intro db k ok
      obtain ⟨checkout, _, rfl⟩ := recordCheckout_eq_ok ok
      exact ⟨_, _, rfl⟩
    · intro m commits db k ok
      obtain ⟨checkout, found, rfl⟩ := recordCheckout_eq_ok ok
      refine permitting_answerPayment (((created.append _).append _).append _) ?_
      rintro u ⟨⟩
      exact .wrote m commits db checkout found (by simp)

theorem permitting_initializePaystack {payment : Payment} (created : Created jwt r done payment)
    (fresh : Uninitialized done) : Permitting node jwt r (initializePaystack r payment) done := by
  refine permitting_lift fun _ _ => permitting_query fun commits db => ?_
  split
  · exact permitting_error _
  · apply permitting_write
    · intro db k ok
      cases ok
      exact ⟨_, _, rfl⟩
    · intro m commits db k ok
      cases ok
      split
      · exact permitting_cachedCheckout ((created.append _).append _)
      · rename_i found
        apply permitting_startCheckout ((created.append _).append _)
        · refine ⟨m, commits, db, found, ?_⟩
          rw [claims, found]
          simp
        · exact (fresh.concat (by rintro _ ⟨_, _, _, ⟨⟩⟩)).concat (by rintro _ ⟨_, _, _, ⟨⟩⟩)

theorem permitting_handOver {payment : Payment} (created : Created jwt r done payment) (fresh : Uninitialized done) :
    Permitting node jwt r (handOver r payment) done := by
  unfold handOver
  split
  · exact permitting_answerPayment created (by simp)
  · split
    · exact permitting_initializePaystack created fresh
    · split
      · exact permitting_fail _
      · split
        · exact permitting_answerPayment created (by simp)
        · exact permitting_fail _

theorem permitting_createPayment {user : SafeUser} {input : CreatePaymentDto} (endpoint : r.endpoint = .createPayment input)
    (h : Authenticated jwt r done user.id) (fresh : Uninitialized done) :
    Permitting node jwt r (createPayment r user input) done := by
  refine permitting_lift fun _ enabled => permitting_run (.createPayment _ input ?_ h) fun m reply => ?_
  · by_cases paystack : r.env.paymentProvider = .paystack
    · simp only [paystack, decide_true, if_true, PaystackProvider.assertEnabled, failIf_eq_ok, not_not] at enabled
      simpa [paystack] using Selects.paystack enabled
    · simp only [paystack, decide_false, Bool.false_eq_true, if_false, MockPaymentProvider.assertEnabled, failIf_eq_ok,
        not_not] at enabled
      simpa [paystack] using Selects.mock enabled
  split
  · rename_i payment
    apply permitting_handOver
    · exact ⟨user.id, _, input, m, endpoint, (h.append _).append _, List.mem_append_right _ (List.mem_singleton_self _)⟩
    · exact (fresh.concat (by rintro _ ⟨_, _, _, ⟨⟩⟩)).concat (by rintro _ ⟨_, _, _, ⟨⟩⟩)
  · exact permitting_reply _

theorem permitting_verifyTransaction (reference : String) {next : Option VerifiedPaymentEvent → Handler}
    (none : ∀ done, Permitting node jwt r (next none) done)
    (some : ∀ event done, Evidence node r done event .paystack → Permitting node jwt r (next (some event)) done) :
    Permitting node jwt r (verifyTransaction node r.env reference next) done := by
  refine permitting_lift fun _ enabled => ?_
  split
  · exact permitting_fail _
  · refine permitting_ask (by rintro _ ⟨_, _, _, ⟨⟩⟩) fun response => permitting_lift fun event verified => ?_
    cases event with
    | none => exact none _
    | some event =>
        refine some event _ (.paystack reference response (by simp) ?_ verified)
        simpa [PaystackProvider.assertEnabled] using enabled

theorem permitting_receivePaystack (rawBody : Bytes) (signature : Option String) :
    Permitting node jwt r (receivePaystack node r rawBody signature) done := by
  refine permitting_lift fun reference _ => ?_
  cases reference with
  | none => exact permitting_answered trivial
  | some reference =>
      refine permitting_query fun commits db => ?_
      split
      · exact permitting_answered trivial
      · apply permitting_verifyTransaction
        · intro done
          exact permitting_fail _
        · intro event done evidence
          exact permitting_run (.settle evidence) fun _ _ => permitting_reply _

theorem permitting_receive {rawBody : Bytes} {timestamp signature : Option String}
    (endpoint : r.endpoint = .receive rawBody timestamp signature) :
    Permitting node jwt r (receive node r rawBody timestamp signature) done := by
  refine permitting_lift fun event verified => permitting_run ?_ fun _ _ => permitting_reply _
  exact .settle (.mock rawBody timestamp signature endpoint verified)

section
variable (endpoint : ∀ input, r.endpoint ≠ .createPayment input)
include endpoint

theorem permitting_found (db : Db) (userId id : Uuid) :
    Permitting node jwt r (answer ((findOne db userId id).map fun p => .payment p none)) done := by
  cases found : findOne db userId id with
  | error e => exact permitting_fail e
  | ok payment =>
      refine permitting_respond (fun p url same => ?_) (by simp [Except.map])
      cases same
      exact ⟨by simp, fun input own => absurd own (endpoint input)⟩

theorem permitting_answerFound (user : SafeUser) (id : Uuid) : Permitting node jwt r (answerFound user id) done :=
  permitting_query fun _ db => permitting_found endpoint db user.id id

theorem permitting_reconcile (user : SafeUser) (id : Uuid) : Permitting node jwt r (reconcile node r user id) done := by
  refine permitting_query fun commits db => ?_
  split
  · exact permitting_fail _
  · split
    · exact permitting_fail _
    · split
      · exact permitting_answerFound endpoint _ _
      · apply permitting_verifyTransaction
        · intro done
          exact permitting_answerFound endpoint _ _
        · intro event done evidence
          exact permitting_run (.settle evidence) fun _ _ => permitting_answerFound endpoint _ _

end

end PaymentsService

/-- The step lemma: whatever the process of a request does, it may. -/
theorem handle_permits (r : Incoming) : Permitting node jwt r (handle node jwt r) [] := by
  unfold handle
  cases endpoint : r.endpoint with
  | register input => exact permitting_withBody fun _ => AuthService.permitting_registerUser endpoint
  | login input => exact permitting_withBody fun _ => AuthService.permitting_loginUser endpoint
  | me => exact permitting_guard fun user _ _ _ => AuthService.permitting_getProfile user
  | createWallet currency =>
      exact permitting_guard fun user _ _ h => permitting_run (.createWallet currency h) fun _ _ => permitting_reply _
  | findWallets => exact permitting_guard fun user _ _ h => permitting_list fun _ => trivial
  | findWallet walletId =>
      exact permitting_guard fun user _ _ h => permitting_withUuid fun id => permitting_mapped fun _ => trivial
  | closeWallet walletId =>
      refine permitting_guard fun user _ _ h => permitting_withUuid fun id => ?_
      exact permitting_run (.closeWallet walletId h) fun _ _ => permitting_reply _
  | createTransfer input =>
      refine permitting_guard fun user _ _ h => permitting_withBody fun valid => ?_
      exact permitting_run (.createTransfer input valid h) fun _ _ => permitting_reply _
  | findTransfers => exact permitting_guard fun user _ _ h => permitting_list fun _ => trivial
  | findTransfer transferId =>
      exact permitting_guard fun user _ _ h => permitting_withUuid fun id => permitting_mapped fun _ => trivial
  | createReversal transferId input =>
      refine permitting_guard fun user _ _ h => permitting_withUuid fun id => permitting_withBody fun valid => ?_
      exact permitting_run (.createReversal transferId _ valid h) fun _ _ => permitting_reply _
  | findReversal transferId =>
      exact permitting_guard fun user _ _ h => permitting_withUuid fun id => permitting_mapped fun _ => trivial
  | findAudit query => exact permitting_guard fun user _ _ h => permitting_mapped fun _ => trivial
  | createPayment input =>
      refine permitting_guard fun user _ _ h => permitting_withBody fun valid => ?_
      exact PaymentsService.permitting_createPayment endpoint h (by simp [Uninitialized, IsInitialization])
  | findPayments query => exact permitting_guard fun user _ _ h => permitting_mapped fun _ => trivial
  | findPayment id =>
      refine permitting_guard fun user _ _ h => permitting_withUuid fun id => permitting_query fun commits db => ?_
      exact PaymentsService.permitting_found (by simp [endpoint]) db user.id id
  | reconcilePayment id =>
      refine permitting_guard fun user _ _ h => permitting_withUuid fun id => ?_
      exact PaymentsService.permitting_reconcile (by simp [endpoint]) user id
  | findEvents id query => exact permitting_guard fun user _ _ h => permitting_withUuid fun id => permitting_mapped fun _ => trivial
  | findBeneficiaries =>
      refine permitting_guard fun user _ _ h => permitting_query fun commits db => ?_
      cases BeneficiariesService.findAll db user.id with
      | error d => exact permitting_error _
      | ok beneficiaries => exact permitting_answered trivial
  | findWebhooks => exact permitting_guard fun user _ _ h => permitting_list fun _ => trivial
  | findDeliveries id query =>
      exact permitting_guard fun user _ _ h => permitting_withUuid fun id => permitting_mapped fun _ => trivial
  | receivePaystack rawBody signature => exact PaymentsService.permitting_receivePaystack rawBody signature
  | receive rawBody timestamp signature => exact PaymentsService.permitting_receive endpoint
  | other isolation rows => exact permitting_run (.other isolation rows) fun _ _ => permitting_reply _

end

/-! ## Runs -/

section
variable {node : Node} {jwt : JwtService} {initial : Db} {w : ApiWorld}

/-- What a process did, it was allowed to do after what it had done. -/
theorem conforming (h : (api node jwt initial).Reachable w) {j n : Nat} {e : ApiEvent} (acted : w.history[j]? = some (n, e)) :
    ∃ r, w.requests[n]? = some r ∧ Conforms node jwt r (w.eventsBefore n j) e := by
  obtain ⟨rest, events⟩ := World.eventsOf_split acted
  exact h.always (fun r => (handle_permits r).always) (fun _ _ => trivial) events

/-- The run lemma: the process behind each commit was permitted to make the call that committed. -/
theorem permitted (h : (api node jwt initial).Reachable w) {e : Entry Request Row} (he : e ∈ w.base.log) :
    ∃ (n : Nat) (r : Incoming) (done rest : List ApiEvent) (event : ApiEvent), w.requests[n]? = some r ∧
      w.eventsOf n = done ++ event :: rest ∧ event.made = some (e.call, e.request) ∧ Permits node jwt r done e.request := by
  obtain ⟨n, done, event, rest, events, made⟩ := World.origin (h.invariant.named.log e he)
  obtain ⟨r, request, permits⟩ := h.always (fun r => (handle_permits r).always) (fun _ _ => trivial) events
  exact ⟨n, r, done, rest, event, request, events, made, permits.call _ _ made⟩

end

end Fintech
