import Fintech.Library.Processes
import Fintech.Model.Auth
import Fintech.Model.Reads
import Fintech.Model.Requests
import Fintech.Model.System

/-!
# The API

The controllers with their guard and their pipes, as processes over the system: what the services do around their
calls, with the requests to the payment provider, whose answers may be anything.
-/

namespace Fintech
open Relational Transactional Paging

namespace AuthController

structure RegisterDto where
  email : String
  password : String
  firstName : String
  lastName : String
  currency : Option Currency := none

structure LoginDto where
  email : String
  password : String

/-- `@Transform`, which runs before the checks. -/
def RegisterDto.transform (input : RegisterDto) : RegisterDto :=
  { input with
    email := UsersService.normalizeEmail input.email, firstName := jsTrim input.firstName
    lastName := jsTrim input.lastName }

def LoginDto.transform (input : LoginDto) : LoginDto :=
  { input with email := UsersService.normalizeEmail input.email }

/-- The lengths; every text may be an email. -/
def RegisterDto.isValid (input : RegisterDto) : Bool :=
  bodyLength input.email ≤ 320 && 12 ≤ bodyLength input.password && bodyLength input.password ≤ 256 &&
    [input.firstName, input.lastName].all fun name => 1 ≤ bodyLength name && bodyLength name ≤ 80

def LoginDto.isValid (input : LoginDto) : Bool := bodyLength input.email ≤ 320 && bodyLength input.password ≤ 256

end AuthController

def PaymentsService.CreatePaymentDto.isValid (input : PaymentsService.CreatePaymentDto) : Bool :=
  isUuid input.walletId && bodyLength input.amountMinor ≤ 19 && isPositiveNumeral input.amountMinor

inductive Endpoint
  | register (input : AuthController.RegisterDto)
  | login (input : AuthController.LoginDto)
  | me
  | createWallet (currency : Currency)
  | findWallets
  | findWallet (walletId : String)
  | closeWallet (walletId : String)
  | createTransfer (input : TransfersService.CreateTransferDto)
  | findTransfers
  | findTransfer (transferId : String)
  | createReversal (transferId : String) (input : ReversalsService.CreateReversalDto)
  | findReversal (transferId : String)
  | findAudit (query : ListQuery)
  | createPayment (input : PaymentsService.CreatePaymentDto)
  | findPayments (query : ListQuery)
  | findPayment (id : String)
  | reconcilePayment (id : String)
  | findEvents (id : String) (query : ListQuery)
  | findBeneficiaries
  | findWebhooks
  | findDeliveries (id : String) (query : ListQuery)
  | receivePaystack (rawBody : Bytes) (signature : Option String)
  | receive (rawBody : Bytes) (timestamp signature : Option String)
  /-- What beneficiaries, webhooks and the workers write. -/
  | other (isolation : Isolation) (rows : List Row)

/-- One request: the environment of the process that serves it, the time in milliseconds, what is drawn for it, and
what the client sent. -/
structure Incoming where
  env : Environment
  now : Int
  draws : Draws
  settlements : Nat → Draws
  salt : Digest 16
  authorization : Option String
  idempotencyKey : Option String
  endpoint : Endpoint

inductive Answer
  | reply (reply : Reply)
  | session (token : AuthService.AccessToken) (user : SafeUser) (initialWallet : Option WalletResponse)
  | profile (user : SafeUser)
  | wallets (wallets : List WalletResponse)
  | transfers (transfers : List TransferResponse)
  | audit (page : Page AuditService.AuditLogResponse Uuid)
  | payment (payment : PaymentsService.PaymentResponse) (checkoutUrl : Option String)
  | payments (page : Page PaymentsService.PaymentResponse Uuid)
  | events (page : Page PaymentsService.EventResponse Uuid)
  | beneficiaries (beneficiaries : List BeneficiariesService.BeneficiaryResponse)
  | subscriptions (subscriptions : List WebhooksService.SubscriptionResponse)
  | deliveries (page : Page WebhooksService.DeliveryResponse Uuid)
  | received

abbrev Response := Except Failure Answer

abbrev Handler := Process Db Result DbError Request PaystackProvider.Request (Option Json) Response

namespace Handler

def fail (e : HttpException) : Handler := .respond (.error (.http e))

def answer (result : Except HttpException Answer) : Handler :=
  .respond <| match result with
    | .ok a => .ok a
    | .error e => .error (.http e)

/-- The call of a service, and what follows its success. -/
def run (k : Request) (next : Reply → Handler) : Handler :=
  .call k fun
    | .ok reply => next reply
    | .error f => .respond (.error f)

def reply (r : Reply) : Handler := .respond (.ok (.reply r))

def lift {α : Type} (result : Except HttpException α) (next : α → Handler) : Handler :=
  match result with
  | .ok a => next a
  | .error e => fail e

/-- A statement of its own; an error of the database ends the request. -/
def write (q : Db → Except DbError Request) (next : Db → Handler) : Handler :=
  .statement q next fun d => .respond (.error (.database d))

def withUuid (id : String) (next : Uuid → Handler) : Handler :=
  match Uuid.parse? id with
  | some id => next id
  | none => fail (badRequest "Validation failed (uuid is expected)")

/-- The endpoints that only read. -/
def read (f : Db → Except HttpException Answer) : Handler := .query fun db => answer (f db)

def withBody (valid : Prop) [Decidable valid] (next : Handler) : Handler :=
  if valid then next else fail (badRequest "Bad Request")

end Handler

open Handler

/-- `JwtAuthGuard`, and the controller behind it. -/
def JwtAuthGuard.guard (jwt : JwtService) (r : Incoming) (next : SafeUser → Handler) : Handler :=
  lift (authenticate jwt r.env (r.now / 1000) r.authorization) fun sub =>
    .query fun db => lift (findUser sub db) next

namespace AuthService

/-- What `register` creates the user from. -/
def userInput (node : Node) (salt : Digest 16) (input : AuthController.RegisterDto) : UsersService.CreateUserInput where
  email := UsersService.normalizeEmail input.email
  passwordHash := PasswordService.hash node salt input.password
  firstName := input.firstName
  lastName := input.lastName
  currency := input.currency

def registerUser (node : Node) (jwt : JwtService) (r : Incoming) (input : AuthController.RegisterDto) : Handler :=
  run (.register r.draws (userInput node r.salt input)) fun
    | .registered user wallet =>
        .respond (.ok (.session (issueAccessToken jwt r.env (r.now / 1000) user) user (some wallet)))
    | other => reply other

def loginUser (node : Node) (jwt : JwtService) (r : Incoming) (input : AuthController.LoginDto) : Handler :=
  .query fun db =>
    lift (login node (UsersService.findByEmailWithPassword input.email db) input.password) fun user =>
      .respond (.ok (.session (issueAccessToken jwt r.env (r.now / 1000) user) user none))

def getProfile (user : SafeUser) : Handler :=
  .query fun db =>
    match (db.users.find? user.id).map UsersService.toSafeUser with
    | some user => .respond (.ok (.profile user))
    | none => fail (unauthorized "Authenticated user no longer exists")

end AuthService

namespace PaymentsService

def claims (payment : Payment) (createdAt : Time) (db : Db) : List Row :=
  match db.paymentCheckouts.find? payment.id with
  | some _ => []
  | none => [.paymentCheckout { paymentId := payment.id, createdAt }]

/-- `createMany` with `skipDuplicates` -/
def claimCheckout (payment : Payment) (createdAt : Time) (db : Db) : Except DbError Request :=
  .ok (.other .readCommitted (claims payment createdAt db))

/-- `paymentCheckout.update` -/
def recordCheckout (payment : Payment) (checkoutUrl : String) (db : Db) : Except DbError Request := do
  let checkout ← findOrThrow (db.paymentCheckouts.find? payment.id)
  return .other .readCommitted [.paymentCheckout { checkout with checkoutUrl := some checkoutUrl }]

def answerPayment (payment : Payment) (checkoutUrl : Option String) : Handler :=
  .respond (.ok (.payment (toPaymentResponse payment) checkoutUrl))

def cachedCheckout (payment : Payment) : Handler :=
  .query fun db =>
    match db.paymentCheckouts.find? payment.id with
    | none => .respond (.error (.database .recordNotFound))
    | some cached =>
        match cached.checkoutUrl.filter fun url => url ≠ "" with
        | none => fail (serviceUnavailable
            "Checkout initialization is pending or uncertain; reconcile this payment reference")
        | some url => answerPayment payment (some url)

def startCheckout (env : Environment) (payment : Payment) (email : String) : Handler :=
  lift (PaystackProvider.checkoutRequest env payment.reference (toString payment.amountMinor) payment.currency email)
    fun request => .ask request fun response =>
      lift (PaystackProvider.checkoutUrl payment.reference response) fun url =>
        write (recordCheckout payment url) fun _ => answerPayment payment (some url)

def initializePaystack (r : Incoming) (payment : Payment) : Handler :=
  lift (PaystackProvider.assertEnabled r.env) fun _ => .query fun db =>
    match db.users.find? payment.userId with
    | none => .respond (.error (.database .recordNotFound))
    | some user => write (claimCheckout payment (r.draws.createdAt .paymentCheckout)) fun db =>
        match db.paymentCheckouts.find? payment.id with
        | some _ => cachedCheckout payment
        | none => startCheckout r.env payment user.email

/-- `create`, once the payment is there. -/
def handOver (r : Incoming) (payment : Payment) : Handler :=
  if payment.status ≠ .pending then answerPayment payment none
  else if payment.provider = .paystack then initializePaystack r payment
  else if r.env.paymentProvider = .paystack then fail (conflict "Payment belongs to a different provider")
  else match MockPaymentProvider.initializeIntent r.env payment.reference with
    | .ok _ => answerPayment payment none
    | .error _ => fail (serviceUnavailable
        "Payment initialization unavailable; retry with the same Idempotency-Key")

def createPayment (r : Incoming) (user : SafeUser) (input : CreatePaymentDto) : Handler :=
  let usePaystack : Bool := r.env.paymentProvider = .paystack
  lift (if usePaystack then PaystackProvider.assertEnabled r.env else MockPaymentProvider.assertEnabled r.env) fun _ =>
    run (.createPayment r.draws usePaystack user.id r.idempotencyKey input) fun
      | .payment payment => handOver r payment
      | other => reply other

/-- `PaystackProvider.reconcile` -/
def verifyTransaction (node : Node) (env : Environment) (reference : String)
    (next : Option VerifiedPaymentEvent → Handler) : Handler :=
  lift (PaystackProvider.assertEnabled env) fun _ =>
    if ¬ PaystackProvider.isReference reference then fail (badRequest "Invalid Paystack reference")
    else .ask (.verifyTransaction reference) fun response =>
      lift (PaystackProvider.reconcile (fun s => node.sha256Hex (utf8 s)) (PaystackProvider.secretKey env) reference
        response) next

def receivePaystack (node : Node) (r : Incoming) (rawBody : Bytes) (signature : Option String) : Handler :=
  lift (PaystackProvider.webhookReference node r.env rawBody signature) fun
    | none => .respond (.ok .received)
    | some reference => .query fun db =>
        match db.payments.rows.find? fun p => p.provider = .paystack ∧ p.reference = reference with
        | none => .respond (.ok .received)
        | some payment => verifyTransaction node r.env payment.reference fun
            | none => fail (serviceUnavailable "Provider has not confirmed success; retry webhook")
            | some event => run (.settle r.settlements event .paystack) reply

def receive (node : Node) (r : Incoming) (rawBody : Bytes) (timestamp signature : Option String) : Handler :=
  lift (MockPaymentProvider.verify node r.env r.now rawBody timestamp signature) fun event =>
    run (.settle r.settlements event .mock) reply

def answerFound (user : SafeUser) (id : Uuid) : Handler :=
  .query fun db => answer ((findOne db user.id id).map fun p => .payment p none)

def reconcile (node : Node) (r : Incoming) (user : SafeUser) (id : Uuid) : Handler :=
  .query fun db =>
    match findFirst (fun p => p.userId = user.id) db.payments id with
    | none => fail (notFound "Payment not found")
    | some payment =>
        if payment.provider ≠ .paystack then fail (badRequest "Reconciliation requires a Paystack payment")
        else if payment.status ≠ .pending then answerFound user id
        else verifyTransaction node r.env payment.reference fun
          | none => answerFound user id
          | some event => run (.settle r.settlements event .paystack) fun _ => answerFound user id

end PaymentsService

def handle (node : Node) (jwt : JwtService) (r : Incoming) : Handler :=
  let guarded := JwtAuthGuard.guard jwt r
  match r.endpoint with
  | .register input => withBody input.transform.isValid <| AuthService.registerUser node jwt r input.transform
  | .login input => withBody input.transform.isValid <| AuthService.loginUser node jwt r input.transform
  | .me => guarded AuthService.getProfile
  | .createWallet currency => guarded fun user => run (.createWallet r.draws user.id currency) reply
  | .findWallets => guarded fun user => read fun db => .ok (.wallets (WalletsService.findAllForUser db user.id))
  | .findWallet walletId => guarded fun user => withUuid walletId fun id =>
      read fun db => (WalletsService.findOneForUser db user.id id).map fun w => .reply (.wallet w)
  | .closeWallet walletId => guarded fun user => withUuid walletId fun _ =>
      run (.closeWallet r.draws user.id walletId) reply
  | .createTransfer input => guarded fun user => withBody input.Valid <|
      run (.createTransfer r.draws user.id r.idempotencyKey input) reply
  | .findTransfers => guarded fun user => read fun db =>
      .ok (.transfers (TransfersService.findAllForUser db user.id))
  | .findTransfer transferId => guarded fun user => withUuid transferId fun id =>
      read fun db => (TransfersService.findOneForUser db user.id id).map fun t => .reply (.transfer t)
  | .createReversal transferId input => guarded fun user => withUuid transferId fun _ =>
      withBody input.transform.Valid <|
        run (.createReversal r.draws user.id transferId r.idempotencyKey input.transform) reply
  | .findReversal transferId => guarded fun user => withUuid transferId fun id =>
      read fun db => (ReversalsService.findOneForUser db user.id id).map fun v => .reply (.reversal v)
  | .findAudit query => guarded fun user => read fun db =>
      (AuditService.findAllForUser db user.id query).map .audit
  | .createPayment input => guarded fun user => withBody input.isValid <|
      PaymentsService.createPayment r user input
  | .findPayments query => guarded fun user => read fun db =>
      (PaymentsService.list db user.id query).map .payments
  | .findPayment id => guarded fun user => withUuid id fun id =>
      read fun db => (PaymentsService.findOne db user.id id).map fun p => .payment p none
  | .reconcilePayment id => guarded fun user => withUuid id (PaymentsService.reconcile node r user)
  | .findEvents id query => guarded fun user => withUuid id fun id =>
      read fun db => (PaymentsService.events db user.id id query).map .events
  | .findBeneficiaries => guarded fun user => .query fun db =>
      .respond <| match BeneficiariesService.findAll db user.id with
        | .ok beneficiaries => .ok (.beneficiaries beneficiaries)
        | .error d => .error (.database d)
  | .findWebhooks => guarded fun user => read fun db => .ok (.subscriptions (WebhooksService.list db user.id))
  | .findDeliveries id query => guarded fun user => withUuid id fun id =>
      read fun db => (WebhooksService.deliveries db user.id id query).map .deliveries
  | .receivePaystack rawBody signature => PaymentsService.receivePaystack node r rawBody signature
  | .receive rawBody timestamp signature => PaymentsService.receive node r rawBody timestamp signature
  | .other isolation rows => run (.other isolation rows) reply

def api (node : Node) (jwt : JwtService) (initial : Db) :
    Gateway Db Settings Row Key DbError HttpException AttemptOutcome Result Request PaystackProvider.Request
      (Option Json) Response Incoming where
  system := system (fun s => node.sha256Hex (utf8 s)) initial
  handler := handle node jwt

end Fintech
