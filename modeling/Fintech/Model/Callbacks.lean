import Fintech.Library.Encoding
import Fintech.Model.Environment
import Fintech.Model.Providers

/-!
# Provider calls

The rest of `MockPaymentProvider` and `PaystackProvider`: when they are enabled, what they accept as a callback of the
provider, and what they send to it. The digests and `JSON.parse` are parameters.
-/

namespace Fintech

abbrev Bytes := List UInt8

/-- A digest of `n` bytes. -/
abbrev Digest (n : Nat) := { bytes : Bytes // bytes.length = n }

/-- What the services use of Node. -/
structure Node where
  sha256 : Bytes → Digest 32
  hmacSha256 (key : String) : Bytes → Digest 32
  hmacSha512 (key : String) : Bytes → Digest 64
  /-- `scrypt` with the cost of the services. -/
  scrypt (password : String) (salt : Bytes) : Digest 64
  /-- `JSON.parse(buffer.toString('utf8'))` -/
  parseJson : Bytes → Option Json
  /-- `Number(s)`, `none` for `NaN` and the infinities -/
  number : String → Option ℚ

def utf8 (s : String) : Bytes := s.toUTF8.data.toList

/-- `createHash('sha256').update(bytes).digest('hex')` -/
def Node.sha256Hex (node : Node) (bytes : Bytes) : String := Encoding.hex.encode (node.sha256 bytes).1

def unauthorized (message : String) : HttpException := ⟨401, message⟩

def isDigit (c : Char) : Bool := '0' ≤ c && c ≤ '9'

namespace MockPaymentProvider

def isEnabled (env : Environment) : Bool :=
  env.paymentProvider = .mock ∧ env.nodeEnv ≠ .production ∧ 32 ≤ (env.mockProviderWebhookSecret.map jsLength).getD 0

def assertEnabled (env : Environment) : Except HttpException Unit :=
  failIf (¬ isEnabled env) (serviceUnavailable "Mock payment provider is disabled")

/-- `initialize`, whose checkout URL is null. -/
def initializeIntent (env : Environment) (reference : String) : Except HttpException Unit := do
  assertEnabled env
  failIf (¬ isReference "payment:" reference) (badRequest "Invalid payment reference")

/-- `/^\d{10}$/`, and within 300 seconds of `Date.now()`. -/
def isFresh (now : Int) (timestamp : String) : Bool :=
  timestamp.length == 10 && timestamp.toList.all isDigit &&
    (digitsValue? 10 timestamp.toList).any fun seconds => (now - seconds * 1000).natAbs ≤ 300000

/-- `/^v1=[0-9a-f]{64}$/` -/
def isSignature (s : String) : Bool :=
  s.toList.take 3 == "v1=".toList && s.length == 67 && (s.toList.drop 3).all isLowerHex

def expected (node : Node) (secret timestamp : String) (rawBody : Bytes) : Digest 32 :=
  node.hmacSha256 secret (utf8 (timestamp ++ ".") ++ rawBody)

def verify (node : Node) (env : Environment) (now : Int) (rawBody : Bytes) (timestamp signature : Option String) :
    Except HttpException VerifiedPaymentEvent := do
  assertEnabled env
  failIf (rawBody.length = 0 ∨ 16384 < rawBody.length) (badRequest "Invalid provider payload size")
  let some timestamp := timestamp.filter (isFresh now) | .error (unauthorized "Invalid provider signature")
  let some signature := signature.filter isSignature | .error (unauthorized "Invalid provider signature")
  let secret := env.mockProviderWebhookSecret.getD ""
  failIf ((expected node secret timestamp rawBody).1 ≠ Encoding.hex.decode (.ofList (signature.toList.drop 3)))
    (unauthorized "Invalid provider signature")
  let some input := node.parseJson rawBody | .error (badRequest "Invalid provider payload")
  let some event := eventSchema (node.sha256Hex rawBody) input | .error (badRequest "Invalid provider payload")
  return event

end MockPaymentProvider

namespace PaystackProvider

def isEnabled (env : Environment) : Bool :=
  env.paymentProvider = .paystack ∧ env.paystackSecretKey.any fun key =>
    Environment.isPaystackKey key && (!Environment.isLiveKey key || env.nodeEnv = .production)

def assertEnabled (env : Environment) : Except HttpException Unit :=
  failIf (¬ isEnabled env) (serviceUnavailable "Paystack provider is disabled")

def secretKey (env : Environment) : String := env.paystackSecretKey.getD ""

/-- The requests to the provider; a request that fails, or whose response is too large or no JSON, is answered by `none`. -/
inductive Request
  | initializeTransaction (reference amount : String) (currency : Currency) (email : String)
  | verifyTransaction (reference : String)
  deriving DecidableEq

/-- What `initialize` sends. -/
def checkoutRequest (env : Environment) (reference amountMinor : String) (currency : Currency) (email : String) :
    Except HttpException Request := do
  assertEnabled env
  PaymentsService.validateIntent amountMinor currency
  failIf (¬ isReference reference) (badRequest "Invalid Paystack reference")
  return .initializeTransaction reference amountMinor currency email

/-- At most 512 units of `/^https:\/\/checkout\.paystack\.com\/[A-Za-z0-9_-]+$/` -/
def isCheckoutUrl (s : String) : Bool :=
  let origin := "https://checkout.paystack.com/"
  let path := s.toList.drop origin.length
  jsLength s ≤ 512 && s.toList.take origin.length == origin.toList && !path.isEmpty &&
    path.all fun c => ('A' ≤ c && c ≤ 'Z') || ('a' ≤ c && c ≤ 'z') || isDigit c || c == '_' || c == '-'

/-- What `initialize` accepts as a response. -/
def checkoutUrl (reference : String) (response : Option Json) : Except HttpException String := do
  let some result := response
    | .error (serviceUnavailable "Paystack request unavailable; reconcile the original payment")
  let url : Option String := do
    guard ((result.field? "status").any (· matches .bool true))
    let data ← result.field? "data"
    guard ((data.field? "reference").bind Json.string? = some reference)
    (((data.field? "authorization_url").bind Json.string?).filter isCheckoutUrl)
  match url with
  | none => .error (serviceUnavailable "Invalid Paystack initialization response")
  | some url => .ok url

/-- `/^[a-fA-F0-9]{128}$/` -/
def isSignature (s : String) : Bool := Environment.isHex 128 s

/-- The reference that an authentic webhook is about, if it is one of this application. -/
def webhookReference (node : Node) (env : Environment) (raw : Bytes) (signature : Option String) :
    Except HttpException (Option String) := do
  assertEnabled env
  let some signature := signature.filter isSignature | .error (unauthorized "Invalid Paystack signature")
  failIf (raw.length = 0 ∨ 65536 < raw.length) (unauthorized "Invalid Paystack signature")
  failIf ((node.hmacSha512 (secretKey env) raw).1 ≠ Encoding.hex.decode signature)
    (unauthorized "Invalid Paystack signature")
  let some payload := node.parseJson raw | .error (badRequest "Invalid Paystack payload")
  let some event := (payload.field? "event").bind Json.string? | .error (badRequest "Invalid Paystack event")
  if event ≠ "charge.success" then return none
  else
    let some reference := ((payload.field? "data").bind (·.field? "reference")).bind Json.string?
      | .error (badRequest "Invalid Paystack reference")
    return if isReference reference then some reference else none

end PaystackProvider

end Fintech
