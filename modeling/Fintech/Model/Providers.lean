import Mathlib.Data.Rat.Defs
import Fintech.Model.Payments
import Fintech.Model.Transfers

/-!
# Payment providers

What `MockPaymentProvider` and `PaystackProvider` accept of the bodies and responses they parse. A number
of a parsed body is the value of its double.
-/

namespace Fintech

/-- A parsed JSON value; a number beyond the doubles is infinite. -/
inductive Json
  | null
  | bool (value : Bool)
  | number (value : ℚ)
  | infinite
  | string (value : String)
  | array (items : List Json)
  | object (fields : List (String × Json))

namespace Json

def field? (name : String) : Json → Option Json
  | object fields => fields.lookup name
  | _ => none

/-- `z.string()` -/
def string? : Json → Option String
  | string s => some s
  | _ => none

/-- `z.number().int().positive().safe()` -/
def positiveSafeInteger? : Json → Option Int
  | number q => if q.den = 1 ∧ 0 < q.num ∧ q.num ≤ PaymentsService.maxSafeInteger then some q.num else none
  | _ => none

end Json

/-- `word`, then 36 lower-case hexadecimal digits or hyphens. -/
def isReference (word s : String) : Bool :=
  s.toList.take word.length = word.toList ∧ s.length = word.length + 36 ∧
    (s.toList.drop word.length).all fun c => isLowerHex c || c == '-'

def currency? : String → Option Currency
  | "USD" => some .usd
  | "NGN" => some .ngn
  | _ => none

/-- The outcomes that an event can report. -/
def outcome? : String → Option { status : PaymentStatus // status ≠ .pending }
  | "SUCCEEDED" => some ⟨.succeeded, by decide⟩
  | "FAILED" => some ⟨.failed, by decide⟩
  | _ => none

namespace MockPaymentProvider

def isAmount (s : String) : Bool :=
  PaymentsService.isNumeral 19 s && (PaymentsService.isNumeral 19 s && (bigInt? s).any (· ≤ maxMinorUnits))

/-- `eventSchema`, which knows no other field. -/
def eventSchema (payloadHash : String) (input : Json) : Option VerifiedPaymentEvent :=
  match input with
  | .object fields => do
      guard (fields.all fun f => ["eventId", "reference", "amountMinor", "currency", "status"].contains f.1)
      let eventId ← (input.field? "eventId").bind Json.string?
      guard (Uuid.parse? eventId).isSome
      let reference ← (input.field? "reference").bind Json.string?
      guard (isReference "payment:" reference)
      let amountMinor ← (input.field? "amountMinor").bind Json.string?
      guard (isAmount amountMinor)
      let currency ← ((input.field? "currency").bind Json.string?).bind currency?
      let ⟨status, terminal⟩ ← ((input.field? "status").bind Json.string?).bind outcome?
      return { eventId, reference, amountMinor, currency, status, terminal, payloadHash }
  | _ => none

end MockPaymentProvider

namespace PaystackProvider

/-- What `transactionSchema` parses. -/
structure Transaction where
  id : Int
  reference : String
  amount : Int
  domain : String
  status : String
  deriving DecidableEq

def isReference (s : String) : Bool := Fintech.isReference "payment-" s

def transactionSchema (input : Json) : Option Transaction := do
  let id ← (input.field? "id").bind Json.positiveSafeInteger?
  let reference ← (input.field? "reference").bind Json.string?
  guard (isReference reference)
  let amount ← (input.field? "amount").bind Json.positiveSafeInteger?
  let currency ← (input.field? "currency").bind Json.string?
  guard (currency = "NGN")
  let domain ← (input.field? "domain").bind Json.string?
  guard (domain = "test" ∨ domain = "live")
  let status ← (input.field? "status").bind Json.string?
  return { id, reference, amount, domain, status }

/-- The evidence of a successful transaction; a safe integer prints as its decimal numeral. -/
def evidence (sha256Hex : String → String) (data : Transaction) : VerifiedPaymentEvent where
  eventId := "paystack:" ++ toString data.id ++ ":success"
  reference := data.reference
  amountMinor := toString data.amount
  currency := .ngn
  status := .succeeded
  terminal := by decide
  payloadHash := sha256Hex (jsonObject [("eventId", some ("paystack:" ++ toString data.id ++ ":success")),
    ("reference", some data.reference), ("amountMinor", some (toString data.amount)), ("currency", some "NGN"),
    ("status", some "SUCCEEDED"), ("domain", some data.domain)])

/-- `reconcile`, once the provider has answered. -/
def reconcile (sha256Hex : String → String) (secretKey reference : String) (response : Option Json) :
    Except HttpException (Option VerifiedPaymentEvent) := do
  failIf (¬ isReference reference) (badRequest "Invalid Paystack reference")
  let some result := response
    | .error (serviceUnavailable "Paystack request unavailable; reconcile the original payment")
  let some data := if (result.field? "status").any (· matches .bool true) then
      (result.field? "data").bind transactionSchema else none
    | .error (serviceUnavailable "Invalid Paystack verification response")
  let domain := if secretKey.startsWith "sk_test_" then "test" else "live"
  failIf (data.reference ≠ reference ∨ data.domain ≠ domain)
    (serviceUnavailable "Paystack verification identity mismatch")
  return if data.status = "success" then some (evidence sha256Hex data) else none

end PaystackProvider

end Fintech
