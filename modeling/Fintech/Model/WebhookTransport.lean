import Mathlib.Data.Option.Basic
import Fintech.Library.Subnet
import Fintech.Model.Text

/-!
# Webhook transport

`WebhookTransportService`: the endpoints it accepts, the addresses it takes for public, and one `send` as it
reacts to the answer of its lookup, its deadline and its request. The URL parser and the IPv6 grammar are
parameters.
-/

namespace Fintech.WebhookTransport
open Network

inductive ErrorCode | unsafeEndpoint | timeout | networkError
  deriving DecidableEq

/-! ## Addresses -/

def ipv4 (a b c d : Nat) : BitVec 32 := .ofNat 32 (((a * 256 + b) * 256 + c) * 256 + d)

def blocked : List (Cidr 32) := [
  ⟨ipv4 0 0 0 0, 8⟩,
  ⟨ipv4 10 0 0 0, 8⟩,
  ⟨ipv4 100 64 0 0, 10⟩,
  ⟨ipv4 127 0 0 0, 8⟩,
  ⟨ipv4 169 254 0 0, 16⟩,
  ⟨ipv4 172 16 0 0, 12⟩,
  ⟨ipv4 192 0 0 0, 24⟩,
  ⟨ipv4 192 0 2 0, 24⟩,
  ⟨ipv4 192 88 99 0, 24⟩,
  ⟨ipv4 192 168 0 0, 16⟩,
  ⟨ipv4 198 18 0 0, 15⟩,
  ⟨ipv4 198 51 100 0, 24⟩,
  ⟨ipv4 203 0 113 0, 24⟩,
  ⟨ipv4 224 0 0 0, 4⟩,
  ⟨ipv4 240 0 0 0, 4⟩]

/-- A decimal numeral up to 255, without leading zeros. -/
def octet? (cs : List Char) : Option Nat :=
  (digitsValue? 10 cs).filter fun n => n ≤ 255 ∧ Nat.toDigits 10 n = cs

def parseIPv4 (address : String) : Option (BitVec 32) :=
  match address.toList.splitOn '.' with
  | [a, b, c, d] => do return ipv4 (← octet? a) (← octet? b) (← octet? c) (← octet? d)
  | _ => none

/-- `blocked.check(address, 'ipv4')` -/
def isBlocked (ip : BitVec 32) : Bool := blocked.any fun c => c.contains ip

section
variable (isIPv6 : String → Bool)

/-- `isIP` of `node:net` -/
def isIP (address : String) : Nat := if (parseIPv4 address).isSome then 4 else if isIPv6 address then 6 else 0

def isPublicIPv4 (address : String) : Bool :=
  isIP isIPv6 address == 4 && !(parseIPv4 address).any isBlocked

/-! ## Endpoints -/

/-- The components of a parsed URL. -/
structure Url where
  protocol : String
  username : String
  password : String
  hostname : String
  port : String
  hash : String
  deriving DecidableEq

/-- `[a-z0-9](?:[a-z0-9-]*[a-z0-9])?`, in either case -/
def isLabel (label : List Char) : Bool :=
  label.head?.any Char.isAlphanum && label.getLast?.any Char.isAlphanum &&
    label.all fun c => c.isAlphanum || c == '-'

/-- Two labels or more, with dots between them. -/
def isDnsName (hostname : String) : Bool :=
  let labels := hostname.toList.splitOn '.'
  2 ≤ labels.length && labels.all isLabel

structure SafeEndpoint (raw : String) (url : Url) : Prop where
  length : jsLength raw ≤ 2048
  https : url.protocol = "https:"
  port : url.port = "" ∨ url.port = "443"
  username : url.username = ""
  password : url.password = ""
  hash : url.hash = ""
  notIP : isIP isIPv6 url.hostname = 0
  dnsName : isDnsName url.hostname

def parse (newUrl : String → Option Url) (raw : String) : Except ErrorCode Url :=
  match newUrl raw with
  | none => .error .unsafeEndpoint
  | some url =>
      if 2048 < jsLength raw ∨ url.protocol ≠ "https:" ∨ (url.port ≠ "" ∧ url.port ≠ "443") ∨ url.username ≠ "" ∨
          url.password ≠ "" ∨ url.hash ≠ "" ∨ isIP isIPv6 url.hostname ≠ 0 ∨ ¬ isDnsName url.hostname then
        .error .unsafeEndpoint
      else .ok url

/-- `resolve`, once the lookup has answered. -/
def resolve (addresses : List String) : Except ErrorCode String :=
  match addresses with
  | [] => .error .unsafeEndpoint
  | first :: _ => if addresses.any fun a => ¬ isPublicIPv4 isIPv6 a then .error .unsafeEndpoint else .ok first

/-! ## One send -/

inductive Event
  | answered (addresses : List String)
  | lookupFailed
  | deadline
  | response (statusCode : Nat)
  | requestFailed
  deriving DecidableEq

inductive Phase
  | resolving (url : Url)
  | requesting
  | ended
  deriving DecidableEq

structure Send where
  phase : Phase
  /-- `signal.aborted` -/
  aborted : Bool := false
  /-- The addresses that connections were opened to. -/
  connections : List String := []
  result : Option (Except ErrorCode Nat) := none

/-- The operation throws: `withDeadline` reports the deadline if it has passed, and only its first outcome counts. -/
def Send.fail (s : Send) (code : ErrorCode) : Send :=
  { s with phase := .ended, result := s.result.or (some (.error (if s.aborted then .timeout else code))) }

/-- `request` connects to a host that is an address, and else to what its `lookup` calls back with. -/
def connectTo (url : Url) (looked : String) : String := if isIP isIPv6 url.hostname ≠ 0 then url.hostname else looked

def Send.step (s : Send) : Event → Send
  | .deadline =>
      -- The timer is cleared once there is a result.
      if s.result.isSome then s else { s with aborted := true, result := some (.error .timeout) }
  | .answered addresses =>
      match s.phase with
      | .resolving url =>
          match resolve isIPv6 addresses with
          | .error code => s.fail code
          | .ok address =>
              if s.aborted then s.fail .timeout
              else { s with phase := .requesting, connections := s.connections ++ [connectTo isIPv6 url address] }
      | _ => s
  | .lookupFailed =>
      match s.phase with
      | .resolving _ => s.fail .networkError
      | _ => s
  | .response statusCode =>
      match s.phase with
      | .requesting => { s with phase := .ended, result := s.result.or (some (.ok statusCode)) }
      | _ => s
  | .requestFailed =>
      match s.phase with
      | .requesting => s.fail .networkError
      | _ => s

def start (newUrl : String → Option Url) (raw : String) : Send :=
  match parse isIPv6 newUrl raw with
  | .error code => { phase := .ended, result := some (.error code) }
  | .ok url => { phase := .resolving url }

/-- `send`, after the events in their order. -/
def send (newUrl : String → Option Url) (raw : String) (events : List Event) : Send :=
  events.foldl (Send.step isIPv6) (start isIPv6 newUrl raw)

end

end Fintech.WebhookTransport
