import Mathlib.Logic.Function.Basic
import Fintech.Model.Constraints

/-!
# The limiter of logins and registrations

`AuthRateGuard` and the part of Redis that its script uses. All replicas share one Redis, and the guard keeps
nothing of its own. Times are in milliseconds.
-/

namespace Fintech

namespace Redis

/-- What a key holds: the integer of a counter, and when Redis removes the key. -/
structure Entry where
  value : Nat
  expiresAt : Option Time := none
  deriving DecidableEq

abbrev Store := String → Option Entry

def empty : Store := fun _ => none

/-- A key is gone once its expiry has passed. -/
def get (now : Time) (key : String) (r : Store) : Option Entry :=
  (r key).filter fun entry => entry.expiresAt.all fun e => now < e

def maxInteger : Nat := 2 ^ 63 - 1

/-- `INCR`: a missing key counts from zero; `none` is its error on overflow. -/
def incr (now : Time) (key : String) (r : Store) : Option (Nat × Store) :=
  let entry := (get now key r).getD { value := 0 }
  if entry.value < maxInteger then
    some (entry.value + 1, Function.update r key (some { entry with value := entry.value + 1 }))
  else none

/-- `EXPIRE` -/
def expire (now : Time) (key : String) (seconds : Int) (r : Store) : Store :=
  match get now key r with
  | some entry => Function.update r key (some { entry with expiresAt := some (now + 1000 * seconds) })
  | none => r

end Redis

namespace AuthRateGuard

/-- The Lua script `increment`; an error of a command ends it. -/
def increment (now : Time) (key : String) (r : Redis.Store) : Option (Nat × Redis.Store) := do
  let (n, r) ← Redis.incr now key r
  return (n, if n = 1 then Redis.expire now key 60 r else r)

/-- What becomes of a call of `redis.client.eval`: its answer arrives, gets lost, or the script is never run. -/
inductive Delivery | answered | lost | unreached
  deriving DecidableEq

structure AuthRequest where
  /-- When Redis runs the script of the request. -/
  time : Time
  controller : String
  handler : String
  remoteAddress : Option String
  delivery : Delivery := .answered

def eval (q : AuthRequest) (key : String) (redis : Redis.Store) : Option Nat × Redis.Store :=
  match q.delivery with
  | .unreached => (none, redis)
  | .answered | .lost =>
      match increment q.time key redis with
      | none => (none, redis)
      | some (count, redis) => (if q.delivery = .answered then some count else none, redis)

/-- What `canActivate` returns or throws, and the headers that it sets. -/
structure Reply where
  result : Except HttpException Bool
  headers : List (String × String) := []

def Reply.admitted (reply : Reply) : Bool :=
  match reply.result with
  | .ok activated => activated
  | .error _ => false

def tooManyRequests (message : String) : HttpException := ⟨429, message⟩

def isLimited (q : AuthRequest) : Bool := q.controller == "AuthController" && ["login", "register"].contains q.handler

section
variable (sha256Hex : String → String)

def counterKey (remoteAddress : Option String) : String :=
  "fintech:auth-rate:" ++ sha256Hex (remoteAddress.getD "unknown")

def canActivate (limit : Nat) (q : AuthRequest) (redis : Redis.Store) : Reply × Redis.Store :=
  if ¬ isLimited q then ({ result := .ok true }, redis)
  else
    match eval q (counterKey sha256Hex q.remoteAddress) redis with
    | (none, redis) => ({ result := .error (serviceUnavailable "Authentication temporarily unavailable") }, redis)
    | (some count, redis) =>
        if limit < count then
          ({ result := .error (tooManyRequests "Too many authentication attempts; retry later"),
             headers := [("Retry-After", "60")] }, redis)
        else ({ result := .ok true }, redis)

/-- The requests one after another, each with its reply. -/
def serve (limit : Nat) : List AuthRequest → Redis.Store → List (AuthRequest × Reply)
  | [], _ => []
  | q :: rest, redis =>
      (q, (canActivate sha256Hex limit q redis).1) :: serve limit rest (canActivate sha256Hex limit q redis).2

/-- What Redis holds after the requests. -/
def served (limit : Nat) (traffic : List AuthRequest) (redis : Redis.Store) : Redis.Store :=
  traffic.foldl (fun r q => (canActivate sha256Hex limit q r).2) redis

end

end AuthRateGuard

end Fintech
