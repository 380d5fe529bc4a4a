import Mathlib.Data.List.Induction
import Fintech.Model.WebhookTransport

/-!
# Where webhook sends connect to

A send connects to an address of its own lookup, and only if the endpoint is safe, the answer has nothing but
public addresses and the deadline had not passed; otherwise it fails without a connection.
-/

namespace Fintech.WebhookTransport
open Network

/-! ## The block list -/

theorem blocked_aligned : ∀ c ∈ blocked, c.Aligned := by decide

/-- The blocked addresses are those in the numeric interval of a block. -/
theorem isBlocked_iff (ip : BitVec 32) : isBlocked ip ↔ ∃ c ∈ blocked, c.first ≤ ip.toNat ∧ ip.toNat ≤ c.last := by
  rw [isBlocked, List.any_eq_true]
  constructor <;>
  · rintro ⟨c, hc, inside⟩
    exact ⟨c, hc, by simpa only [Cidr.contains_iff (blocked_aligned c hc)] using inside⟩

variable {isIPv6 : String → Bool} {newUrl : String → Option Url} {raw : String}

/-- The text of an IPv4 address outside all blocks. -/
def Public (address : String) : Prop :=
  ∃ ip, parseIPv4 address = some ip ∧ ∀ c ∈ blocked, ¬ (c.first ≤ ip.toNat ∧ ip.toNat ≤ c.last)

theorem isPublicIPv4_iff {address : String} : isPublicIPv4 isIPv6 address ↔ Public address := by
  rw [isPublicIPv4, isIP, Public]
  cases parsed : parseIPv4 address with
  | none => cases isIPv6 address <;> simp
  | some ip =>
      have test := isBlocked_iff ip
      cases inside : isBlocked ip <;> simp_all

theorem parse_eq_ok {url : Url} (h : parse isIPv6 newUrl raw = .ok url) :
    newUrl raw = some url ∧ SafeEndpoint isIPv6 raw url := by
  unfold parse at h
  split at h
  · cases h
  · split at h
    · cases h
    · rename_i found safe
      cases h
      simp only [not_or, not_lt, not_and_or, ne_eq, not_not] at safe
      obtain ⟨length, https, port, username, password, hash, notIP, dnsName⟩ := safe
      exact ⟨found, length, https, port, username, password, hash, notIP, dnsName⟩

theorem resolve_eq_ok {addresses : List String} {address : String} (h : resolve isIPv6 addresses = .ok address) :
    address ∈ addresses ∧ ∀ a ∈ addresses, Public a := by
  unfold resolve at h
  split at h
  · cases h
  · split at h
    · cases h
    · rename_i first rest all
      cases h
      simp only [List.any_eq_true, not_exists, not_and, decide_eq_true_eq, not_not] at all
      exact ⟨List.mem_cons_self, fun a ha => isPublicIPv4_iff.mp (all a ha)⟩

/-! ## One send -/

/-- The events after which the answer of the lookup is too late. -/
def Event.precludes : Event → Prop
  | .answered _ | .lookupFailed | .deadline => True
  | .response _ | .requestFailed => False

variable (isIPv6 newUrl raw) in
/-- The connection to `address` is justified by the answer of the lookup. -/
structure Justified (events : List Event) (address : String) (url : Url) (before : List Event) (addresses : List String)
    (after : List Event) : Prop where
  events : events = before ++ .answered addresses :: after
  first : ∀ e ∈ before, ¬ e.precludes
  parsed : newUrl raw = some url
  safe : SafeEndpoint isIPv6 raw url
  mem : address ∈ addresses
  isPublic : ∀ a ∈ addresses, Public a

variable (isIPv6 newUrl raw) in
/-- How far a send can be after the events. -/
inductive Progress (events : List Event) (s : Send) : Prop
  | waiting (url : Url) (phase : s.phase = .resolving url) (parsed : newUrl raw = some url)
      (safe : SafeEndpoint isIPv6 raw url) (connections : s.connections = []) (aborted : s.aborted = false)
      (result : s.result = none) (quiet : ∀ e ∈ events, ¬ e.precludes)
  | late (url : Url) (phase : s.phase = .resolving url) (connections : s.connections = []) (aborted : s.aborted = true)
      (result : s.result = some (.error .timeout))
  | refused (phase : s.phase = .ended) (connections : s.connections = []) (code : ErrorCode)
      (result : s.result = some (.error code))
  | connected (phase : s.phase = .requesting ∨ s.phase = .ended) (address : String) (connections : s.connections = [address])
      (justified : ∃ url before addresses after, Justified isIPv6 newUrl raw events address url before addresses after)

theorem Justified.append {events : List Event} {address : String} {url : Url} {before : List Event}
    {addresses : List String} {after : List Event} (e : Event)
    (h : Justified isIPv6 newUrl raw events address url before addresses after) :
    Justified isIPv6 newUrl raw (events ++ [e]) address url before addresses (after ++ [e]) :=
  { h with events := by rw [h.events, List.append_assoc, List.cons_append] }

theorem progress_start : Progress isIPv6 newUrl raw [] (start isIPv6 newUrl raw) := by
  unfold start
  cases parsed : parse isIPv6 newUrl raw with
  | error code => exact .refused rfl rfl code rfl
  | ok url =>
      obtain ⟨found, safe⟩ := parse_eq_ok parsed
      exact .waiting url rfl found safe rfl rfl rfl (by simp)

/-- One event. -/
theorem Progress.step {events : List Event} {s : Send} (h : Progress isIPv6 newUrl raw events s) (e : Event) :
    Progress isIPv6 newUrl raw (events ++ [e]) (s.step isIPv6 e) := by
  cases h with
  | waiting url phase parsed safe connections aborted result quiet =>
      have quiet' (none : ¬ e.precludes) : ∀ e' ∈ events ++ [e], ¬ e'.precludes := by
        intro e' he
        rcases List.mem_append.mp he with he | he
        · exact quiet e' he
        · exact List.mem_singleton.mp he ▸ none
      cases e with
      | answered addresses =>
          cases resolved : resolve isIPv6 addresses with
          | error code =>
              refine .refused ?_ ?_ code ?_ <;> simp [Send.step, phase, resolved, Send.fail, connections, result, aborted]
          | ok address =>
              obtain ⟨mem, isPublic⟩ := resolve_eq_ok resolved
              have pinned : connectTo isIPv6 url address = address := if_neg (not_not.mpr safe.notIP)
              refine .connected (.inl ?_) address ?_ ⟨url, events, addresses, [], rfl, quiet, parsed, safe, mem, isPublic⟩
              · simp [Send.step, phase, resolved, aborted]
              · simp [Send.step, phase, resolved, aborted, connections, pinned]
      | lookupFailed =>
          refine .refused ?_ ?_ .networkError ?_ <;> simp [Send.step, phase, Send.fail, connections, result, aborted]
      | deadline =>
          refine .late url ?_ ?_ ?_ ?_ <;> simp [Send.step, phase, connections, result]
      | response statusCode =>
          refine .waiting url ?_ parsed safe ?_ ?_ ?_ (quiet' id) <;> simp [Send.step, phase, connections, result, aborted]
      | requestFailed =>
          refine .waiting url ?_ parsed safe ?_ ?_ ?_ (quiet' id) <;> simp [Send.step, phase, connections, result, aborted]
  | late url phase connections aborted result =>
      cases e with
      | answered addresses =>
          refine .refused ?_ ?_ .timeout ?_ <;> cases resolved : resolve isIPv6 addresses <;>
            simp [Send.step, phase, resolved, Send.fail, connections, result, aborted]
      | lookupFailed =>
          refine .refused ?_ ?_ .timeout ?_ <;> simp [Send.step, phase, Send.fail, connections, result]
      | deadline | response | requestFailed =>
          refine .late url ?_ ?_ ?_ ?_ <;> simp [Send.step, phase, connections, result, aborted]
  | refused phase connections code result =>
      refine .refused ?_ ?_ code ?_ <;> cases e <;> simp [Send.step, phase, connections, result]
  | connected phase address connections justified =>
      obtain ⟨url, before, addresses, after, justified⟩ := justified
      have kept : (s.step isIPv6 e).connections = s.connections ∧
          ((s.step isIPv6 e).phase = .requesting ∨ (s.step isIPv6 e).phase = .ended) := by
        rcases phase with phase | phase <;> cases e <;> simp [Send.step, phase, Send.fail] <;> split <;> simp [phase]
      exact .connected kept.2 address (kept.1.trans connections) ⟨url, before, addresses, after ++ [e], justified.append e⟩

/-- All events. -/
theorem progress_send (events : List Event) : Progress isIPv6 newUrl raw events (send isIPv6 newUrl raw events) := by
  induction events using List.reverseRecOn with
  | nil => exact progress_start
  | append_singleton events e ih =>
      rw [send, List.foldl_append]
      exact ih.step e

/-- A send opens at most one connection, to a public address that its own lookup answered with before the deadline;
without a connection it fails. -/
theorem sends_reach_public (isIPv6 : String → Bool) (newUrl : String → Option Url) (raw : String) (events : List Event) :
    let sent := send isIPv6 newUrl raw events
    (∀ address ∈ sent.connections, sent.connections = [address] ∧ ∃ url before addresses after,
      events = before ++ .answered addresses :: after ∧ (∀ e ∈ before, ¬ e.precludes) ∧
      newUrl raw = some url ∧ SafeEndpoint isIPv6 raw url ∧ address ∈ addresses ∧
      ∀ a ∈ addresses, ∃ ip, parseIPv4 a = some ip ∧ ∀ c ∈ blocked, ¬ (c.first ≤ ip.toNat ∧ ip.toNat ≤ c.last)) ∧
    (sent.connections = [] → (∀ statusCode, sent.result ≠ some (.ok statusCode)) ∧
      ((∃ e ∈ events, e.precludes) ∨ (∀ url, newUrl raw = some url → ¬ SafeEndpoint isIPv6 raw url) →
        ∃ code, sent.result = some (.error code))) ∧
    ∀ ip, isBlocked ip ↔ ∃ c ∈ blocked, c.first ≤ ip.toNat ∧ ip.toNat ≤ c.last := by
  intro sent
  have progress : Progress isIPv6 newUrl raw events sent := progress_send events
  refine ⟨fun address mem => ?_, fun none => ⟨fun statusCode ok => ?_, fun settled => ?_⟩, isBlocked_iff⟩
  · cases progress with
    | waiting _ _ _ _ connections | late _ _ connections | refused _ connections =>
        rw [connections] at mem
        cases mem
    | connected _ address' connections justified =>
        rw [connections, List.mem_singleton] at mem
        subst mem
        obtain ⟨url, before, addresses, after, justified⟩ := justified
        exact ⟨connections, url, before, addresses, after, justified.events, justified.first, justified.parsed,
          justified.safe, justified.mem, justified.isPublic⟩
  · cases progress with
    | waiting _ _ _ _ _ _ result => simp [result] at ok
    | late _ _ _ _ result => simp [result] at ok
    | refused _ _ _ result => simp [result] at ok
    | connected _ _ connections => simp [connections] at none
  · cases progress with
    | waiting url _ parsed safe _ _ _ quiet =>
        rcases settled with ⟨e, he, precludes⟩ | never
        · exact absurd precludes (quiet e he)
        · exact absurd safe (never url parsed)
    | late _ _ _ _ result => exact ⟨_, result⟩
    | refused _ _ code result => exact ⟨code, result⟩
    | connected _ _ connections => simp [connections] at none

/-! ## A public and a mixed answer -/

def sampleUrl (raw : String) : Option Url :=
  if raw = "https://example.com/events" then
    some { protocol := "https:", username := "", password := "", hostname := "example.com", port := "", hash := "" }
  else none

def sampleIsIPv6 (address : String) : Bool := address.toList.contains ':'

def sampleSend (addresses : List String) : Send :=
  send sampleIsIPv6 sampleUrl "https://example.com/events" [.answered addresses, .response 302, .deadline]

theorem sends_reach_public_sample :
    (sampleSend ["8.8.8.8"]).connections = ["8.8.8.8"] ∧ (sampleSend ["8.8.8.8"]).result = some (.ok 302) ∧
      (∃ url, sampleUrl "https://example.com/events" = some url ∧
        SafeEndpoint sampleIsIPv6 "https://example.com/events" url) ∧
      ∃ code, (sampleSend ["8.8.8.8", "10.0.0.1"]).result = some (.error code) := by
  have opened : (sampleSend ["8.8.8.8"]).connections = ["8.8.8.8"] := by decide
  have none_opened : (sampleSend ["8.8.8.8", "10.0.0.1"]).connections = [] := by decide
  obtain ⟨reached, _, _⟩ := sends_reach_public sampleIsIPv6 sampleUrl "https://example.com/events"
    [.answered ["8.8.8.8"], .response 302, .deadline]
  obtain ⟨_, failing, _⟩ := sends_reach_public sampleIsIPv6 sampleUrl "https://example.com/events"
    [.answered ["8.8.8.8", "10.0.0.1"], .response 302, .deadline]
  obtain ⟨only, url, _, _, _, _, _, parsed, safe, _⟩ := reached "8.8.8.8" (opened ▸ List.mem_singleton.mpr rfl)
  exact ⟨only, by decide, ⟨url, parsed, safe⟩,
    (failing none_opened).2 (.inl ⟨.answered ["8.8.8.8", "10.0.0.1"], List.mem_cons_self, trivial⟩)⟩

end Fintech.WebhookTransport
