import Fintech.Proof.Authority

/-!
# The modes of the providers

Payments are created and concluded only by processes whose environment enables their provider: mock payments outside
production, and live transactions of Paystack in it.
-/

namespace Fintech
open Relational Transactional

/-! ## Keys -/

theorem PaystackProvider.domain_of_key {key : String} (shaped : Environment.isPaystackKey key = true) :
    (if key.startsWith "sk_test_" then "test" else "live") = if Environment.isLiveKey key then "live" else "test" := by
  simp only [Environment.isPaystackKey, List.any_cons, List.any_nil, Bool.or_false, Bool.and_eq_true, Bool.or_eq_true,
    beq_iff_eq] at shaped
  obtain ⟨⟨test | live, _⟩, _⟩ := shaped
  · have starts : key.startsWith "sk_test_" = true := by
      rw [String.startsWith_string_iff, ← test]
      exact List.take_prefix _ _
    have notLive : Environment.isLiveKey key = false := by
      rw [Environment.isLiveKey, test]
      decide
    rw [if_pos starts, notLive]
    rfl
  · have isLive : Environment.isLiveKey key = true := by rw [Environment.isLiveKey, live, beq_self_eq_true]
    have other : key.startsWith "sk_test_" = false := by
      rw [Bool.eq_false_iff, Ne, String.startsWith_string_iff]
      intro starts
      have same := List.prefix_iff_eq_take.mp starts
      rw [show "sk_test_".toList.length = 8 from rfl, live] at same
      revert same
      decide
    rw [other, isLive]
    rfl

/-- A key that is enabled is a test key, or a live key in production. -/
theorem PaystackProvider.key_of_enabled {env : Environment} (enabled : isEnabled env = true) :
    Environment.isPaystackKey (secretKey env) = true ∧ (Environment.isLiveKey (secretKey env) = true → env.nodeEnv = .production) := by
  simp only [isEnabled, decide_eq_true_eq] at enabled
  obtain ⟨_, usable⟩ := enabled
  cases key : env.paystackSecretKey with
  | none => simp [key] at usable
  | some key =>
      simp only [key, Option.any_some, Bool.and_eq_true, Bool.or_eq_true, Bool.not_eq_true', decide_eq_true_eq] at usable
      simp only [secretKey, key, Option.getD_some]
      refine ⟨usable.1, fun live => usable.2.resolve_left ?_⟩
      rw [live]
      decide

/-! ## Payments -/

/-- The answer of Paystack that concluded the payment is of the mode of the process. -/
structure ConfirmedBy (r : Incoming) (done : List ApiEvent) (p : Payment) (data : PaystackProvider.Transaction) : Prop where
  answered : ∃ response, Event.answered (.verifyTransaction p.reference) response ∈ done ∧
    PaystackProvider.Confirms (PaystackProvider.secretKey r.env) p.reference response data
  succeeded : data.status = "success"
  domain : data.domain = if Environment.isLiveKey (PaystackProvider.secretKey r.env) then "live" else "test"

theorem Proven.selects {node : Node} {r : Incoming} {done : List ApiEvent} {p : Payment} {status : PaymentStatus}
    (h : Proven node r done p status) : Selects r.env p.provider := by
  cases h with
  | mock rawBody timestamp signature input event provider endpoint authentic =>
      rw [provider]
      exact .mock authentic.enabled
  | paystack response data provider enabled =>
      rw [provider]
      exact .paystack enabled

theorem Proven.confirmed {node : Node} {r : Incoming} {done : List ApiEvent} {p : Payment} {status : PaymentStatus}
    (h : Proven node r done p status) (paystack : p.provider = .paystack) : status = .succeeded ∧ ∃ data, ConfirmedBy r done p data := by
  cases h with
  | mock rawBody timestamp signature input event provider => cases provider.symm.trans paystack
  | paystack response data provider enabled answered confirms succeeded amount currency =>
      obtain ⟨shaped, _⟩ := PaystackProvider.key_of_enabled enabled
      exact ⟨rfl, data, ⟨response, answered, confirms⟩, succeeded, confirms.domain.trans (PaystackProvider.domain_of_key shaped)⟩

section
variable {node : Node} {jwt : JwtService} {w : ApiWorld}

/-- The step lemma: the process that creates a payment has its provider enabled. -/
theorem created_by (h : (api node jwt migrated).Reachable w) {j : Nat} (lt : j < w.base.log.length) {p : Payment}
    (hp : p ∈ (stateAt migrated w.base.log (j + 1)).payments) (fresh : ∀ q ∈ (stateAt migrated w.base.log j).payments, q.id ≠ p.id) :
    ∃ n r done, CommittedBy w w.base.log[j] n r done ∧ Selects r.env p.provider := by
  obtain ⟨draws, usePaystack, userId, header, input, request, provider⟩ :=
    (proceeding migrated_opening h.invariant.base lt).created hp fresh
  obtain ⟨n, r, done, rest, made, served, events, own, permits⟩ := permitted h (List.getElem_mem lt)
  refine ⟨n, r, done, ⟨served, made, rest, events, own⟩, ?_⟩
  rw [request] at permits
  cases permits with
  | createPayment _ _ selects => exact provider ▸ selects

/-- Commit `j` creates the payment. -/
structure CreatedAt (log : List (Entry Request Row)) (j : Nat) (p : Payment) : Prop where
  absent : ∀ q ∈ (stateAt migrated log j).payments, q.id ≠ p.id
  present : ∃ q ∈ (stateAt migrated log (j + 1)).payments, q.identity = p.identity

/-- The run lemma: so was every payment that is there. -/
theorem created_ever (h : (api node jwt migrated).Reachable w) {k : Nat} (le : k ≤ w.base.log.length) {p : Payment}
    (hp : p ∈ (stateAt migrated w.base.log k).payments) : ∃ j, ∃ lt : j < w.base.log.length, j < k ∧ CreatedAt w.base.log j p ∧
      ∃ n r done, CommittedBy w w.base.log[j] n r done ∧ Selects r.env p.provider := by
  induction k generalizing p with
  | zero => exact absurd hp (Table.not_mem_empty p)
  | succ j ih =>
      by_cases old : ∃ q ∈ (stateAt migrated w.base.log j).payments, q.id = p.id
      · obtain ⟨q, hq, same⟩ := old
        obtain ⟨i, lt, before, created, n, r, done, committed, selects⟩ := ih (Nat.le_of_succ_le le) hq
        obtain ⟨p', hp', kept⟩ := (later_state h (Nat.le_succ j) le).payment hq
        obtain rfl : p' = p := Table.eq_of_key_eq hp' hp ((Payment.identity_eq.mp kept).1.trans same)
        obtain ⟨q', hq', identity⟩ := created.present
        refine ⟨i, lt, by omega, ⟨?_, q', hq', identity.trans kept.symm⟩, n, r, done, committed, ?_⟩
        · rw [(Payment.identity_eq.mp kept).1]
          exact created.absent
        · rwa [(Payment.identity_eq.mp kept).2.2.2.1]
      · push Not at old
        exact ⟨j, le, j.lt_succ_self, ⟨old, p, hp, rfl⟩, created_by h le hp old⟩

theorem Selects.mode {env : Environment} (h : Selects env .mock) : env.nodeEnv ≠ .production := by
  cases h with
  | mock enabled =>
      simp only [MockPaymentProvider.isEnabled, decide_eq_true_eq] at enabled
      exact enabled.2.1

/-- Every payment was created by a process that has its provider enabled, and is concluded by one. In production no process
creates or concludes a mock payment, and outside production no live transaction concludes a payment. -/
theorem modes_separate (h : (api node jwt migrated).Reachable w) :
    (∀ k ≤ w.base.log.length, ∀ p ∈ (stateAt migrated w.base.log k).payments, ∃ j, ∃ lt : j < w.base.log.length, j < k ∧
      CreatedAt w.base.log j p ∧ ∃ n r done, CommittedBy w w.base.log[j] n r done ∧ Selects r.env p.provider ∧
        (p.provider = .mock → r.env.nodeEnv ≠ .production)) ∧
    ∀ j, ∀ lt : j < w.base.log.length, ∀ p ∈ (stateAt migrated w.base.log j).payments,
      ∀ p' ∈ (stateAt migrated w.base.log (j + 1)).payments, p'.id = p.id → p.status = .pending → p'.status ≠ .pending →
      ∃ n r done, CommittedBy w w.base.log[j] n r done ∧ Selects r.env p.provider ∧
        (p.provider = .mock → r.env.nodeEnv ≠ .production) ∧
        (p.provider = .paystack → p'.status = .succeeded ∧ ∃ data, ConfirmedBy r done p data ∧
          (data.domain = "live" → r.env.nodeEnv = .production)) := by
  constructor
  · intro k le p hp
    obtain ⟨j, lt, before, created, n, r, done, committed, selects⟩ := created_ever h le hp
    exact ⟨j, lt, before, created, n, r, done, committed, selects, fun mock => (mock ▸ selects).mode⟩
  · intro j lt p hp p' hp' id pending terminal
    obtain ⟨n, r, done, committed, proven⟩ := concluded_by h lt hp hp' id pending terminal
    refine ⟨n, r, done, committed, proven.selects, fun mock => (mock ▸ proven.selects).mode, fun paystack => ?_⟩
    obtain ⟨succeeded, data, confirmed⟩ := proven.confirmed paystack
    refine ⟨succeeded, data, confirmed, fun live => ?_⟩
    have isLive : Environment.isLiveKey (PaystackProvider.secretKey r.env) = true := by
      by_contra test
      rw [confirmed.domain, if_neg test] at live
      revert live
      decide
    have selects := proven.selects
    rw [paystack] at selects
    cases selects with
    | paystack enabled => exact (PaystackProvider.key_of_enabled enabled).2 isLive

theorem modes_separate_sample : ∃ (w : ApiWorld) (p : Payment) (j n : Nat) (r : Incoming),
    w.base.log.length = 3 ∧ j < 2 ∧ CreatedAt w.base.log j p ∧ w.requests[n]? = some r ∧ Selects r.env p.provider ∧
    p.status = .pending := by
  obtain ⟨w, reach, log⟩ := sample_served
  obtain ⟨length, _, before, after⟩ := sampleServed_eq
  obtain ⟨p, hp, id, pending⟩ := samplePayments_mem before
  obtain ⟨p', hp', id', succeeded⟩ := samplePayments_mem after
  rw [← log] at length hp hp'
  obtain ⟨created, concluded⟩ := modes_separate reach
  obtain ⟨j, _, earlier, at_, _⟩ := created 2 (by omega) p hp
  obtain ⟨n, r, done, committed, selects, _⟩ := concluded 2 (by omega) p hp p' hp' (id'.trans id.symm) pending
    (by rw [succeeded]; decide)
  exact ⟨w, p, j, n, r, length, earlier, at_, committed.request, selects, pending⟩

end

end Fintech
