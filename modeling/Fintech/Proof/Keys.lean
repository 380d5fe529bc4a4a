import Fintech.Model.Idempotency
import Fintech.Proof.Slices
import Fintech.Proof.Tracking

/-!
# What the idempotency frame does

A transaction of `create` either replays the record that it finds, or claims the key and leaves the
record terminal: completed with the work, or failed without it.
-/

namespace Fintech
open Relational Transactional

/-- A body that returns `a` has written some `ws` that are as `P` says, wherever it commits. -/
def Tx.yields {α : Type} (base : Nat → Db) (P : Db → α → List Write → Prop) :
    Except HttpException α → View Settings Row Key → Prop
  | .ok a, v => ∃ ws, Tracks base v ws ∧ ∀ now, Settled base v now → P now a ws
  | .error _, _ => True

section
variable {base : Nat → Db} {v : View Settings Row Key} {α : Type} {P : Db → α → List Write → Prop}

/-- A commit hands on what the body ended with. -/
theorem ensures_committing_result {body : Tx α} {R : Except HttpException α → Prop}
    (h : body.Ensures base (fun r _ => R r) v) : (Tx.committing body).Ensures base (fun r _ => R r) v := by
  refine ensures_bind ⟨Prog.wp_mono h.wp fun r v' hr => ?_⟩
  cases r with
  | error e => exact hr
  | ok a => exact ensures_bind ⟨Prog.wp_exec.mpr ⟨fun _ _ => trivial, fun _ _ _ => ensures_pure hr⟩⟩

theorem ensures_committing {body : Tx α} (h : body.Ensures base (Tx.yields base P) v) :
    (Tx.committing body).Ensures base (Tx.yields base P) v := by
  refine ensures_bind ⟨Prog.wp_mono h.wp fun r v₁ hr => ?_⟩
  cases r with
  | error e => trivial
  | ok a =>
      obtain ⟨ws, tracks, holds⟩ := hr
      refine ensures_bind ⟨Prog.wp_exec.mpr ⟨fun _ _ => trivial, ?_⟩⟩
      rintro ⟨⟩ e ok
      simp only [bind_eq_ok, pure, Except.pure, Except.ok.injEq, Prod.mk.injEq, true_and] at ok
      obtain ⟨_, _, rfl⟩ := ok
      exact ensures_pure ⟨ws, tracks.quiet rfl, fun now settled => holds now settled.of_after⟩

/-- The body leaves writes that are right for what it returns. -/
def Tx.leaves (base : Nat → Db) (R : α → List Row → Prop) : Except HttpException α → View Settings Row Key → Prop
  | .ok a, v => (∃ ws, Tracks base v ws) ∧ R a v.writes
  | .error _, _ => True

theorem ensures_committing_leaves {R : α → List Row → Prop} {body : Tx α}
    (h : body.Ensures base (Tx.leaves base R) v) : (Tx.committing body).Ensures base (Tx.leaves base R) v := by
  refine ensures_bind ⟨Prog.wp_mono h.wp fun r v₁ hr => ?_⟩
  cases r with
  | error e => trivial
  | ok a =>
      obtain ⟨⟨ws, tracks⟩, right⟩ := hr
      refine ensures_bind ⟨Prog.wp_exec.mpr ⟨fun _ _ => trivial, ?_⟩⟩
      rintro ⟨⟩ e ok
      simp only [bind_eq_ok, pure, Except.pure, Except.ok.injEq, Prod.mk.injEq, true_and] at ok
      obtain ⟨_, _, rfl⟩ := ok
      refine ensures_pure ⟨⟨ws, tracks.quiet rfl⟩, ?_⟩
      rwa [(tracks.quiet rfl).writes, ← tracks.writes]

theorem Tx.Ensures.leaves_returns {β : Type} {R : α → List Row → Prop} {R' : β → List Row → Prop} {body : Tx α} {f : α → β} (h : body.Ensures base (Tx.leaves base R) v)
    (imp : ∀ a rows, R a rows → R' (f a) rows) :
    Tx.Ensures base (body >>= fun a => pure (f a)) (Tx.leaves base R') v := by
  refine ensures_bind ⟨Prog.wp_mono h.wp fun r v' hr => ?_⟩
  cases r with
  | error e => trivial
  | ok a => exact ensures_pure ⟨hr.1, imp a _ hr.2⟩

end

namespace Scope
variable {ρ : Type} (scope : Scope ρ)

/-- The record that claims a key. -/
def claim (draws : Draws) (userId : Uuid) (key requestHash : String) : IdempotencyRecord where
  id := draws.id .idempotencyRecord
  userId := userId
  scope := scope.name
  key := key
  requestHash := requestHash
  createdAt := draws.createdAt .idempotencyRecord

/-- The record of a client error. -/
def refusal (claim : IdempotencyRecord) (e : HttpException) : IdempotencyRecord :=
  { claim with status := .failed, responseStatus := some e.status, errorMessage := some (jsTake 255 e.message) }

/-- What a committed attempt did: the outcome it returned and its writes. -/
inductive Attempted (seen : Db) (claim : IdempotencyRecord) (Does : ρ → List Write → Prop) (Fails : HttpException → Prop) :
    AttemptOutcome → List Write → Prop
  | replayed (existing outcome) : scope.findRecord claim.userId claim.key seen = some existing →
      scope.resolveExistingIdempotency existing claim.requestHash = .ok outcome →
      Attempted seen claim Does Fails outcome []
  | completed (r ws) : scope.findRecord claim.userId claim.key seen = none → Does r ws →
      Attempted seen claim Does Fails (.ok (scope.reply r)) (.insert (.idempotencyRecord claim) ::
        (ws ++ [.update (.idempotencyRecord claim) (.idempotencyRecord (scope.complete r claim))]))
  | refused (e : HttpException) : scope.findRecord claim.userId claim.key seen = none → Fails e → 400 ≤ e.status →
      e.status < 500 → Attempted seen claim Does Fails (.error ⟨e.status, jsTake 255 e.message⟩)
        [.insert (.idempotencyRecord claim), .update (.idempotencyRecord claim) (.idempotencyRecord (refusal claim e))]

/-- Why an attempt throws. -/
inductive Thrown (seen : Db) (claim : IdempotencyRecord) (Fails : HttpException → Prop) : HttpException → Prop
  | unresolved {existing e} : scope.findRecord claim.userId claim.key seen = some existing →
      scope.resolveExistingIdempotency existing claim.requestHash = .error e → Thrown seen claim Fails e
  | failed {e} : scope.findRecord claim.userId claim.key seen = none → Fails e → ¬ (400 ≤ e.status ∧ e.status < 500) →
      Thrown seen claim Fails e

/-- What is known of the work of a claimed key: done, it has written what `Does` says; failed, for a
reason that `Fails` gives, it has written nothing. -/
structure Works (s : Db) (claim : IdempotencyRecord) (work : Tx ρ) (Does : ρ → List Write → Prop)
    (Fails : HttpException → Prop) : Prop where
  ensures : ∀ {v Q}, Tracks (fun _ => s) v [.insert (.idempotencyRecord claim)] →
    (∀ v' e, Fails e → Tracks (fun _ => s) v' [.insert (.idempotencyRecord claim)] → Q (.error e) v') →
    (∀ v' r ws, Does r ws → Tracks (fun _ => s) v' (.insert (.idempotencyRecord claim) :: ws) → Q (.ok r) v') →
    work.Ensures (fun _ => s) Q v
  clear : ∀ r ws, Does r ws → Slice.idempotencyRecords.written ws = []

theorem ensures_tryCatch {base : Nat → Db} {v : View Settings Row Key} {α : Type} {p : Tx α}
    {handler : HttpException → Tx α} {Q : Except HttpException α → View Settings Row Key → Prop}
    {R : Except HttpException α → View Settings Row Key → Prop} (h : p.Ensures base R v)
    (ok : ∀ v' a, R (.ok a) v' → Q (.ok a) v') (error : ∀ v' e, R (.error e) v' → (handler e).Ensures base Q v') :
    Tx.Ensures base (tryCatch p handler) Q v := by
  refine ⟨Prog.wp_tryCatch.mpr (Prog.wp_mono h.wp fun r v' hr => ?_)⟩
  cases r with
  | ok a => exact ok v' a hr
  | error e => exact (error v' e hr).wp

variable {scope}

/-- The claimed record, updated: it is the one that was inserted. -/
theorem ensures_updateRecord {s : Db} {v : View Settings Row Key} {claim : IdempotencyRecord} {ws : List Write}
    {f : IdempotencyRecord → IdempotencyRecord} {Q : Except HttpException IdempotencyRecord → View Settings Row Key → Prop}
    (keeps : ∀ r, (f r).id = r.id) (clear : Slice.idempotencyRecords.written ws = [])
    (h : Tracks (fun _ => s) v (.insert (.idempotencyRecord claim) :: ws))
    (post : ∀ v' r, Tracks (fun _ => s) v' (.insert (.idempotencyRecord claim) ::
      (ws ++ [.update (.idempotencyRecord claim) (.idempotencyRecord (f claim))])) → Q (.ok r) v') :
    (Scope.updateRecord claim.id f).Ensures (fun _ => s) Q v := by
  refine ensures_update h (fun db old found => (Table.find?_eq_some.mp found).1) (fun old => ?_) fun v' old found h' => ?_
  · simp [Row.pk, keeps]
  · have table := Slice.idempotencyRecords.table_write s (.insert (.idempotencyRecord claim) :: ws)
    rw [Slice.written_cons, clear] at table
    have there : (s.write (.insert (.idempotencyRecord claim) :: ws)).idempotencyRecords.find? claim.id = some claim :=
      (congrArg (·.find? claim.id) table).trans (Table.find?_put_self _ claim)
    obtain rfl : old = claim := Option.some.inj (found.symm.trans there)
    exact post v' _ (by simpa using h')

/-- How the work of an attempt ends, after the claim of its record. -/
def Worked (scope : Scope ρ) (s : Db) (claim : IdempotencyRecord) (Does : ρ → List Write → Prop) (Fails : HttpException → Prop) :
    Except HttpException AttemptOutcome → View Settings Row Key → Prop
  | .ok outcome, v => ∃ ws, Tracks (fun _ => s) v ws ∧ scope.Attempted s claim Does Fails outcome ws
  | .error e, v => Fails e ∧ Tracks (fun _ => s) v [.insert (.idempotencyRecord claim)]

theorem ensures_attempt {s : Db} {v : View Settings Row Key} {draws : Draws} {userId : Uuid} {key hash : String}
    {work : Tx ρ} {Does : ρ → List Write → Prop} {Fails : HttpException → Prop}
    {Q : Except HttpException AttemptOutcome → View Settings Row Key → Prop}
    (keeps : ∀ r record, (scope.complete r record).id = record.id)
    (works : Works s (scope.claim draws userId key hash) work Does Fails) (h : Tracks (fun _ => s) v [])
    (thrown : ∀ v' e, scope.Thrown s (scope.claim draws userId key hash) Fails e → Q (.error e) v')
    (done : ∀ v' outcome ws, scope.Attempted s (scope.claim draws userId key hash) Does Fails outcome ws →
      Tracks (fun _ => s) v' ws → Q (.ok outcome) v') :
    (scope.attempt draws userId key hash work).Ensures (fun _ => s) Q v := by
  refine ensures_bind (ensures_read h fun v₁ h₁ => ?_)
  rw [Db.write_nil]
  cases found : scope.findRecord userId key s with
  | some existing =>
      refine ensures_lift (fun e unresolved => thrown v₁ e (.unresolved found unresolved)) fun outcome resolved => ?_
      exact done v₁ outcome [] (.replayed existing outcome found resolved) h₁
  | none =>
      refine ensures_bind (ensures_create h₁ fun v₂ h₂ => ?_)
      refine ensures_tryCatch (R := scope.Worked s (scope.claim draws userId key hash) Does Fails) ?_ ?_ ?_
      · refine ensures_bind (works.ensures h₂ (fun v₃ e fails h₃ => ⟨fails, h₃⟩) fun v₃ r ws does h₃ => ?_)
        refine ensures_bind (ensures_updateRecord (keeps r) (works.clear r ws does) h₃ fun v₄ _ h₄ => ?_)
        exact ensures_pure ⟨_, h₄, .completed r ws found does⟩
      · rintro v₃ outcome ⟨ws, h₃, attempted⟩
        exact done v₃ outcome ws attempted h₃
      · rintro v₃ e ⟨fails, h₃⟩
        split
        · rename_i client
          have claimed : Tracks (fun _ => s) v₃ (.insert (.idempotencyRecord _) :: []) := h₃
          refine ensures_bind (ensures_updateRecord (fun _ => rfl) rfl claimed fun v₄ _ h₄ => ?_)
          exact ensures_pure (done v₄ _ _ (.refused e found fails client.1 client.2) h₄)
        · rename_i server
          exact ensures_throw (thrown v₃ e (.failed found fails server))

/-- What a committed attempt did, wherever it commits. -/
theorem attempt_yields {s : Db} {v : View Settings Row Key} {draws : Draws} {userId : Uuid} {key hash : String}
    {work : Tx ρ} {Does : ρ → List Write → Prop} {Fails : HttpException → Prop}
    (keeps : ∀ r record, (scope.complete r record).id = record.id)
    (works : Works s (scope.claim draws userId key hash) work Does Fails) (h : Tracks (fun _ => s) v []) :
    (scope.attempt draws userId key hash work).Ensures (fun _ => s)
      (Tx.yields (fun _ => s) fun _ => scope.Attempted s (scope.claim draws userId key hash) Does Fails) v :=
  ensures_attempt keeps works h (fun _ _ _ => trivial) fun _ _ ws attempted tracks => ⟨ws, tracks, fun _ _ => attempted⟩

end Scope

end Fintech
