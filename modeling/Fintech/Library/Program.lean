import Mathlib.Data.List.Basic

/-!
# Transaction programs

A transaction body is a tree of statements. One statement reads the rows it can see and its
transaction-local settings, and either fails or yields a reply together with the rows it locks and
the rows it writes. The body is kept as data, so that it can be run in one go against a single
state, or one statement at a time between the statements of others.

`wp` is the weakest precondition of a run: `A` is what is accepted of a failed statement, so
`A := fun _ => True` gives partial and `A := fun _ => False` total correctness.
-/

namespace Transactional

/-- Stored data, its row writes, and the keys (rows and unique-index entries) a write touches.
`Same k s t` says that what `s` determines about the key `k` still holds in `t`, and `Le s t` that
`t` has at least what `s` has. -/
class Store (S : Type) (W K : outParam Type) where
  apply : S → W → S
  keys : W → List K
  Same : K → S → S → Prop
  same_refl : ∀ k s, Same k s s
  same_trans : ∀ {k s t u}, Same k s t → Same k t u → Same k s u
  same_apply : ∀ {k w} s, k ∉ keys w → Same k s (apply s w)
  same_congr : ∀ {k s t} w, Same k s t → Same k (apply s w) (apply t w)
  Le : S → S → Prop
  le_refl : ∀ s, Le s s
  le_trans : ∀ {s t u}, Le s t → Le t u → Le s u
  le_apply : ∀ s w, Le s (apply s w)
  le_congr : ∀ {s t} w, Le s t → Le (apply s w) (apply t w)

variable {S L W K D ε α β : Type}

def applyAll [Store S W K] (s : S) (ws : List W) : S := ws.foldl Store.apply s

section
variable [Store S W K]

@[simp] theorem applyAll_nil (s : S) : applyAll s ([] : List W) = s := rfl

@[simp] theorem applyAll_cons (s : S) (w : W) (ws : List W) :
    applyAll s (w :: ws) = applyAll (Store.apply s w) ws := rfl

@[simp] theorem applyAll_append (s : S) (ws vs : List W) :
    applyAll s (ws ++ vs) = applyAll (applyAll s ws) vs := List.foldl_append

theorem same_applyAll {k : K} {ws : List W} (s : S) (h : ∀ w ∈ ws, k ∉ Store.keys S w) :
    Store.Same k s (applyAll s ws) := by
  induction ws generalizing s with
  | nil => exact Store.same_refl k s
  | cons w ws ih =>
      exact Store.same_trans (Store.same_apply s (h w (by simp)))
        (ih _ fun v hv => h v (by simp [hv]))

end

section
variable [Store S W K] {s t : S}

theorem same_applyAll_congr {k : K} (ws : List W) (h : Store.Same k s t) :
    Store.Same k (applyAll s ws) (applyAll t ws) := by
  induction ws generalizing s t with
  | nil => exact h
  | cons w ws ih => exact ih (Store.same_congr w h)

theorem le_applyAll (s : S) (ws : List W) : Store.Le s (applyAll s ws) := by
  induction ws generalizing s with
  | nil => exact Store.le_refl s
  | cons w ws ih => exact Store.le_trans (Store.le_apply s w) (ih _)

theorem le_applyAll_congr (ws : List W) (h : Store.Le s t) : Store.Le (applyAll s ws) (applyAll t ws) := by
  induction ws generalizing s t with
  | nil => exact h
  | cons w ws ih => exact ih (Store.le_congr w h)

end

/-- What a successful statement leaves behind. -/
structure Effect (L W K : Type) where
  locals : L
  locks : List K := []
  writes : List W := []

inductive Prog (S L W K D ε : Type) (α : Type) : Type 1
  | ret (a : α)
  | throw (e : ε)
  | statement {β : Type} (q : S → L → Except D (β × Effect L W K)) (next : β → Prog S L W K D ε α)

namespace Prog

def bind : Prog S L W K D ε α → (α → Prog S L W K D ε β) → Prog S L W K D ε β
  | .ret a, f => f a
  | .throw e, _ => .throw e
  | .statement q next, f => .statement q (fun b => (next b).bind f)

instance : Monad (Prog S L W K D ε) where
  pure := .ret
  bind := bind

/-- Only what the body itself throws is caught; a failed statement ends the transaction. -/
def catching : Prog S L W K D ε α → (ε → Prog S L W K D ε α) → Prog S L W K D ε α
  | .ret a, _ => .ret a
  | .throw e, handler => handler e
  | .statement q next, handler => .statement q (fun b => (next b).catching handler)

instance : MonadExcept ε (Prog S L W K D ε) where
  throw := .throw
  tryCatch := catching

/-- A statement on its own. -/
def exec (q : S → L → Except D (α × Effect L W K)) : Prog S L W K D ε α := .statement q .ret

/-- A statement that only reads. -/
def read (f : S → α) : Prog S L W K D ε α := exec fun s l => .ok (f s, { locals := l })

def throwIf (c : Prop) [Decidable c] (e : ε) : Prog S L W K D ε Unit :=
  if c then .throw e else .ret ()

def orThrow (e : ε) : Option α → Prog S L W K D ε α
  | some a => .ret a
  | none => .throw e

def lift : Except ε α → Prog S L W K D ε α
  | .ok a => .ret a
  | .error e => .throw e

def each (f : α → Prog S L W K D ε Unit) : List α → Prog S L W K D ε Unit
  | [] => .ret ()
  | a :: as => (f a).bind fun _ => each f as

end Prog

/-! ## Every statement of a program -/

section Every

abbrev Statement (S L W K D β : Type) := S → L → Except D (β × Effect L W K)

/-- Every statement that the body can come to satisfies `P`. -/
def Prog.Every (P : ∀ {β : Type}, Statement S L W K D β → Prop) : Prog S L W K D ε α → Prop
  | .ret _ => True
  | .throw _ => True
  | .statement q next => P q ∧ ∀ b, (next b).Every P

variable {P : ∀ {β : Type}, Statement S L W K D β → Prop}

namespace Prog

@[simp] theorem every_orThrow (e : ε) (o : Option α) : (orThrow e o : Prog S L W K D ε α).Every P := by
  cases o <;> trivial

@[simp] theorem every_lift (x : Except ε α) : (lift x : Prog S L W K D ε α).Every P := by
  cases x <;> trivial

end Prog

end Every

/-! ## What a program can throw -/

/-- Whatever the body itself throws satisfies `P`. -/
def Prog.Throws (P : ε → Prop) : Prog S L W K D ε α → Prop
  | .ret _ => True
  | .throw e => P e
  | .statement _ next => ∀ b, (next b).Throws P

namespace Prog
variable {P : ε → Prop}

@[simp] theorem throws_pure (a : α) : (pure a : Prog S L W K D ε α).Throws P := trivial

theorem throws_exec (q : Statement S L W K D α) : (exec q : Prog S L W K D ε α).Throws P := fun _ => trivial

theorem throws_bind {p : Prog S L W K D ε β} {f : β → Prog S L W K D ε α} (hp : p.Throws P)
    (hf : ∀ b, (f b).Throws P) : (p >>= f).Throws P := by
  change (p.bind f).Throws P
  induction p with
  | ret b => exact hf b
  | throw e => exact hp
  | statement q next ih => exact fun b => ih b (hp b)

theorem throws_throwIf {c : Prop} [Decidable c] {e : ε} (h : P e) :
    (throwIf c e : Prog S L W K D ε Unit).Throws P := by
  unfold throwIf
  split
  · exact h
  · trivial

theorem throws_orThrow {e : ε} (h : P e) (o : Option α) : (orThrow e o : Prog S L W K D ε α).Throws P := by
  cases o with
  | none => exact h
  | some a => trivial

theorem throws_lift {x : Except ε α} (h : ∀ e, x = .error e → P e) : (lift x : Prog S L W K D ε α).Throws P := by
  cases x with
  | error e => exact h e rfl
  | ok a => trivial

theorem throws_each {f : β → Prog S L W K D ε Unit} (h : ∀ b, (f b).Throws P) (items : List β) :
    (each f items).Throws P := by
  induction items with
  | nil => trivial
  | cons b items ih => exact throws_bind (h b) fun _ => ih

end Prog

/-- How far a transaction has come: the statements executed, its settings, the keys it has touched
with the statement that touched them first, and the rows it has written. -/
structure View (L W K : Type) where
  executed : Nat := 0
  locals : L
  touched : List (Nat × K) := []
  writes : List W := []

namespace View
variable [Store S W K]

def keys (v : View L W K) : List K := v.touched.map Prod.snd

variable (S) in
/-- The keys a statement needs: those it locks and those of the rows it writes. -/
def needs (e : Effect L W K) : List K := e.locks ++ e.writes.flatMap (Store.keys S)

variable (S) in
def after (v : View L W K) (e : Effect L W K) : View L W K where
  executed := v.executed + 1
  locals := e.locals
  touched := v.touched ++ (needs S e).map fun k => (v.executed, k)
  writes := v.writes ++ e.writes

variable {v : View L W K} {e : Effect L W K}

@[simp] theorem after_locals : (v.after S e).locals = e.locals := rfl
@[simp] theorem after_writes : (v.after S e).writes = v.writes ++ e.writes := rfl
@[simp] theorem after_executed : (v.after S e).executed = v.executed + 1 := rfl

@[simp] theorem keys_after : (v.after S e).keys = v.keys ++ needs S e := by
  simp [keys, after, Function.comp_def]

end View

section Run
variable [Store S W K]

/-- Runs a body; statement `n` sees `base n` overlaid with the transaction's own writes. -/
def Prog.run (base : Nat → S) : Prog S L W K D ε α → View L W K → Except D (Except ε α × View L W K)
  | .ret a, v => .ok (.ok a, v)
  | .throw e, v => .ok (.error e, v)
  | .statement q next, v =>
      match q (applyAll (base v.executed) v.writes) v.locals with
      | .error d => .error d
      | .ok (b, e) => (next b).run base (v.after S e)

theorem Prog.run_touched {base : Nat → S} {p : Prog S L W K D ε α} {v v' : View L W K} {r : Except ε α}
    (ran : p.run base v = .ok (r, v')) : v.touched ⊆ v'.touched := by
  induction p generalizing v with
  | ret a =>
      cases ran
      exact List.Subset.refl _
  | throw e =>
      cases ran
      exact List.Subset.refl _
  | statement q next ih =>
      simp only [run] at ran
      cases step : q (applyAll (base v.executed) v.writes) v.locals with
      | error d => simp [step] at ran
      | ok be =>
          simp only [step] at ran
          exact List.Subset.trans (List.subset_append_left _ _) (ih be.1 ran)

/-- Weakest precondition of a run. -/
def Prog.wp (base : Nat → S) (A : D → Prop) (p : Prog S L W K D ε α)
    (Q : Except ε α → View L W K → Prop) (v : View L W K) : Prop :=
  match p.run base v with
  | .error d => A d
  | .ok (r, v') => Q r v'

variable {base : Nat → S} {A : D → Prop} {Q : Except ε α → View L W K → Prop} {v : View L W K}

theorem Prog.wp_of_run {p : Prog S L W K D ε α} {r : Except ε α} {v' : View L W K}
    (h : p.wp base A Q v) (ran : p.run base v = .ok (r, v')) : Q r v' := by
  simpa only [wp, ran] using h

theorem Prog.wp_mono {p : Prog S L W K D ε α} {Q' : Except ε α → View L W K → Prop}
    (h : p.wp base A Q v) (imp : ∀ r v', Q r v' → Q' r v') : p.wp base A Q' v := by
  unfold wp at h ⊢
  split at h
  · exact h
  · exact imp _ _ h

/-- A run that throws, throws what the body can throw. -/
theorem Prog.wp_throws {P : ε → Prop} {p : Prog S L W K D ε α} (throws : p.Throws P) (h : p.wp base A Q v) :
    p.wp base A (fun r v' => Q r v' ∧ ∀ e, r = .error e → P e) v := by
  induction p generalizing v with
  | ret a => exact ⟨h, fun _ e => by cases e⟩
  | throw e => exact ⟨h, fun _ same => by cases same; exact throws⟩
  | statement q next ih =>
      simp only [wp, run] at h ⊢
      cases step : q (applyAll (base v.executed) v.writes) v.locals with
      | error d => simpa [step] using h
      | ok be =>
          simp only [step] at h
          exact ih be.1 (throws be.1) h

/-- With `A` everywhere false the run succeeds. -/
theorem Prog.run_of_wp {p : Prog S L W K D ε α} (h : p.wp base (fun _ => False) Q v) :
    ∃ r v', p.run base v = .ok (r, v') ∧ Q r v' := by
  unfold wp at h
  split at h
  · exact h.elim
  · rename_i r v' ran
    exact ⟨r, v', ran, h⟩

@[simp] theorem Prog.wp_ret (a : α) : (Prog.ret a : Prog S L W K D ε α).wp base A Q v ↔ Q (.ok a) v := Iff.rfl

@[simp] theorem Prog.wp_pure (a : α) : (pure a : Prog S L W K D ε α).wp base A Q v ↔ Q (.ok a) v := Iff.rfl

@[simp] theorem Prog.wp_throw (e : ε) :
    (Prog.throw e : Prog S L W K D ε α).wp base A Q v ↔ Q (.error e) v := Iff.rfl

@[simp] theorem Prog.wp_throwThe (e : ε) :
    (MonadExcept.throw e : Prog S L W K D ε α).wp base A Q v ↔ Q (.error e) v := Iff.rfl

theorem Prog.wp_bind {p : Prog S L W K D ε β} {f : β → Prog S L W K D ε α} :
    (p >>= f).wp base A Q v ↔ p.wp base A (fun r v' => match r with
      | .ok b => (f b).wp base A Q v'
      | .error e => Q (.error e) v') v := by
  change (p.bind f).wp base A Q v ↔ _
  induction p generalizing v with
  | ret b => rfl
  | throw e => rfl
  | statement q next ih =>
      simp only [Prog.bind, wp, run]
      cases q (applyAll (base v.executed) v.writes) v.locals with
      | error d => rfl
      | ok be => exact ih be.1

theorem Prog.wp_tryCatch {p : Prog S L W K D ε α} {handler : ε → Prog S L W K D ε α} :
    (tryCatch p handler).wp base A Q v ↔ p.wp base A (fun r v' => match r with
      | .ok a => Q (.ok a) v'
      | .error e => (handler e).wp base A Q v') v := by
  change (p.catching handler).wp base A Q v ↔ _
  induction p generalizing v with
  | ret b => rfl
  | throw e => rfl
  | statement q next ih =>
      simp only [Prog.catching, wp, run]
      cases q (applyAll (base v.executed) v.writes) v.locals with
      | error d => rfl
      | ok be => exact ih be.1

theorem Prog.wp_exec {q : S → L → Except D (α × Effect L W K)} :
    (Prog.exec q : Prog S L W K D ε α).wp base A Q v ↔
      (∀ d, q (applyAll (base v.executed) v.writes) v.locals = .error d → A d) ∧
      (∀ a e, q (applyAll (base v.executed) v.writes) v.locals = .ok (a, e) → Q (.ok a) (v.after S e)) := by
  simp only [Prog.exec, wp, run]
  cases q (applyAll (base v.executed) v.writes) v.locals with
  | error d => simp
  | ok be => simp [Prod.ext_iff]

@[simp] theorem Prog.wp_read {f : S → α} :
    (Prog.read f : Prog S L W K D ε α).wp base A Q v ↔
      Q (.ok (f (applyAll (base v.executed) v.writes))) (v.after S { locals := v.locals }) := Iff.rfl

@[simp] theorem Prog.wp_throwIf {c : Prop} [Decidable c] {e : ε} {Q : Except ε Unit → View L W K → Prop} :
    (Prog.throwIf c e : Prog S L W K D ε Unit).wp base A Q v ↔
      (c → Q (.error e) v) ∧ (¬ c → Q (.ok ()) v) := by
  unfold Prog.throwIf
  by_cases h : c <;> simp [h]

@[simp] theorem Prog.wp_orThrow {e : ε} {o : Option α} :
    (Prog.orThrow e o : Prog S L W K D ε α).wp base A Q v ↔
      (o = none → Q (.error e) v) ∧ (∀ a, o = some a → Q (.ok a) v) := by
  cases o <;> simp [Prog.orThrow]

@[simp] theorem Prog.wp_lift {x : Except ε α} :
    (Prog.lift x : Prog S L W K D ε α).wp base A Q v ↔ Q x v := by
  cases x <;> rfl

/-- Loop rule: `I` holds of the items done and the view between two iterations. -/
theorem Prog.wp_each {f : β → Prog S L W K D ε Unit} {Q : Except ε Unit → View L W K → Prop}
    (I : List β → View L W K → Prop) (items : List β) (start : I [] v)
    (step : ∀ done b rest v, items = done ++ b :: rest → I done v →
      (f b).wp base A (fun r v' => match r with
        | .ok _ => I (done ++ [b]) v'
        | .error e => Q (.error e) v') v)
    (finish : ∀ v, I items v → Q (.ok ()) v) :
    (Prog.each f items : Prog S L W K D ε Unit).wp base A Q v := by
  suffices h : ∀ rest done v, items = done ++ rest → I done v → (Prog.each f rest).wp base A Q v from
    h items [] v rfl start
  intro rest
  induction rest with
  | nil =>
      intro done v split hI
      rw [List.append_nil] at split
      exact finish v (split ▸ hI)
  | cons b rest ih =>
      intro done v split hI
      change ((f b >>= fun _ => Prog.each f rest) : Prog S L W K D ε Unit).wp base A Q v
      rw [wp_bind]
      refine wp_mono (step done b rest v split hI) ?_
      intro r v' hr
      cases r with
      | error e => exact hr
      | ok _ => exact ih (done ++ [b]) v' (by simp [split]) hr

end Run

end Transactional
