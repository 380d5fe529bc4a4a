import Fintech.Library.Serial

/-!
# Two runs

Two bodies run against two states, side by side: both fail with the same error, or both come to an end and
their results and views are related. What a call does alone is the same in two states if its transactions
end alike and its queries read alike.
-/

namespace Transactional

variable {S L W K D ε A α β R : Type} [Store S W K]

namespace Prog

theorem run_bind {base : Nat → S} {p : Prog S L W K D ε β} {f : β → Prog S L W K D ε α} {v : View L W K} :
    (p >>= f).run base v = p.run base v >>= fun
      | (.error e, w) => .ok (.error e, w)
      | (.ok b, w) => (f b).run base w := by
  change (p.bind f).run base v = _
  induction p generalizing v with
  | ret b => rfl
  | throw e => rfl
  | statement q next ih =>
      simp only [Prog.bind, run]
      cases q (applyAll (base v.executed) v.writes) v.locals with
      | error d => rfl
      | ok be => exact ih be.1

theorem run_tryCatch {base : Nat → S} {p : Prog S L W K D ε α} {handler : ε → Prog S L W K D ε α} {v : View L W K} :
    (tryCatch p handler).run base v = p.run base v >>= fun
      | (.error e, w) => (handler e).run base w
      | (.ok a, w) => .ok (.ok a, w) := by
  change (p.catching handler).run base v = _
  induction p generalizing v with
  | ret b => rfl
  | throw e => rfl
  | statement q next ih =>
      simp only [Prog.catching, run]
      cases q (applyAll (base v.executed) v.writes) v.locals with
      | error d => rfl
      | ok be => exact ih be.1

end Prog

/-- Both fail with the same error, or both end and what they end with is related. -/
def Alike (P : α → β → Prop) : Except D α → Except D β → Prop
  | .error d, .error d' => d = d'
  | .ok a, .ok b => P a b
  | _, _ => False

section
omit [Store S W K]
variable {P : α → β → Prop} {x : Except D α} {y : Except D β}

theorem alike_cases (h : Alike P x y) : (∃ d, x = .error d ∧ y = .error d) ∨ ∃ a b, x = .ok a ∧ y = .ok b ∧ P a b := by
  cases x with
  | error d =>
      cases y with
      | error d' =>
          cases h
          exact .inl ⟨d, rfl, rfl⟩
      | ok b => cases h
  | ok a =>
      cases y with
      | error d' => cases h
      | ok b => exact .inr ⟨a, b, rfl, rfl, h⟩

theorem alike_mono {Q : α → β → Prop} (h : Alike P x y) (imp : ∀ a b, P a b → Q a b) : Alike Q x y := by
  rcases alike_cases h with ⟨d, rfl, rfl⟩ | ⟨a, b, rfl, rfl, related⟩
  · exact rfl
  · exact imp a b related

theorem alike_bind {γ δ : Type} {Q : γ → δ → Prop} {f : α → Except D γ} {g : β → Except D δ} (h : Alike P x y)
    (rest : ∀ a b, P a b → Alike Q (f a) (g b)) : Alike Q (x >>= f) (y >>= g) := by
  rcases alike_cases h with ⟨d, rfl, rfl⟩ | ⟨a, b, rfl, rfl, related⟩
  · exact rfl
  · exact rest a b related

end

variable {base base' : Nat → S} {v v' : View L W K}

/-- The two bodies, run side by side. -/
structure Prog.Pair (base base' : Nat → S) (p p' : Prog S L W K D ε α)
    (Q : Except ε α × View L W K → Except ε α × View L W K → Prop) (v v' : View L W K) : Prop where
  alike : Alike Q (p.run base v) (p'.run base' v')

/-- What is asked of the first parts of two bodies when `Q` is asked of the whole. -/
def Prog.thenPair (base base' : Nat → S) (f f' : β → Prog S L W K D ε α)
    (Q : Except ε α × View L W K → Except ε α × View L W K → Prop) :
    Except ε β × View L W K → Except ε β × View L W K → Prop
  | (.ok b, w), (.ok b', w') => (f b).Pair base base' (f' b') Q w w'
  | (.error e, w), (.error e', w') => Q (.error e, w) (.error e', w')
  | _, _ => False

/-- What is asked of two bodies when `Q` is asked of them with what they throw caught. -/
def Prog.catchPair (base base' : Nat → S) (handler handler' : ε → Prog S L W K D ε α)
    (Q : Except ε α × View L W K → Except ε α × View L W K → Prop) :
    Except ε α × View L W K → Except ε α × View L W K → Prop
  | (.ok a, w), (.ok a', w') => Q (.ok a, w) (.ok a', w')
  | (.error e, w), (.error e', w') => (handler e).Pair base base' (handler' e') Q w w'
  | _, _ => False

variable {Q : Except ε α × View L W K → Except ε α × View L W K → Prop}

theorem pair_bind {p p' : Prog S L W K D ε β} {f f' : β → Prog S L W K D ε α}
    (h : p.Pair base base' p' (Prog.thenPair base base' f f' Q) v v') :
    (p >>= f).Pair base base' (p' >>= f') Q v v' := by
  constructor
  rw [Prog.run_bind, Prog.run_bind]
  apply alike_bind h.alike
  rintro ⟨r, w⟩ ⟨r', w'⟩ related
  cases r with
  | error e =>
      cases r' with
      | error e' => exact related
      | ok b' => exact related.elim
  | ok b =>
      cases r' with
      | error e' => exact related.elim
      | ok b' => exact related.alike

theorem pair_tryCatch {p p' : Prog S L W K D ε α} {handler handler' : ε → Prog S L W K D ε α}
    (h : p.Pair base base' p' (Prog.catchPair base base' handler handler' Q) v v') :
    (tryCatch p handler).Pair base base' (tryCatch p' handler') Q v v' := by
  constructor
  rw [Prog.run_tryCatch, Prog.run_tryCatch]
  apply alike_bind h.alike
  rintro ⟨r, w⟩ ⟨r', w'⟩ related
  cases r with
  | error e =>
      cases r' with
      | error e' => exact related.alike
      | ok b' => exact related.elim
  | ok b =>
      cases r' with
      | error e' => exact related.elim
      | ok b' => exact related

theorem pair_exec {q q' : Statement S L W K D α}
    (h : Alike (fun out out' => Q (.ok out.1, v.after S out.2) (.ok out'.1, v'.after S out'.2))
      (q (applyAll (base v.executed) v.writes) v.locals) (q' (applyAll (base' v'.executed) v'.writes) v'.locals)) :
    (Prog.exec q : Prog S L W K D ε α).Pair base base' (Prog.exec q') Q v v' := by
  constructor
  simp only [Prog.exec, Prog.run]
  rcases alike_cases h with ⟨d, ran, ran'⟩ | ⟨out, out', ran, ran', related⟩
  · rw [ran, ran']
    rfl
  · rw [ran, ran']
    exact related

theorem pair_pure {a a' : α} (h : Q (.ok a, v) (.ok a', v')) :
    (pure a : Prog S L W K D ε α).Pair base base' (pure a') Q v v' := ⟨h⟩

theorem pair_throw {e e' : ε} (h : Q (.error e, v) (.error e', v')) :
    (Prog.throw e : Prog S L W K D ε α).Pair base base' (.throw e') Q v v' := ⟨h⟩

theorem pair_lift {x : Except ε α} (h : Q (x, v) (x, v')) :
    (Prog.lift x : Prog S L W K D ε α).Pair base base' (Prog.lift x) Q v v' := by
  cases x <;> exact ⟨h⟩

theorem pair_imp {p p' : Prog S L W K D ε α} {P : Except ε α × View L W K → Except ε α × View L W K → Prop}
    (h : p.Pair base base' p' P v v') (imp : ∀ out out', P out out' → Q out out') : p.Pair base base' p' Q v v' :=
  ⟨alike_mono h.alike imp⟩

/-! ## Calls -/

/-- What two calls do alone is related if the ends of their transactions and what follows are. -/
theorem Client.alone_pair {locals : L} {s s' : S} {isolation : Isolation} {body : Prog S L W K D ε A}
    {next : Ending D ε A → Client S L W K D ε A R} {P : List (List W) × R → List (List W) × R → Prop}
    {Q : Except ε A × View L W K → Except ε A × View L W K → Prop}
    (ends : body.Pair (fun _ => s) (fun _ => s') body Q { locals } { locals })
    (same : ∀ r r' w w', Q (r, w) (r', w') → r = r')
    (aborted : ∀ d, P ((next (.aborted d)).alone locals s) ((next (.aborted d)).alone locals s'))
    (thrown : ∀ e, P ((next (.thrown e)).alone locals s) ((next (.thrown e)).alone locals s'))
    (committed : ∀ a w w', Q (.ok a, w) (.ok a, w') →
      let rest := (next (.committed a)).alone locals (applyAll s w.writes)
      let rest' := (next (.committed a)).alone locals (applyAll s' w'.writes)
      P (w.writes :: rest.1, rest.2) (w'.writes :: rest'.1, rest'.2)) :
    P ((Client.transaction isolation body next).alone locals s) ((Client.transaction isolation body next).alone locals s') := by
  simp only [Client.alone]
  rcases alike_cases ends.alike with ⟨d, ran, ran'⟩ | ⟨⟨r, w⟩, ⟨r', w'⟩, ran, ran', ended⟩
  · rw [ran, ran']
    exact aborted d
  · cases same r r' w w' ended
    rw [ran, ran']
    cases r with
    | error e => exact thrown e
    | ok a => exact committed a w w' ended

end Transactional
