import Fintech.Library.Snapshot

/-!
# What one call answers

A rule for callers: as long as every state committed since the call was made satisfies `P`, the commits that the call makes and the
result that it returns are among those that its program allows, read case by case.
-/

namespace Transactional

variable {S L W K D ε A R ι : Type} [Store S W K]

/-- The ways for a transaction to end, each with what it commits, when its statements see states of `P`. -/
inductive System.Ends (sys : System S L W K D ε A R ι) (P : S → Prop) (isolation : Isolation)
    (body : Prog S L W K D ε A) : Ending D ε A → List (List W) → Prop
  | committed {base a view} : (∀ n, P (base n)) → (isolation = .serializable → base = fun _ => base 0) →
      body.run base sys.start = .ok (.ok a, view) → sys.Ends P isolation body (.committed a) [view.writes]
  | thrown {base e view} : (∀ n, P (base n)) → (isolation = .serializable → base = fun _ => base 0) →
      body.run base sys.start = .ok (.error e, view) → sys.Ends P isolation body (.thrown e) []
  | aborted (d) : sys.Ends P isolation body (.aborted d) []

/-- The client, after some commits, comes to commits and a result that `Q` allows, whatever states of `P` it sees. -/
def Client.Answers (E : Isolation → Prog S L W K D ε A → Ending D ε A → List (List W) → Prop) (P : S → Prop)
    (Q : List (List W) → R → Prop) : Client S L W K D ε A R → List (List W) → Prop
  | .done r, made => Q made r
  | .query q, made => ∀ s, P s → (q s).Answers E P Q made
  | .transaction isolation body next, made => ∀ e ws, E isolation body e ws → (next e).Answers E P Q (made ++ ws)

section
omit [Store S W K]
variable {E : Isolation → Prog S L W K D ε A → Ending D ε A → List (List W) → Prop} {P : S → Prop}
  {Q Q' : List (List W) → R → Prop} {c : Client S L W K D ε A R} {made : List (List W)}

theorem Client.Answers.imp (h : c.Answers E P Q made) (imp : ∀ made r, Q made r → Q' made r) : c.Answers E P Q' made := by
  induction c generalizing made with
  | done r => exact imp made r h
  | query q ih => exact fun s seen => ih s (h s seen)
  | transaction isolation body next ih => exact fun e ws ends => ih e (h e ws ends)

end

/-- What the call has committed. -/
def commitsOf (log : List (Entry ι W)) (call : Nat) : List (List W) :=
  (log.filter fun e => e.call = call).map Entry.writes

section
omit [Store S W K]
variable {log : List (Entry ι W)} {call : Nat}

theorem commitsOf_eq_nil (h : ∀ e ∈ log, e.call ≠ call) : commitsOf log call = [] := by
  rw [commitsOf, List.map_eq_nil_iff, List.filter_eq_nil_iff]
  intro e he
  simpa using h e he

theorem commitsOf_append (e : Entry ι W) :
    commitsOf (log ++ [e]) call = commitsOf log call ++ if e.call = call then [e.writes] else [] := by
  rw [commitsOf, List.filter_append, List.map_append, ← commitsOf]
  congr 1
  split
  · rename_i own
    simp [own]
  · rename_i other
    simp [other]

theorem mem_commitsOf {ws : List W} : ws ∈ commitsOf log call ↔ ∃ e ∈ log, e.call = call ∧ e.writes = ws := by
  simp [commitsOf, and_assoc]

end

namespace System
variable {sys : System S L W K D ε A R ι} {P : S → Prop} {Q : List (List W) → R → Prop}

/-- Every state committed from the `b`-th on satisfies `P`. -/
def Since (sys : System S L W K D ε A R ι) (P : S → Prop) (log : List (Entry ι W)) (b : Nat) : Prop :=
  ∀ k, b ≤ k → k ≤ log.length → P (sys.state log k)

theorem Since.init {log : List (Entry ι W)} {e : Entry ι W} {b : Nat} (h : sys.Since P (log ++ [e]) b) : sys.Since P log b := by
  intro k lo hi
  have later := h k lo (hi.trans (by simp))
  rwa [state, stateAt_append _ hi] at later

theorem Since.seen {log : List (Entry ι W)} {isolation : Isolation} {born : Nat} {bases : Nat → Nat}
    (h : sys.Since P log born) (seen : Seen isolation born log.length bases) (n : Nat) : P (sys.state log (bases n)) :=
  h _ (seen.born_le n) (seen.le n)

theorem carries_answers : sys.Carries fun log n i b x =>
    (sys.program i).Answers (sys.Ends P) P Q [] → sys.Since P log b → x.Answers (sys.Ends P) P Q (commitsOf log n) where
  spawn := by
    intro log n i _ fresh program _
    rw [commitsOf_eq_nil fresh]
    exact program
  other := by
    intro log n i b x e _ _ other h program since
    rw [commitsOf_append, if_neg other, List.append_nil]
    exact h program since.init
  query := by
    intro log n i b q _ born h program since
    exact h program since _ (since _ born le_rfl)
  aborted := by
    intro log n i b isolation body next d _ h _ program since
    simpa using h program since _ _ (.aborted d)
  thrown := by
    rintro log n i b isolation body next e view _ h ⟨bases, seen, ran⟩ program since
    have ends : sys.Ends P isolation body (.thrown e) [] :=
      .thrown (fun m => since.seen seen m) (fun iso => funext fun m => by rw [seen.fixed iso m]) ran
    simpa using h program since _ _ ends
  committed := by
    intro log n i b isolation body next a view bases _ _ h committed program since
    have ends : sys.Ends P isolation body (.committed a) [view.writes] :=
      .committed (fun m => since.init.seen committed.seen m)
        (fun iso => funext fun m => by rw [committed.seen.fixed iso m]) committed.ran
    rw [commitsOf_append, if_pos rfl]
    exact h program since.init _ _ ends

/-- A call is as old as some commit. -/
theorem Reachable.born_le {c : Config S L W K D ε A R ι} (h : sys.Reachable c) {r : Result ι R} (hr : r ∈ c.results) :
    r.born ≤ c.log.length :=
  ((h.carried (carries_answers (P := fun _ => True) (Q := fun _ _ => True))).results r hr).1

/-- A result is one that its program allows, with all that its call committed. -/
theorem Reachable.answered {c : Config S L W K D ε A R ι} (h : sys.Reachable c) {r : Result ι R} (hr : r ∈ c.results)
    (program : (sys.program r.request).Answers (sys.Ends P) P Q []) (since : sys.Since P c.log r.born) :
    Q (commitsOf c.log r.call) r.result :=
  ((h.carried carries_answers).results r hr).2 program since

end System

end Transactional
