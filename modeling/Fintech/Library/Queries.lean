import Fintech.Library.Snapshot

/-!
# What a call has read before its transactions

A call may query the committed state and choose its next transaction by the answer, which can be out of date by the
time the transaction runs. The certificate of a commit is extended by what the queries of its call can have read: states
that were committed before it.
-/

namespace Transactional

variable {S L W K D ε A R ι : Type} [Store S W K]

/-- The clients that a client can turn into when its queries read states of `P`. -/
inductive Client.LeadsOn (P : S → Prop) : Client S L W K D ε A R → Client S L W K D ε A R → Prop
  | refl (c) : LeadsOn P c c
  | query {c q} (s : S) : P s → LeadsOn P c (.query q) → LeadsOn P c (q s)
  | transaction {c isolation body next} (e) :
      LeadsOn P c (.transaction isolation body next) → LeadsOn P c (next e)

/-- Every transaction that a client can come to run is as `B` says, when its queries read states of `P`. -/
def Client.EveryOn (P : S → Prop) (B : Isolation → Prog S L W K D ε A → Prop) : Client S L W K D ε A R → Prop
  | .done _ => True
  | .query q => ∀ s, P s → (q s).EveryOn P B
  | .transaction isolation body next => B isolation body ∧ ∀ e, (next e).EveryOn P B

section Clients
omit [Store S W K]
variable {P P' : S → Prop} {B B' : Isolation → Prog S L W K D ε A → Prop} {c c' : Client S L W K D ε A R}

theorem Client.LeadsOn.mono (h : Client.LeadsOn P c c') (imp : ∀ s, P s → P' s) : Client.LeadsOn P' c c' := by
  induction h with
  | refl => exact .refl _
  | query s read _ ih => exact .query s (imp s read) ih
  | transaction e _ ih => exact .transaction e ih

theorem Client.EveryOn.leads (h : c.EveryOn P B) (leads : Client.LeadsOn P c c') : c'.EveryOn P B := by
  induction leads with
  | refl => exact h
  | query s read _ ih => exact ih s read
  | transaction e _ ih => exact ih.2 e

theorem Client.Every.on (h : c.Every B) (imp : ∀ isolation body, B isolation body → B' isolation body) :
    c.EveryOn P B' := by
  induction c with
  | done => trivial
  | query q ih => exact fun s _ => ih s (h s)
  | transaction isolation body next ih => exact ⟨imp isolation body h.1, fun e => ih e (h.2 e)⟩

end Clients

namespace System
variable (sys : System S L W K D ε A R ι)

/-- The states that were committed by the time of the `n`-th commit. -/
def Past (log : List (Entry ι W)) (n : Nat) (s : S) : Prop := ∃ k ≤ n, s = sys.state log k

/-- The certificate of commit `j`, with what the queries of its call can have read. -/
def Witnessed (log : List (Entry ι W)) (j : Nat) : Prop :=
  ∃ (h : j < log.length) (born : Nat) (isolation : Isolation) (body : Prog S L W K D ε A)
    (next : Ending D ε A → Client S L W K D ε A R) (a : A) (view : View L W K) (bases : Nat → Nat),
    Client.LeadsOn (sys.Past log j) (sys.program log[j].request) (.transaction isolation body next) ∧
    log[j].writes = view.writes ∧ sys.Committed log j born isolation body a view bases

variable {sys} {log : List (Entry ι W)} {j n : Nat}

theorem Past.append {s : S} (h : sys.Past log n s) (more : List (Entry ι W)) (le : n ≤ log.length) :
    sys.Past (log ++ more) n s := by
  obtain ⟨k, hk, rfl⟩ := h
  exact ⟨k, hk, (stateAt_append more (hk.trans le)).symm⟩

theorem Past.mono {s : S} (h : sys.Past log n s) {m : Nat} (le : n ≤ m) : sys.Past log m s := by
  obtain ⟨k, hk, rfl⟩ := h
  exact ⟨k, hk.trans le, rfl⟩

theorem Committed.append {born : Nat} {isolation : Isolation} {body : Prog S L W K D ε A} {a : A} {view : View L W K}
    {bases : Nat → Nat} (h : sys.Committed log j born isolation body a view bases) (more : List (Entry ι W))
    (le : j ≤ log.length) : sys.Committed (log ++ more) j born isolation body a view bases := by
  refine ⟨h.seen, ?_, fun m k mem => (h.kept m k mem).append more le⟩
  rw [← h.ran]
  congr 1
  funext m
  exact stateAt_append more ((h.seen.le m).trans le)

theorem Witnessed.append (h : sys.Witnessed log j) (more : List (Entry ι W)) : sys.Witnessed (log ++ more) j := by
  obtain ⟨lt, born, isolation, body, next, a, view, bases, leads, writes, committed⟩ := h
  have entry (h : j < (log ++ more).length) : (log ++ more)[j] = log[j] := List.getElem_append_left lt
  refine ⟨by simp; omega, born, isolation, body, next, a, view, bases, ?_, entry _ ▸ writes, committed.append more lt.le⟩
  rw [entry]
  exact leads.mono fun s past => past.append more lt.le

/-- Every running call has come to where it is by queries that read committed states. -/
theorem carries_past (sys : System S L W K D ε A R ι) :
    sys.Carries fun log _ i _ x => Client.LeadsOn (sys.Past log log.length) (sys.program i) x where
  spawn _ _ := .refl _
  other _ _ _ leads := leads.mono fun s past => (past.append _ le_rfl).mono (by simp)
  query _ _ leads := .query _ ⟨_, le_rfl, rfl⟩ leads
  aborted _ leads _ := .transaction _ leads
  thrown _ leads _ := .transaction _ leads
  committed _ _ leads _ := .transaction _ (leads.mono fun s past => (past.append _ le_rfl).mono (by simp))

theorem Reachable.witnessed {c : Config S L W K D ε A R ι} (h : sys.Reachable c) :
    ∀ j < c.log.length, sys.Witnessed c.log j := by
  induction h with
  | initial =>
      intro j lt
      cases lt
  | @step c c' reach step ih =>
      cases step with
      | @commit n i b s a call rest =>
          intro j lt
          change j < (c.log ++ _).length at lt
          rw [List.length_append, List.length_singleton] at lt
          by_cases old : j < c.log.length
          · exact (ih j old).append _
          · obtain rfl : j = c.log.length := by omega
            have leads := (reach.carried (carries_past sys)).calls n i b _ call
            have committed := (reach.invariant.sound n i b s call).committed rest
            refine ⟨by simp, b, s.isolation, s.body, s.next, a, s.view, s.bases, ?_, by simp, committed.append _ le_rfl⟩
            simpa [Activity.pending] using leads.mono fun s past => past.append [⟨n, i, _⟩] le_rfl
      | _ => exact ih

end System

end Transactional
