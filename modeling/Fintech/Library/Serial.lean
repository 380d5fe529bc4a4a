import Fintech.Library.Snapshot

/-!
# Calls one after another

`alone` runs a call with nobody else: each of its transactions sees one state and commits or fails
at once. What it does is a run of the system (`Reachable.alone`), so that a sequence of calls can be
computed and its last state is known to be reachable.
-/

namespace Transactional

variable {S L W K D ε A R ι : Type} [Store S W K]

/-- The rows that each commit of the call writes, and its result. -/
def Client.alone (locals : L) : S → Client S L W K D ε A R → List (List W) × R
  | _, .done r => ([], r)
  | s, .query q => (q s).alone locals s
  | s, .transaction _ body next =>
      match body.run (fun _ => s) { locals } with
      | .error d => (next (.aborted d)).alone locals s
      | .ok (.error e, _) => (next (.thrown e)).alone locals s
      | .ok (.ok a, v) =>
          let rest := (next (.committed a)).alone locals (applyAll s v.writes)
          (v.writes :: rest.1, rest.2)

namespace Config
variable (c : Config S L W K D ε A R ι)

/-- No call is running. -/
def Idle : Prop := ∀ n, c.calls n = none

end Config

namespace System
variable {sys : System S L W K D ε A R ι}

/-- The call `i`, made and finished while nobody else runs. -/
def perform (sys : System S L W K D ε A R ι) (log : List (Entry ι W)) (call : Nat) (i : ι) :
    List (Entry ι W) × R :=
  let ran := (sys.program i).alone sys.locals (sys.state log log.length)
  (log ++ ran.1.map (⟨call, i, ·⟩), ran.2)

theorem perform_log (sys : System S L W K D ε A R ι) (log : List (Entry ι W)) (call : Nat) (i : ι) :
    ∃ made : List (List W), (sys.perform log call i).1 = log ++ made.map (⟨call, i, ·⟩) := ⟨_, rfl⟩

/-- The log after the calls, one after another. -/
def performAll (sys : System S L W K D ε A R ι) : List ι → List (Entry ι W) → Nat → List (Entry ι W)
  | [], log, _ => log
  | i :: is, log, call => sys.performAll is (sys.perform log call i).1 (call + 1)

/-- Every commit is of one of the calls, the one of its number. -/
theorem call_of_mem_performAll {is : List ι} {log : List (Entry ι W)} {call : Nat} {e : Entry ι W}
    (h : e ∈ sys.performAll is log call) : e ∈ log ∨ call ≤ e.call ∧ is[e.call - call]? = some e.request := by
  induction is generalizing log call with
  | nil => exact .inl h
  | cons i is ih =>
      rcases ih h with made | ⟨later, at_⟩
      · rcases List.mem_append.mp made with old | new
        · exact .inl old
        · obtain ⟨ws, _, rfl⟩ := List.mem_map.mp new
          exact .inr ⟨le_rfl, by simp⟩
      · refine .inr ⟨by omega, ?_⟩
        rw [show e.call - call = e.call - (call + 1) + 1 by omega, List.getElem?_cons_succ]
        exact at_

theorem request_of_mem_performAll {is : List ι} {log : List (Entry ι W)} {call : Nat} {e : Entry ι W}
    (h : e ∈ sys.performAll is log call) : e ∈ log ∨ e.request ∈ is :=
  (call_of_mem_performAll h).imp_right fun made => List.mem_of_getElem? made.2

section
variable {c : Config S L W K D ε A R ι} {n : Nat} {i : ι} {b : Nat}

omit [Store S W K] in
theorem set_set (x y : Option (Call S L W K D ε A R ι)) : (c.set n x).set n y = c.set n y := by
  simp [Config.set]

omit [Store S W K] in
theorem set_self (x : Option (Call S L W K D ε A R ι)) : (c.set n x).calls n = x := by
  simp [Config.set]

/-- The call once its transaction has ended, with the commit that it made. -/
def ended (c : Config S L W K D ε A R ι) (n : Nat) (i : ι) (b : Nat) (next : Ending D ε A → Client S L W K D ε A R) :
    Except D (Except ε A × View L W K) → Config S L W K D ε A R ι
  | .error d => c.set n (some ⟨i, b, .client (next (.aborted d))⟩)
  | .ok (.error e, _) => c.set n (some ⟨i, b, .client (next (.thrown e))⟩)
  | .ok (.ok a, v) =>
      { c.set n (some ⟨i, b, .client (next (.committed a))⟩) with log := c.log ++ [⟨n, i, v.writes⟩] }

section
variable {P : Config S L W K D ε A R ι → Prop} (closed : ∀ {c c'}, P c → sys.Step c c' → c'.spawned = c.spawned → P c')
include closed

/-- A transaction that runs alone comes to its end. -/
theorem statements_alone {isolation : Isolation} {body rest : Prog S L W K D ε A}
    {next : Ending D ε A → Client S L W K D ε A R} {bases : Nat → Nat} {view : View L W K}
    (idle : ∀ m ≠ n, c.calls m = none) (latest : ∀ m, bases m = c.log.length)
    (h : P (c.set n (some ⟨i, b, .session ⟨isolation, body, next, bases, rest, view⟩⟩))) :
    P (ended c n i b next (rest.run (fun _ => sys.state c.log c.log.length) view)) := by
  induction rest generalizing view bases with
  | ret a =>
      have done := closed h (.commit (set_self _) rfl) rfl
      rwa [set_set] at done
  | throw e =>
      have done := closed h (.rollback (set_self _) rfl) rfl
      rwa [set_set] at done
  | statement q rest ih =>
      have base : (Session.mk isolation body next bases (.statement q rest) view).base c.log.length = c.log.length := by
        cases isolation
        · rfl
        · exact latest _
      have visible : sys.visible c.log ⟨isolation, body, next, bases, .statement q rest, view⟩ =
          applyAll (sys.state c.log c.log.length) view.writes := by
        rw [System.visible, base]
      cases ran : q (applyAll (sys.state c.log c.log.length) view.writes) view.locals with
      | error d =>
          have failed := closed h (.fail (set_self _) rfl (visible ▸ ran)) rfl
          rw [set_set] at failed
          simp only [Prog.run, ran]
          exact failed
      | ok be =>
          obtain ⟨reply, e⟩ := be
          have done := closed h (.statement (set_self _) rfl (visible ▸ ran) ?_ fun _ k _ => ?_) rfl
          · rw [set_set] at done
            simp only [Prog.run, ran]
            refine ih reply (fun m => ?_) done
            change (if m < view.executed then bases m else _) = _
            split
            · exact latest m
            · exact base
          · rintro k _ m ne ⟨i', b', s', hm, _⟩
            simp [Config.set, ne, idle m ne] at hm
          · change Untouched S c.log (Session.base _ c.log.length) c.log.length k
            rw [base]
            exact untouched_self _ _

/-- A call that runs alone comes to its end. -/
theorem client_alone {x : Client S L W K D ε A R} (idle : ∀ m ≠ n, c.calls m = none)
    (h : P (c.set n (some ⟨i, b, .client x⟩))) :
    let ran := x.alone sys.locals (sys.state c.log c.log.length)
    P { c.set n none with
      log := c.log ++ ran.1.map (⟨n, i, ·⟩), results := c.results ++ [⟨n, i, b, ran.2⟩] } := by
  induction x generalizing c with
  | done r =>
      have finished := closed h (.finish (set_self _)) rfl
      rw [set_set] at finished
      simpa [Client.alone, Config.set] using finished
  | query q ih =>
      have asked := closed h (.query (set_self _)) rfl
      rw [set_set] at asked
      exact ih _ idle asked
  | transaction isolation body next ih =>
      have began := closed h (.begin (set_self _)) rfl
      rw [set_set] at began
      have finished := statements_alone closed idle (fun _ => rfl) began
      rw [start] at finished
      simp only [Client.alone]
      cases ran : body.run (fun _ => sys.state c.log c.log.length) { locals := sys.locals } with
      | error d =>
          rw [ran] at finished
          exact ih _ idle finished
      | ok outcome =>
          obtain ⟨outcome, v⟩ := outcome
          rw [ran] at finished
          cases outcome with
          | error e => exact ih _ idle finished
          | ok a =>
              have done := @ih _ { c with log := c.log ++ [⟨n, i, v.writes⟩] } idle finished
              have state := @stateAt_concat S W K ι _ sys.initial c.log ⟨n, i, v.writes⟩
              rw [← System.state, ← System.state] at state
              simp only [state] at done
              simpa [Config.set] using done

end

/-- A call made while no call is running. -/
theorem Reachable.perform (h : sys.Reachable c) (idle : c.Idle) (i : ι) :
    ∃ c', sys.Reachable c' ∧ c'.Idle ∧ c'.log = (sys.perform c.log c.spawned i).1 ∧ c'.spawned = c.spawned + 1 ∧
      c'.results = c.results ++ [⟨c.spawned, i, c.log.length, (sys.perform c.log c.spawned i).2⟩] := by
  have made := h.step (.spawn c i)
  have finished := client_alone (fun reach step _ => Reachable.step reach step)
    (c := { c with spawned := c.spawned + 1 }) (fun m _ => idle m) made
  refine ⟨_, finished, fun m => ?_, rfl, rfl, rfl⟩
  by_cases same : m = c.spawned
  · simp [Config.set, same]
  · simpa [Config.set, same] using idle m

theorem Reachable.performAll (h : sys.Reachable c) (idle : c.Idle) (is : List ι) :
    ∃ c', sys.Reachable c' ∧ c'.Idle ∧ c'.log = sys.performAll is c.log c.spawned ∧
      c'.spawned = c.spawned + is.length := by
  induction is generalizing c with
  | nil => exact ⟨c, h, idle, rfl, rfl⟩
  | cons i is ih =>
      obtain ⟨c₁, reach, idle₁, log, spawned, _⟩ := h.perform idle i
      obtain ⟨c₂, reach₂, idle₂, log₂, spawned₂⟩ := ih reach idle₁
      refine ⟨c₂, reach₂, idle₂, ?_, ?_⟩
      · rw [log₂, log, spawned]
        rfl
      · rw [spawned₂, spawned, List.length_cons]
        omega

end

/-- The calls, made one after another from the start, leave a reachable configuration. -/
theorem reachable_performAll (sys : System S L W K D ε A R ι) (is : List ι) :
    ∃ c, sys.Reachable c ∧ c.log = sys.performAll is [] 0 := by
  obtain ⟨c, reach, _, log, _⟩ := Reachable.performAll (Reachable.initial : sys.Reachable .initial) (fun _ => rfl) is
  exact ⟨c, reach, log⟩

/-- One call more, with its result. -/
theorem reachable_perform (sys : System S L W K D ε A R ι) (is : List ι) (i : ι) :
    ∃ c, sys.Reachable c ∧ c.log = (sys.perform (sys.performAll is [] 0) is.length i).1 ∧
      ⟨is.length, i, (sys.performAll is [] 0).length, (sys.perform (sys.performAll is [] 0) is.length i).2⟩ ∈ c.results := by
  obtain ⟨c, reach, idle, log, spawned⟩ := Reachable.performAll (Reachable.initial : sys.Reachable .initial) (fun _ => rfl) is
  rw [Config.initial, Nat.zero_add] at spawned
  obtain ⟨c', reach', _, log', _, results⟩ := reach.perform idle i
  rw [log, spawned] at log' results
  exact ⟨c', reach', log', results ▸ List.mem_append_right _ (List.mem_singleton_self _)⟩

end System

end Transactional
