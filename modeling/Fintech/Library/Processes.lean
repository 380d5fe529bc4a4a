import Mathlib.Data.List.Range
import Mathlib.Logic.Relation
import Fintech.Library.Snapshot

/-!
# Processes over a transactional system

A process serves one request: it reads the latest commit, has the system make calls for it, asks the
world outside, which may answer anything, and responds. It may crash at any moment; what it has
committed and asked stays. The history of a world lists what its processes did, in order.

The main results of the module are `World.Reachable.traced`, what one process did is a run of its handler, and
`World.Reachable.borne`, the system below bears every event out.
-/

namespace Transactional

inductive Process (S R D κ O I T : Type)
  | respond (t : T)
  | query (q : S → Process S R D κ O I T)
  | call (k : κ) (next : R → Process S R D κ O I T)
  /-- One statement that commits by itself, as the call that does the same to the state that it sees. -/
  | statement (q : S → Except D κ) (next : S → Process S R D κ O I T) (failed : D → Process S R D κ O I T)
  | ask (o : O) (next : I → Process S R D κ O I T)

/-- What a process does; calls and commits by their numbers. -/
inductive Event (S R D κ O I T : Type)
  | read (commits : Nat) (s : S)
  | called (call : Nat) (k : κ)
  | returned (call : Nat) (k : κ) (r : R)
  | performed (call commits : Nat) (s : S) (k : κ)
  | failed (d : D)
  | asked (o : O)
  | answered (o : O) (i : I)
  | responded (t : T)

inductive Stage (S R D κ O I T : Type)
  | running (p : Process S R D κ O I T)
  | calling (call : Nat) (k : κ) (next : R → Process S R D κ O I T)
  | asking (o : O) (next : I → Process S R D κ O I T)
  | ended

structure World (S L W K D ε A R κ O I T ι : Type) where
  base : Config S L W K D ε A R κ
  requests : List ι
  stages : Nat → Option (Stage S R D κ O I T)
  history : List (Nat × Event S R D κ O I T)

/-- A system, and the process that serves each request. -/
structure Gateway (S L W K D ε A R κ O I T ι : Type) where
  system : System S L W K D ε A R κ
  handler : ι → Process S R D κ O I T

variable {S L W K D ε A R κ O I T ι : Type}

/-- The call that an event starts. -/
def Event.made : Event S R D κ O I T → Option (Nat × κ)
  | called m k => some (m, k)
  | performed m _ _ k => some (m, k)
  | _ => none

namespace Stage

inductive Step : Stage S R D κ O I T → Event S R D κ O I T → Stage S R D κ O I T → Prop
  | query (q commits s) : Step (.running (.query q)) (.read commits s) (.running (q s))
  | call (k next m) : Step (.running (.call k next)) (.called m k) (.calling m k next)
  | resume (k next m r) : Step (.calling m k next) (.returned m k r) (.running (next r))
  | statement {q next fails m commits s k} : q s = .ok k →
      Step (.running (.statement q next fails)) (.performed m commits s k) (.running (next s))
  | fail (q next fails d) : Step (.running (.statement q next fails)) (.failed d) (.running (fails d))
  | ask (o next) : Step (.running (.ask o next)) (.asked o) (.asking o next)
  | answer (o next i) : Step (.asking o next) (.answered o i) (.running (next i))
  | respond (t) : Step (.running (.respond t)) (.responded t) .ended

inductive Runs (x : Stage S R D κ O I T) : List (Event S R D κ O I T) → Stage S R D κ O I T → Prop
  | nil : Runs x [] x
  | concat {es y e z} : Runs x es y → Step y e z → Runs x (es ++ [e]) z

end Stage

/-! ## The rule for handlers -/

/-- Whatever the process comes to do, as long as its events are as `P` says, `Q` allows after what it has done before. -/
def Process.Always (P : Event S R D κ O I T → Prop) (Q : List (Event S R D κ O I T) → Event S R D κ O I T → Prop) :
    Process S R D κ O I T → List (Event S R D κ O I T) → Prop
  | .respond t, done => P (.responded t) → Q done (.responded t)
  | .query q, done => ∀ commits s, P (.read commits s) →
      Q done (.read commits s) ∧ (q s).Always P Q (done ++ [.read commits s])
  | .call k next, done => ∀ m, P (.called m k) →
      Q done (.called m k) ∧ ∀ r, P (.returned m k r) →
        Q (done ++ [.called m k]) (.returned m k r) ∧
          (next r).Always P Q (done ++ [.called m k] ++ [.returned m k r])
  | .statement q next fails, done =>
      (∀ m commits s k, q s = .ok k → P (.performed m commits s k) →
        Q done (.performed m commits s k) ∧ (next s).Always P Q (done ++ [.performed m commits s k])) ∧
      ∀ d, P (.failed d) → Q done (.failed d) ∧ (fails d).Always P Q (done ++ [.failed d])
  | .ask o next, done => P (.asked o) →
      Q done (.asked o) ∧ ∀ i, P (.answered o i) →
        Q (done ++ [.asked o]) (.answered o i) ∧ (next i).Always P Q (done ++ [.asked o] ++ [.answered o i])

section
variable {P : Event S R D κ O I T → Prop} {Q : List (Event S R D κ O I T) → Event S R D κ O I T → Prop}

/-- `Process.Always` at the stages of a process. -/
def Stage.Always (P : Event S R D κ O I T → Prop) (Q : List (Event S R D κ O I T) → Event S R D κ O I T → Prop) :
    Stage S R D κ O I T → List (Event S R D κ O I T) → Prop
  | .running p, done => p.Always P Q done
  | .calling m k next, done => ∀ r, P (.returned m k r) →
      Q done (.returned m k r) ∧ (next r).Always P Q (done ++ [.returned m k r])
  | .asking o next, done => ∀ i, P (.answered o i) →
      Q done (.answered o i) ∧ (next i).Always P Q (done ++ [.answered o i])
  | .ended, _ => True

theorem Stage.Always.step {x y : Stage S R D κ O I T} {e : Event S R D κ O I T} {done : List (Event S R D κ O I T)}
    (h : x.Always P Q done) (step : Step x e y) (he : P e) : Q done e ∧ y.Always P Q (done ++ [e]) := by
  cases step with
  | query q commits s => exact h commits s he
  | call k next m => exact h m he
  | resume k next m r => exact h r he
  | statement ok => exact h.1 _ _ _ _ ok he
  | fail q next fails d => exact h.2 d he
  | ask o next => exact h he
  | answer o next i => exact h i he
  | respond t => exact ⟨h he, trivial⟩

theorem Stage.Runs.always {x y : Stage S R D κ O I T} {es : List (Event S R D κ O I T)} (runs : Runs x es y)
    (h : x.Always P Q []) (all : ∀ e ∈ es, P e) :
    y.Always P Q es ∧ ∀ done e rest, es = done ++ e :: rest → Q done e := by
  induction runs with
  | nil => exact ⟨h, fun done e rest split => absurd split (by simp)⟩
  | @concat es y e z runs step ih =>
      obtain ⟨here, before⟩ := ih fun e he => all e (List.mem_append_left _ he)
      obtain ⟨now, next⟩ := here.step step (all e (by simp))
      refine ⟨next, fun done e' rest split => ?_⟩
      rcases List.eq_nil_or_concat rest with rfl | ⟨rest, last, rfl⟩
      · obtain ⟨rfl, same⟩ := List.append_inj' split rfl
        cases same
        exact now
      · rw [List.concat_eq_append, ← List.cons_append, ← List.append_assoc] at split
        exact before done e' rest (List.append_inj' split rfl).1

end

/-! ## Worlds -/

namespace World
variable (w : World S L W K D ε A R κ O I T ι) (n : Nat)

/-- What process `n` did. -/
def eventsOf : List (Event S R D κ O I T) := (w.history.filter fun x => x.1 = n).map Prod.snd

/-- The calls that the processes started. -/
def made : List (Nat × κ) := w.history.filterMap fun x => x.2.made

def accept (i : ι) (p : Process S R D κ O I T) : World S L W K D ε A R κ O I T ι :=
  { w with
    requests := w.requests ++ [i], stages := Function.update w.stages w.requests.length (some (.running p)) }

def act (e : Event S R D κ O I T) (x : Stage S R D κ O I T) (base : Config S L W K D ε A R κ) :
    World S L W K D ε A R κ O I T ι :=
  { w with base := base, stages := Function.update w.stages n (some x), history := w.history ++ [(n, e)] }

def crash : World S L W K D ε A R κ O I T ι := { w with stages := Function.update w.stages n none }

theorem made_act (e : Event S R D κ O I T) (x : Stage S R D κ O I T) (base : Config S L W K D ε A R κ) :
    (w.act n e x base).made = w.made ++ e.made.toList := by
  rw [made, act, List.filterMap_append, ← made]
  cases same : e.made with
  | none => simp [same]
  | some call => simp [same]

theorem eventsOf_act (m : Nat) (e : Event S R D κ O I T) (x : Stage S R D κ O I T) (base : Config S L W K D ε A R κ) :
    (w.act n e x base).eventsOf m = w.eventsOf m ++ if n = m then [e] else [] := by
  rw [eventsOf, act, List.filter_append, List.map_append, ← eventsOf]
  congr 1
  split
  · rename_i own
    simp [own]
  · rename_i other
    simp [other]

end World

variable [Store S W K]

/-- A new call. -/
def System.spawn (sys : System S L W K D ε A R κ) (c : Config S L W K D ε A R κ) (k : κ) : Config S L W K D ε A R κ :=
  { c.set c.spawned (some ⟨k, c.log.length, .client (sys.program k)⟩) with spawned := c.spawned + 1 }

/-- A step of the calls that are there. -/
def System.Works (sys : System S L W K D ε A R κ) (c c' : Config S L W K D ε A R κ) : Prop :=
  sys.Step c c' ∧ c'.spawned = c.spawned

namespace Gateway
variable (g : Gateway S L W K D ε A R κ O I T ι)

/-- What an event does to the system below. -/
inductive Occurs (c : Config S L W K D ε A R κ) : Event S R D κ O I T → Config S L W K D ε A R κ → Prop
  | read : Occurs c (.read c.log.length (g.system.state c.log c.log.length)) c
  | called (k) : Occurs c (.called c.spawned k) (g.system.spawn c k)
  | returned {m k b r} : ⟨m, k, b, r⟩ ∈ c.results → Occurs c (.returned m k r) c
  /-- The next commit is that of the new call. -/
  | performed {k c' ws} : Relation.ReflTransGen g.system.Works (g.system.spawn c k) c' →
      c'.log = c.log ++ [⟨c.spawned, k, ws⟩] →
      Occurs c (.performed c.spawned c.log.length (g.system.state c.log c.log.length) k) c'
  | failed (d) : Occurs c (.failed d) c
  | asked (o) : Occurs c (.asked o) c
  | answered (o i) : Occurs c (.answered o i) c
  | responded (t) : Occurs c (.responded t) c

inductive Step (w : World S L W K D ε A R κ O I T ι) : World S L W K D ε A R κ O I T ι → Prop
  | accept (i : ι) : Step w (w.accept i (g.handler i))
  | act {n x e y base} : w.stages n = some x → Stage.Step x e y → g.Occurs w.base e base → Step w (w.act n e y base)
  | work {base} : g.system.Works w.base base → Step w { w with base := base }
  | crash (n : Nat) : Step w (w.crash n)

inductive Reachable : World S L W K D ε A R κ O I T ι → Prop
  | initial : Reachable ⟨.initial, [], fun _ => none, []⟩
  | step {w w'} : Reachable w → Step g w w' → Reachable w'

end Gateway

/-- The system bears the event out. -/
def System.Bears (sys : System S L W K D ε A R κ) (c : Config S L W K D ε A R κ) : Event S R D κ O I T → Prop
  | .read j s => j ≤ c.log.length ∧ s = sys.state c.log j
  | .returned m k r => ∃ b, ⟨m, k, b, r⟩ ∈ c.results
  | .performed m j s k => s = sys.state c.log j ∧ ∃ ws, c.log[j]? = some ⟨m, k, ws⟩
  | _ => True

/-! ## The system below -/

/-- The log and the results of a configuration go on. -/
def Config.Grows (c c' : Config S L W K D ε A R κ) : Prop := c.log <+: c'.log ∧ c.results <+: c'.results

/-- The calls are those of the list, each with its request. -/
structure Config.Named (c : Config S L W K D ε A R κ) (made : List (Nat × κ)) : Prop where
  spawned : made.map Prod.fst = List.range c.spawned
  calls : ∀ n k b x, c.calls n = some ⟨k, b, x⟩ → (n, k) ∈ made
  log : ∀ e ∈ c.log, (e.call, e.request) ∈ made
  results : ∀ r ∈ c.results, (r.call, r.request) ∈ made

section
variable {sys : System S L W K D ε A R κ} {c c' : Config S L W K D ε A R κ} {made : List (Nat × κ)}

theorem System.Step.grows (h : sys.Step c c') : c.Grows c' := by
  cases h with
  | finish => exact ⟨List.prefix_rfl, List.prefix_append _ _⟩
  | commit => exact ⟨List.prefix_append _ _, List.prefix_rfl⟩
  | _ => exact ⟨List.prefix_rfl, List.prefix_rfl⟩

omit [Store S W K] in
theorem Config.Named.put (h : c.Named made) {n : Nat} {call : Option (Call S L W K D ε A R κ)}
    (named : ∀ k b x, call = some ⟨k, b, x⟩ → (n, k) ∈ made) : (c.set n call).Named made where
  spawned := h.spawned
  calls := by
    intro m k b x hm
    change Function.update c.calls n call m = _ at hm
    by_cases same : m = n
    · subst same
      rw [Function.update_self] at hm
      exact named k b x hm
    · rw [Function.update_of_ne same] at hm
      exact h.calls _ _ _ _ hm
  log := h.log
  results := h.results

omit [Store S W K] in
theorem Config.Named.set (h : c.Named made) {n : Nat} {k : κ} {b : Nat} {x y : Activity S L W K D ε A R}
    (call : c.calls n = some ⟨k, b, x⟩) : (c.set n (some ⟨k, b, y⟩)).Named made := by
  apply h.put
  rintro k' b' x' ⟨⟩
  exact h.calls _ _ _ _ call

omit [Store S W K] in
theorem Config.Named.remove (h : c.Named made) (n : Nat) : (c.set n none).Named made := h.put (by simp)

theorem Config.Named.works (h : c.Named made) (works : sys.Works c c') : c'.Named made := by
  obtain ⟨step, spawned⟩ := works
  cases step with
  | spawn i => exact absurd spawned (Nat.succ_ne_self _)
  | @finish n i b r call =>
      have gone := h.remove n
      refine { gone with results := fun r hr => ?_ }
      rcases List.mem_append.mp hr with hr | hr
      · exact h.results r hr
      · rw [List.mem_singleton.mp hr]
        exact h.calls _ _ _ _ call
  | @commit n i b s a call rest =>
      have set := h.set (y := .client (s.next (.committed a))) call
      refine { set with log := fun e he => ?_ }
      rcases List.mem_append.mp he with he | he
      · exact h.log e he
      · rw [List.mem_singleton.mp he]
        exact h.calls _ _ _ _ call
  | crash => exact h.remove _
  | query call => exact h.set call
  | begin call => exact h.set call
  | statement call => exact h.set call
  | fail call => exact h.set call
  | interrupt call => exact h.set call
  | rollback call => exact h.set call

omit [Store S W K] in
theorem Config.Named.spawn (h : c.Named made) (k : κ) : (sys.spawn c k).Named (made ++ [(c.spawned, k)]) where
  spawned := by
    rw [List.map_append, h.spawned, System.spawn, List.range_succ]
    rfl
  calls := by
    intro m k' b x hm
    change Function.update c.calls c.spawned _ m = _ at hm
    by_cases same : m = c.spawned
    · subst same
      rw [Function.update_self] at hm
      cases hm
      simp
    · rw [Function.update_of_ne same] at hm
      exact List.mem_append_left _ (h.calls _ _ _ _ hm)
  log e he := List.mem_append_left _ (h.log e he)
  results r hr := List.mem_append_left _ (h.results r hr)

theorem System.Reachable.spawn (h : sys.Reachable c) (k : κ) : sys.Reachable (sys.spawn c k) := h.step (.spawn c k)

/-- What the calls that are there do keeps what each of their steps keeps. -/
theorem System.works_all {P : Config S L W K D ε A R κ → Prop} (step : ∀ {c c'}, P c → sys.Works c c' → P c') (h : P c)
    (works : Relation.ReflTransGen sys.Works c c') : P c' := by
  induction works with
  | refl => exact h
  | tail _ works ih => exact step ih works

omit [Store S W K] in
theorem Config.Grows.trans {a b c : Config S L W K D ε A R κ} (h : a.Grows b) (h' : b.Grows c) : a.Grows c :=
  ⟨h.1.trans h'.1, h.2.trans h'.2⟩

theorem System.Bears.grows {e : Event S R D κ O I T} (h : sys.Bears c e) (grows : c.Grows c') : sys.Bears c' e := by
  obtain ⟨⟨more, log⟩, results⟩ := grows
  cases e with
  | read j s =>
      obtain ⟨le, rfl⟩ := h
      refine ⟨?_, ?_⟩
      · rw [← log, List.length_append]
        omega
      · rw [← log]
        exact (stateAt_append more le).symm
  | returned m k r =>
      obtain ⟨b, mem⟩ := h
      exact ⟨b, results.subset mem⟩
  | performed m j s k =>
      obtain ⟨rfl, ws, entry⟩ := h
      have lt : j < c.log.length := (List.getElem?_eq_some_iff.mp entry).1
      refine ⟨?_, ws, ?_⟩
      · rw [← log]
        exact (stateAt_append more lt.le).symm
      · rw [← log, List.getElem?_append_left lt, entry]
  | _ => trivial

end

/-! ## What holds of every world -/

namespace Gateway
variable {g : Gateway S L W K D ε A R κ O I T ι} {w w' : World S L W K D ε A R κ O I T ι}

structure Occurred (g : Gateway S L W K D ε A R κ O I T ι) (c c' : Config S L W K D ε A R κ) (e : Event S R D κ O I T)
    (made : List (Nat × κ)) : Prop where
  reachable : g.system.Reachable c'
  grows : c.Grows c'
  named : c'.Named (made ++ e.made.toList)
  bears : g.system.Bears c' e

theorem Occurs.occurred {c c' : Config S L W K D ε A R κ} {e : Event S R D κ O I T} {made : List (Nat × κ)}
    (h : g.Occurs c e c') (reachable : g.system.Reachable c) (named : c.Named made) : Occurred g c c' e made := by
  have refl : c.Grows c := ⟨List.prefix_rfl, List.prefix_rfl⟩
  have same : c.Named (made ++ []) := (List.append_nil made).symm ▸ named
  cases h with
  | read => exact ⟨reachable, refl, same, le_rfl, rfl⟩
  | called k => exact ⟨reachable.spawn k, ⟨List.prefix_rfl, List.prefix_rfl⟩, named.spawn k, trivial⟩
  | returned mem => exact ⟨reachable, refl, same, _, mem⟩
  | @performed k _ ws works log =>
      refine ⟨?_, ?_, ?_, ?_, ws, ?_⟩
      · exact System.works_all (fun reach works => reach.step works.1) (reachable.spawn k) works
      · refine System.works_all (P := fun c' => c.Grows c') (fun grows works => grows.trans works.1.grows) ?_ works
        exact ⟨List.prefix_rfl, List.prefix_rfl⟩
      · exact System.works_all (P := fun c' => c'.Named _) (fun named works => named.works works) (named.spawn k) works
      · rw [log]
        exact (stateAt_append _ le_rfl).symm
      · rw [log, List.getElem?_concat_length]
  | failed d => exact ⟨reachable, refl, same, trivial⟩
  | asked o => exact ⟨reachable, refl, same, trivial⟩
  | answered o i => exact ⟨reachable, refl, same, trivial⟩
  | responded t => exact ⟨reachable, refl, same, trivial⟩

structure Invariant (g : Gateway S L W K D ε A R κ O I T ι) (w : World S L W K D ε A R κ O I T ι) : Prop where
  base : g.system.Reachable w.base
  named : w.base.Named w.made
  bears : ∀ x ∈ w.history, g.system.Bears w.base x.2
  there : ∀ x ∈ w.history, x.1 < w.requests.length
  stages : ∀ n, w.requests.length ≤ n → w.stages n = none
  traced : ∀ n (h : n < w.requests.length), ∃ x, (Stage.running (g.handler w.requests[n])).Runs (w.eventsOf n) x ∧
    ∀ y, w.stages n = some y → y = x

theorem Invariant.initial : g.Invariant ⟨.initial, [], fun _ => none, []⟩ where
  base := .initial
  named := ⟨rfl, by simp [Config.initial], by simp [Config.initial], by simp [Config.initial]⟩
  bears := by simp
  there := by simp
  stages _ _ := rfl
  traced := by simp

theorem Invariant.accept (h : g.Invariant w) (i : ι) : g.Invariant (w.accept i (g.handler i)) where
  base := h.base
  named := h.named
  bears := h.bears
  there x hx := (h.there x hx).trans (by simp [World.accept])
  stages := by
    intro n le
    rw [World.accept, List.length_append, List.length_singleton] at le
    change Function.update w.stages _ _ n = none
    rw [Function.update_of_ne (by omega)]
    exact h.stages n (by omega)
  traced := by
    intro n lt
    change n < (w.requests ++ [i]).length at lt
    rw [List.length_append, List.length_singleton] at lt
    change ∃ x, (Stage.running (g.handler (w.requests ++ [i])[n])).Runs (w.eventsOf n) x ∧
      ∀ y, Function.update w.stages w.requests.length _ n = some y → y = x
    by_cases new : n = w.requests.length
    · subst new
      have nothing : w.eventsOf w.requests.length = [] := by
        rw [World.eventsOf, List.map_eq_nil_iff, List.filter_eq_nil_iff]
        intro x hx
        simpa using (h.there x hx).ne
      refine ⟨.running (g.handler i), ?_, ?_⟩
      · rw [nothing, List.getElem_concat_length rfl]
        exact .nil
      · intro y hy
        rw [Function.update_self] at hy
        cases hy
        rfl
    · have old : n < w.requests.length := by omega
      rw [List.getElem_append_left old, Function.update_of_ne new]
      exact h.traced n old

theorem Invariant.act (h : g.Invariant w) {n : Nat} {x y : Stage S R D κ O I T} {e : Event S R D κ O I T}
    {base : Config S L W K D ε A R κ} (stage : w.stages n = some x) (step : x.Step e y) (occurs : g.Occurs w.base e base) :
    g.Invariant (w.act n e y base) := by
  have there : n < w.requests.length := by
    by_contra le
    rw [h.stages n (by omega)] at stage
    cases stage
  have occurred := occurs.occurred h.base h.named
  refine ⟨occurred.reachable, ?_, ?_, ?_, ?_, ?_⟩
  · rw [World.made_act]
    exact occurred.named
  · intro z hz
    rcases List.mem_append.mp hz with hz | hz
    · exact (h.bears z hz).grows occurred.grows
    · rw [List.mem_singleton.mp hz]
      exact occurred.bears
  · intro z hz
    rcases List.mem_append.mp hz with hz | hz
    · exact h.there z hz
    · rw [List.mem_singleton.mp hz]
      exact there
  · intro m le
    change w.requests.length ≤ m at le
    change Function.update w.stages n _ m = none
    rw [Function.update_of_ne (by omega)]
    exact h.stages m le
  · intro m lt
    obtain ⟨z, runs, now⟩ := h.traced m lt
    rw [World.eventsOf_act]
    change ∃ x', (Stage.running (g.handler w.requests[m])).Runs _ x' ∧ ∀ y', Function.update w.stages n _ m = some y' → y' = x'
    by_cases same : m = n
    · subst same
      obtain rfl := now x stage
      rw [if_pos rfl, Function.update_self]
      refine ⟨y, runs.concat step, ?_⟩
      rintro y' ⟨⟩
      rfl
    · rw [if_neg (Ne.symm same), List.append_nil, Function.update_of_ne same]
      exact ⟨z, runs, now⟩

theorem Invariant.crash (h : g.Invariant w) (n : Nat) : g.Invariant (w.crash n) where
  base := h.base
  named := h.named
  bears := h.bears
  there := h.there
  stages := by
    intro m le
    change Function.update w.stages n none m = none
    by_cases same : m = n
    · rw [same, Function.update_self]
    · rw [Function.update_of_ne same]
      exact h.stages m le
  traced := by
    intro m lt
    obtain ⟨x, runs, now⟩ := h.traced m lt
    refine ⟨x, runs, ?_⟩
    intro y hy
    change Function.update w.stages n none m = some y at hy
    by_cases same : m = n
    · rw [same, Function.update_self] at hy
      cases hy
    · rw [Function.update_of_ne same] at hy
      exact now y hy

theorem Invariant.step (h : g.Invariant w) (step : g.Step w w') : g.Invariant w' := by
  cases step with
  | accept i => exact h.accept i
  | act stage step occurs => exact h.act stage step occurs
  | work works =>
      refine { h with base := h.base.step works.1, named := h.named.works works, bears := fun x hx => ?_ }
      exact (h.bears x hx).grows works.1.grows
  | crash n => exact h.crash n

theorem Reachable.invariant (h : g.Reachable w) : g.Invariant w := by
  induction h with
  | initial => exact .initial
  | step _ step ih => exact ih.step step

/-- The rule for worlds: what the handler of a request always does, the process that serves it did. -/
theorem Reachable.always (h : g.Reachable w) {P : Event S R D κ O I T → Prop}
    {Q : ι → List (Event S R D κ O I T) → Event S R D κ O I T → Prop}
    (handlers : ∀ i, (g.handler i).Always P (Q i) []) (all : ∀ x ∈ w.history, P x.2) {n : Nat}
    {done rest : List (Event S R D κ O I T)} {e : Event S R D κ O I T} (events : w.eventsOf n = done ++ e :: rest) :
    ∃ i, w.requests[n]? = some i ∧ Q i done e := by
  have acted : ∀ e ∈ w.eventsOf n, (n, e) ∈ w.history := by
    intro e he
    obtain ⟨x, hx, rfl⟩ := List.mem_map.mp he
    obtain ⟨hx, same⟩ := List.mem_filter.mp hx
    have same : x.1 = n := by simpa using same
    rwa [← same]
  have lt := h.invariant.there _ (acted e (events ▸ by simp))
  obtain ⟨x, runs, _⟩ := h.invariant.traced n lt
  refine ⟨w.requests[n], List.getElem?_eq_getElem lt, ?_⟩
  exact (runs.always (handlers _) fun e he => all _ (acted e he)).2 done e rest events

/-- The second world goes on from the first. -/
structure Continues (w w' : World S L W K D ε A R κ O I T ι) : Prop where
  log : w.base.log <+: w'.base.log
  requests : w.requests <+: w'.requests

omit [Store S W K] in
theorem Continues.trans {w'' : World S L W K D ε A R κ O I T ι} (h : Continues w w') (h' : Continues w' w'') : Continues w w'' :=
  ⟨h.log.trans h'.log, h.requests.trans h'.requests⟩

/-- What an event adds to the history of a world. -/
theorem Step.continues (h : g.Step w w') (invariant : g.Invariant w) : Continues w w' ∧ (w'.history = w.history ∨
    ∃ n e, w'.history = w.history ++ [(n, e)] ∧ g.Occurs w.base e w'.base) := by
  cases h with
  | accept i => exact ⟨⟨List.prefix_rfl, List.prefix_append _ _⟩, .inl rfl⟩
  | @act n x e y base stage step occurs =>
      exact ⟨⟨(occurs.occurred invariant.base invariant.named).grows.1, List.prefix_rfl⟩, .inr ⟨n, e, rfl, occurs⟩⟩
  | work works => exact ⟨⟨works.1.grows.1, List.prefix_rfl⟩, .inl rfl⟩
  | crash n => exact ⟨⟨List.prefix_rfl, List.prefix_rfl⟩, .inl rfl⟩

/-- The world in which an event occurred. -/
theorem Reachable.at_event (h : g.Reachable w) {j n : Nat} {e : Event S R D κ O I T} (hj : w.history[j]? = some (n, e)) :
    ∃ before base, g.Reachable before ∧ before.history = w.history.take j ∧ g.Occurs before.base e base ∧ Continues before w := by
  induction h with
  | initial => simp at hj
  | @step w w' reach step ih =>
      obtain ⟨continues, same | ⟨m, e', added, occurs⟩⟩ := step.continues reach.invariant
      · rw [same] at hj ⊢
        obtain ⟨before, base, earlier, history, occurs, goes⟩ := ih hj
        exact ⟨before, base, earlier, history, occurs, goes.trans continues⟩
      · rw [added] at hj ⊢
        rcases Nat.lt_trichotomy j w.history.length with old | new | beyond
        · rw [List.getElem?_append_left old] at hj
          obtain ⟨before, base, earlier, history, occurs, goes⟩ := ih hj
          refine ⟨before, base, earlier, ?_, occurs, goes.trans continues⟩
          rw [history, List.take_append_of_le_length old.le]
        · subst new
          rw [List.getElem?_concat_length] at hj
          cases hj
          exact ⟨w, w'.base, reach, List.take_left.symm, occurs, continues⟩
        · rw [List.getElem?_eq_none (by rw [List.length_append, List.length_singleton]; omega)] at hj
          cases hj

/-- No two events start the same call. -/
theorem Reachable.made_once (h : g.Reachable w) {i j : Nat} {x y : Nat × Event S R D κ O I T} (hi : w.history[i]? = some x)
    (hj : w.history[j]? = some y) {m : Nat} {k k' : κ} (made : x.2.made = some (m, k)) (made' : y.2.made = some (m, k')) :
    i = j := by
  have distinct : (w.made.map Prod.fst).Nodup := by
    rw [h.invariant.named.spawned]
    exact List.nodup_range
  rw [World.made, List.Nodup, List.pairwise_map, List.pairwise_filterMap, List.pairwise_iff_getElem] at distinct
  obtain ⟨lt, rfl⟩ := List.getElem?_eq_some_iff.mp hi
  obtain ⟨lt', rfl⟩ := List.getElem?_eq_some_iff.mp hj
  rcases Nat.lt_trichotomy i j with before | same | after
  · exact absurd rfl (distinct i j lt lt' before (m, k) made (m, k') made')
  · exact same
  · exact absurd rfl (distinct j i lt' lt after (m, k') made' (m, k) made)

/-- A call has one request. -/
theorem Reachable.request_eq (h : g.Reachable w) {m : Nat} {k k' : κ} (made : (m, k) ∈ w.made) (made' : (m, k') ∈ w.made) : k = k' := by
  have distinct : (w.made.map Prod.fst).Nodup := by
    rw [h.invariant.named.spawned]
    exact List.nodup_range
  rw [List.Nodup, List.pairwise_map, List.pairwise_iff_getElem] at distinct
  obtain ⟨i, lt, at_⟩ := List.getElem_of_mem made
  obtain ⟨j, lt', at'⟩ := List.getElem_of_mem made'
  rcases Nat.lt_trichotomy i j with before | rfl | after
  · exact absurd (by rw [at_, at']) (distinct i j lt lt' before)
  · exact (Prod.mk.inj (at_.symm.trans at')).2
  · exact absurd (by rw [at_, at']) (distinct j i lt' lt after)

end Gateway

section
omit [Store S W K]
variable {w : World S L W K D ε A R κ O I T ι} {i j n : Nat} {e : Event S R D κ O I T}

/-- What process `n` did before the `j`-th event. -/
def World.eventsBefore (w : World S L W K D ε A R κ O I T ι) (n j : Nat) : List (Event S R D κ O I T) :=
  ((w.history.take j).filter fun x => x.1 = n).map Prod.snd

theorem World.eventsOf_split (h : w.history[j]? = some (n, e)) : ∃ rest, w.eventsOf n = w.eventsBefore n j ++ e :: rest := by
  obtain ⟨lt, same⟩ := List.getElem?_eq_some_iff.mp h
  refine ⟨((w.history.drop (j + 1)).filter fun x => x.1 = n).map Prod.snd, ?_⟩
  have split : w.history = w.history.take j ++ (n, e) :: w.history.drop (j + 1) := by
    rw [← same, List.getElem_cons_drop, List.take_append_drop]
  rw [eventsOf]
  conv_lhs => rw [split]
  simp [eventsBefore]

theorem World.mem_eventsBefore : e ∈ w.eventsBefore n j ↔ ∃ i < j, w.history[i]? = some (n, e) := by
  simp only [eventsBefore, List.mem_map, List.mem_filter, List.mem_take_iff_getElem, decide_eq_true_eq]
  constructor
  · rintro ⟨x, ⟨⟨i, lt, rfl⟩, rfl⟩, rfl⟩
    exact ⟨i, by omega, List.getElem?_eq_getElem (by omega)⟩
  · rintro ⟨i, before, h⟩
    obtain ⟨lt, same⟩ := List.getElem?_eq_some_iff.mp h
    exact ⟨(n, e), ⟨⟨i, by omega, same⟩, rfl⟩, rfl⟩

end

omit [Store S W K] in
/-- Every call of the system was started by a process. -/
theorem World.origin {w : World S L W K D ε A R κ O I T ι} {m : Nat} {k : κ} (made : (m, k) ∈ w.made) :
    ∃ n done e rest, w.eventsOf n = done ++ e :: rest ∧ e.made = some (m, k) := by
  obtain ⟨⟨n, e⟩, mem, made⟩ := List.mem_filterMap.mp made
  have own : e ∈ w.eventsOf n := List.mem_map.mpr ⟨(n, e), by simpa using mem, rfl⟩
  obtain ⟨done, rest, split⟩ := List.append_of_mem own
  exact ⟨n, done, e, rest, split, made⟩

end Transactional
