import Fintech.Library.Program
import Mathlib.Logic.Function.Basic
import Mathlib.Order.Lattice
import Mathlib.Data.Nat.Basic

/-!
# Interleaved transactions over a versioned store

Any number of calls run against one committed state, one statement at a time. A serializable
transaction reads the snapshot of its first statement throughout; a read-committed one reads the
latest commit at each statement. A statement waits for the keys other open transactions hold, and
a serializable statement cannot proceed on a key that a later commit has touched. Keys are held
until commit or abort.

The main result of the module is `Reachable.certified`: what a commit wrote is what its body
computes when it runs alone on the states its statements saw, and no key it touched was written by
anyone between that state and the commit.
-/

namespace Transactional

inductive Isolation
  | readCommitted
  | serializable
  deriving DecidableEq, Repr

/-- How a transaction ends, as its caller sees it. -/
inductive Ending (D ε A : Type)
  | committed (a : A)
  | thrown (e : ε)
  | aborted (d : D)

/-- A caller: single queries on the latest commit and transactions, until it has its result. -/
inductive Client (S L W K D ε A R : Type) : Type 1
  | done (r : R)
  | query (q : S → Client S L W K D ε A R)
  | transaction (isolation : Isolation) (body : Prog S L W K D ε A)
      (next : Ending D ε A → Client S L W K D ε A R)

/-- One commit: the call that made it, what was requested of that call, and the rows written. -/
structure Entry (ι W : Type) where
  call : Nat
  request : ι
  writes : List W

structure Session (S L W K D ε A R : Type) where
  isolation : Isolation
  body : Prog S L W K D ε A
  next : Ending D ε A → Client S L W K D ε A R
  /-- The number of commits that statement `n` saw. -/
  bases : Nat → Nat
  rest : Prog S L W K D ε A
  view : View L W K

inductive Activity (S L W K D ε A R : Type)
  | client (c : Client S L W K D ε A R)
  | session (s : Session S L W K D ε A R)

structure Call (S L W K D ε A R ι : Type) where
  request : ι
  /-- The number of commits when the call was made. -/
  born : Nat
  activity : Activity S L W K D ε A R

structure Result (ι R : Type) where
  call : Nat
  request : ι
  born : Nat
  result : R

structure Config (S L W K D ε A R ι : Type) where
  log : List (Entry ι W)
  calls : Nat → Option (Call S L W K D ε A R ι)
  spawned : Nat
  results : List (Result ι R)

structure System (S L W K D ε A R ι : Type) where
  initial : S
  locals : L
  program : ι → Client S L W K D ε A R
  /-- Failures that may strike a transaction between any two statements. -/
  interrupts : Isolation → D → Prop

variable {S L W K D ε A R ι : Type} [Store S W K]

/-- The committed state after the first `n` commits. -/
def stateAt (initial : S) (log : List (Entry ι W)) (n : Nat) : S :=
  applyAll initial ((log.take n).flatMap Entry.writes)

section Log
variable {initial : S} {log : List (Entry ι W)} {n : Nat}

@[simp] theorem stateAt_zero : stateAt initial log 0 = initial := rfl

theorem stateAt_append (more : List (Entry ι W)) (h : n ≤ log.length) :
    stateAt initial (log ++ more) n = stateAt initial log n := by
  simp [stateAt, List.take_append_of_le_length h]

theorem stateAt_succ (h : n < log.length) :
    stateAt initial log (n + 1) = applyAll (stateAt initial log n) log[n].writes := by
  rw [stateAt, List.take_add_one, List.getElem?_eq_getElem h, List.flatMap_append, applyAll_append]
  simp [stateAt]

theorem stateAt_concat (e : Entry ι W) :
    stateAt initial (log ++ [e]) (log ++ [e]).length = applyAll (stateAt initial log log.length) e.writes := by
  rw [stateAt, stateAt, List.take_length, List.take_length, List.flatMap_append, applyAll_append]
  simp

/-- No commit from the `i`-th up to the `j`-th wrote the key `k`. -/
def Untouched (S : Type) {W K : Type} [Store S W K] (log : List (Entry ι W)) (i j : Nat) (k : K) : Prop :=
  ∀ e ∈ (log.take j).drop i, ∀ w ∈ e.writes, k ∉ Store.keys S w

theorem Untouched.same {i j : Nat} {k : K} (h : Untouched S log i j k) (le : i ≤ j) :
    Store.Same k (stateAt initial log i) (stateAt initial log j) := by
  have split : log.take j = log.take i ++ (log.take j).drop i := by
    conv_lhs => rw [← List.take_append_drop i (log.take j)]
    rw [List.take_take, Nat.min_eq_left le]
  have state : stateAt initial log j =
      applyAll (stateAt initial log i) (((log.take j).drop i).flatMap Entry.writes) := by
    rw [stateAt, split, List.flatMap_append, applyAll_append, ← stateAt]
    congr 2
    rw [← split]
  rw [state]
  apply same_applyAll
  intro w hw
  obtain ⟨e, he, hw⟩ := List.mem_flatMap.mp hw
  exact h e he w hw

theorem Untouched.later {i i' j : Nat} {k : K} (h : Untouched S log i j k) (le : i ≤ i') :
    Untouched S log i' j k := by
  intro e he
  apply h e
  have : (log.take j).drop i' = ((log.take j).drop i).drop (i' - i) := by
    rw [List.drop_drop, Nat.add_sub_cancel' le]
  rw [this] at he
  exact List.mem_of_mem_drop he

theorem untouched_self (i : Nat) (k : K) : Untouched S log i i k := by
  intro e he
  rw [List.drop_eq_nil_of_le (List.length_take_le i log)] at he
  simp at he

theorem Untouched.append {i j : Nat} {k : K} (more : List (Entry ι W)) (le : j ≤ log.length)
    (h : Untouched S log i j k) : Untouched S (log ++ more) i j k := by
  intro e he
  rw [List.take_append_of_le_length le] at he
  exact h e he

theorem Untouched.commit {i : Nat} {k : K} {e : Entry ι W} (h : Untouched S log i log.length k)
    (free : ∀ w ∈ e.writes, k ∉ Store.keys S w) :
    Untouched S (log ++ [e]) i (log ++ [e]).length k := by
  intro e' he'
  rw [List.take_length] at he'
  have := List.mem_of_mem_drop he'
  by_cases le : i ≤ log.length
  · rw [List.drop_append_of_le_length le, List.mem_append, List.mem_singleton] at he'
    rcases he' with he' | rfl
    · exact h e' (by rwa [List.take_length])
    · exact free
  · rw [List.drop_eq_nil_of_le (by simp; omega)] at he'
    simp at he'

end Log

/-- The clients that a client can turn into. -/
inductive Client.Leads : Client S L W K D ε A R → Client S L W K D ε A R → Prop
  | refl (c) : Leads c c
  | query {c q} (s : S) : Leads c (.query q) → Leads c (q s)
  | transaction {c isolation body next} (e) :
      Leads c (.transaction isolation body next) → Leads c (next e)

/-- Every transaction that a client can come to run is as `P` says. -/
def Client.Every (P : Isolation → Prog S L W K D ε A → Prop) : Client S L W K D ε A R → Prop
  | .done _ => True
  | .query q => ∀ s, (q s).Every P
  | .transaction isolation body next => P isolation body ∧ ∀ e, (next e).Every P

omit [Store S W K] in
theorem Client.Every.leads {P : Isolation → Prog S L W K D ε A → Prop} {c c' : Client S L W K D ε A R}
    (h : c.Every P) (leads : Leads c c') : c'.Every P := by
  induction leads with
  | refl => exact h
  | query s _ ih => exact ih s
  | transaction e _ ih => exact ih.2 e

def Activity.pending : Activity S L W K D ε A R → Client S L W K D ε A R
  | .client c => c
  | .session s => .transaction s.isolation s.body s.next

namespace Config

def initial : Config S L W K D ε A R ι := ⟨[], fun _ => none, 0, []⟩

variable (c : Config S L W K D ε A R ι) (n : Nat)

def set (call : Option (Call S L W K D ε A R ι)) : Config S L W K D ε A R ι :=
  { c with calls := Function.update c.calls n call }

/-- Call `n` has a transaction open that holds the key `k`. -/
def Holds (k : K) : Prop :=
  ∃ i b s, c.calls n = some ⟨i, b, .session s⟩ ∧ k ∈ s.view.keys

end Config

/-- The number of commits the next statement of a session sees. -/
def Session.base (s : Session S L W K D ε A R) (commits : Nat) : Nat :=
  match s.isolation with
  | .serializable => s.bases s.view.executed
  | .readCommitted => commits

def Session.advance (s : Session S L W K D ε A R) (commits : Nat) (rest : Prog S L W K D ε A)
    (e : Effect L W K) : Session S L W K D ε A R :=
  { s with
    bases := fun m => if m < s.view.executed then s.bases m else s.base commits
    rest := rest
    view := s.view.after S e }

namespace System
variable (sys : System S L W K D ε A R ι)

def state (log : List (Entry ι W)) (n : Nat) : S := stateAt sys.initial log n

def start : View L W K := { locals := sys.locals }

/-- What the next statement of a session sees. -/
def visible (log : List (Entry ι W)) (s : Session S L W K D ε A R) : S :=
  applyAll (sys.state log (s.base log.length)) s.view.writes

inductive Step : Config S L W K D ε A R ι → Config S L W K D ε A R ι → Prop
  | spawn (c) (i : ι) :
      Step c { c.set c.spawned (some ⟨i, c.log.length, .client (sys.program i)⟩) with
        spawned := c.spawned + 1 }
  | query {c n i b q} : c.calls n = some ⟨i, b, .client (.query q)⟩ →
      Step c (c.set n (some ⟨i, b, .client (q (sys.state c.log c.log.length))⟩))
  | finish {c n i b r} : c.calls n = some ⟨i, b, .client (.done r)⟩ →
      Step c { c.set n none with results := c.results ++ [⟨n, i, b, r⟩] }
  | begin {c n i b isolation body next} :
      c.calls n = some ⟨i, b, .client (.transaction isolation body next)⟩ →
      Step c (c.set n (some ⟨i, b, .session
        ⟨isolation, body, next, fun _ => c.log.length, body, sys.start⟩⟩))
  | statement {c n i b s} {β : Type} {q : S → L → Except D (β × Effect L W K)} {next reply e} :
      c.calls n = some ⟨i, b, .session s⟩ →
      s.rest = .statement q next →
      q (sys.visible c.log s) s.view.locals = .ok (reply, e) →
      (∀ k ∈ View.needs S e, ∀ m ≠ n, ¬ c.Holds m k) →
      (s.isolation = .serializable → ∀ k ∈ View.needs S e,
        Untouched S c.log (s.base c.log.length) c.log.length k) →
      Step c (c.set n (some ⟨i, b, .session (s.advance c.log.length (next reply) e)⟩))
  | fail {c n i b s} {β : Type} {q : S → L → Except D (β × Effect L W K)} {next d} :
      c.calls n = some ⟨i, b, .session s⟩ →
      s.rest = .statement q next →
      q (sys.visible c.log s) s.view.locals = .error d →
      Step c (c.set n (some ⟨i, b, .client (s.next (.aborted d))⟩))
  | interrupt {c n i b s d} : c.calls n = some ⟨i, b, .session s⟩ →
      sys.interrupts s.isolation d →
      Step c (c.set n (some ⟨i, b, .client (s.next (.aborted d))⟩))
  | rollback {c n i b s e} : c.calls n = some ⟨i, b, .session s⟩ → s.rest = .throw e →
      Step c (c.set n (some ⟨i, b, .client (s.next (.thrown e))⟩))
  | commit {c n i b s a} : c.calls n = some ⟨i, b, .session s⟩ → s.rest = .ret a →
      Step c { c.set n (some ⟨i, b, .client (s.next (.committed a))⟩) with
        log := c.log ++ [⟨n, i, s.view.writes⟩] }
  | crash {c n} : Step c (c.set n none)

inductive Reachable : Config S L W K D ε A R ι → Prop
  | initial : Reachable .initial
  | step {c c'} : Reachable c → Step sys c c' → Reachable c'

/-! ## What a transaction has seen -/

/-- The commits seen by the statements of a transaction of a call born at `born`, when `j` commits
have been made. -/
structure Seen (isolation : Isolation) (born j : Nat) (bases : Nat → Nat) : Prop where
  born_le : ∀ m, born ≤ bases m
  le : ∀ m, bases m ≤ j
  mono : ∀ {m n}, m ≤ n → bases m ≤ bases n
  fixed : isolation = .serializable → ∀ m, bases m = bases 0

/-- The body, run alone on the states its statements saw, ends this way. -/
def Ran (log : List (Entry ι W)) (isolation : Isolation) (born : Nat) (body : Prog S L W K D ε A)
    (outcome : Except D (Except ε A × View L W K)) : Prop :=
  ∃ bases, Seen isolation born log.length bases ∧
    body.run (fun m => sys.state log (bases m)) sys.start = outcome

/-- The certificate of commit `j`. -/
structure Committed (log : List (Entry ι W)) (j : Nat) (born : Nat) (isolation : Isolation)
    (body : Prog S L W K D ε A) (a : A) (view : View L W K) (bases : Nat → Nat) : Prop where
  seen : Seen isolation born j bases
  ran : body.run (fun m => sys.state log (bases m)) sys.start = .ok (.ok a, view)
  kept : ∀ m k, (m, k) ∈ view.touched → Untouched S log (bases m) j k

def Certified (log : List (Entry ι W)) (j : Nat) : Prop :=
  ∃ (h : j < log.length) (born : Nat) (isolation : Isolation) (body : Prog S L W K D ε A)
    (next : Ending D ε A → Client S L W K D ε A R) (a : A) (view : View L W K) (bases : Nat → Nat),
    (sys.program log[j].request).Leads (.transaction isolation body next) ∧
    log[j].writes = view.writes ∧ sys.Committed log j born isolation body a view bases

/-- What holds of an open transaction. -/
structure Sound (log : List (Entry ι W)) (born : Nat) (s : Session S L W K D ε A R) : Prop where
  seen : Seen s.isolation born log.length s.bases
  runs : ∀ base : Nat → S, (∀ m < s.view.executed, base m = sys.state log (s.bases m)) →
    s.body.run base sys.start = s.rest.run base s.view
  touched_lt : ∀ m k, (m, k) ∈ s.view.touched → m < s.view.executed
  kept : ∀ m k, (m, k) ∈ s.view.touched → Untouched S log (s.bases m) log.length k
  writes : ∀ w ∈ s.view.writes, ∀ k ∈ Store.keys S w, k ∈ s.view.keys

structure Invariant (c : Config S L W K D ε A R ι) : Prop where
  unspawned : ∀ n, c.spawned ≤ n → c.calls n = none
  callers : ∀ e ∈ c.log, e.call < c.spawned
  finished : ∀ r ∈ c.results, r.call < c.spawned ∧ c.calls r.call = none
  born_le : ∀ n i b x, c.calls n = some ⟨i, b, x⟩ → b ≤ c.log.length
  leads : ∀ n i b x, c.calls n = some ⟨i, b, x⟩ → (sys.program i).Leads x.pending
  sound : ∀ n i b s, c.calls n = some ⟨i, b, .session s⟩ → sys.Sound c.log b s
  exclusive : ∀ n m k, n ≠ m → c.Holds n k → ¬ c.Holds m k
  certified : ∀ j < c.log.length, sys.Certified c.log j

variable {sys}

theorem Certified.append {log : List (Entry ι W)} {j : Nat} (h : sys.Certified log j)
    (more : List (Entry ι W)) : sys.Certified (log ++ more) j := by
  obtain ⟨lt, born, isolation, body, next, a, view, bases, leads, writes, committed⟩ := h
  have entry (h : j < (log ++ more).length) : (log ++ more)[j] = log[j] := List.getElem_append_left lt
  refine ⟨by simp; omega, born, isolation, body, next, a, view, bases, entry _ ▸ leads, entry _ ▸ writes, ?_⟩
  refine ⟨committed.seen, ?_, fun m k mem => (committed.kept m k mem).append more lt.le⟩
  rw [← committed.ran]
  congr 1
  funext m
  exact stateAt_append more ((committed.seen.le m).trans lt.le)

theorem Seen.mono_le {isolation : Isolation} {born j j' : Nat} {bases : Nat → Nat}
    (h : Seen isolation born j bases) (le : j ≤ j') : Seen isolation born j' bases :=
  ⟨h.born_le, fun m => (h.le m).trans le, h.mono, h.fixed⟩

/-- An open transaction is unaffected by a commit that stays clear of its keys. -/
theorem Sound.commit {log : List (Entry ι W)} {born : Nat} {s : Session S L W K D ε A R}
    (h : sys.Sound log born s) (e : Entry ι W)
    (clear : ∀ w ∈ e.writes, ∀ k ∈ Store.keys S w, k ∉ s.view.keys) :
    sys.Sound (log ++ [e]) born s where
  seen := h.seen.mono_le (by simp)
  runs := by
    intro base agree
    refine h.runs base fun m lt => ?_
    rw [agree m lt]
    exact stateAt_append [e] (h.seen.le m)
  touched_lt := h.touched_lt
  kept := by
    intro m k mem
    exact (h.kept m k mem).commit fun w hw hk =>
      clear w hw k hk (List.mem_map.mpr ⟨(m, k), mem, rfl⟩)
  writes := h.writes

theorem Session.base_bounds {log : List (Entry ι W)} {born : Nat} {s : Session S L W K D ε A R}
    (h : sys.Sound log born s) (born_le : born ≤ log.length) :
    born ≤ s.base log.length ∧ s.base log.length ≤ log.length := by
  unfold Session.base
  split
  · exact ⟨h.seen.born_le _, h.seen.le _⟩
  · exact ⟨born_le, le_rfl⟩

/-- The states seen by the statements executed so far, and by the next one. -/
theorem Sound.visible_eq {log : List (Entry ι W)} {born : Nat} {s : Session S L W K D ε A R}
    (h : sys.Sound log born s) (bases : Nat → Nat)
    (agree : ∀ m < s.view.executed, bases m = s.bases m)
    (now : bases s.view.executed = s.base log.length) :
    s.body.run (fun m => sys.state log (bases m)) sys.start =
        s.rest.run (fun m => sys.state log (bases m)) s.view ∧
      sys.visible log s = applyAll (sys.state log (bases s.view.executed)) s.view.writes := by
  constructor
  · exact h.runs _ fun m lt => by rw [agree m lt]
  · rw [visible, now]

theorem Seen.advance {log : List (Entry ι W)} {born : Nat} {s : Session S L W K D ε A R}
    (h : sys.Sound log born s) (born_le : born ≤ log.length) :
    Seen s.isolation born log.length
      (fun m => if m < s.view.executed then s.bases m else s.base log.length) := by
  obtain ⟨lo, hi⟩ := Session.base_bounds h born_le
  refine ⟨fun m => ?_, fun m => ?_, fun {m n} le => ?_, fun iso m => ?_⟩
  · split
    · exact h.seen.born_le m
    · exact lo
  · split
    · exact h.seen.le m
    · exact hi
  · by_cases hn : n < s.view.executed
    · rw [if_pos hn, if_pos (by omega)]
      exact h.seen.mono le
    · rw [if_neg hn]
      split
      · cases iso : s.isolation with
        | serializable =>
            simp only [Session.base, iso]
            rw [h.seen.fixed iso m, h.seen.fixed iso s.view.executed]
        | readCommitted =>
            simp only [Session.base, iso]
            exact h.seen.le m
      · exact le_rfl
  · simp only [Session.base, iso]
    rw [h.seen.fixed iso s.view.executed, h.seen.fixed iso m]
    simp

/-- One more statement: what it needs was free and, in a serializable session, not overtaken. -/
theorem Sound.statement {log : List (Entry ι W)} {born : Nat} {s : Session S L W K D ε A R}
    {β : Type} {q : S → L → Except D (β × Effect L W K)} {next : β → Prog S L W K D ε A}
    {reply : β} {e : Effect L W K} (h : sys.Sound log born s) (born_le : born ≤ log.length)
    (rest : s.rest = .statement q next)
    (ok : q (sys.visible log s) s.view.locals = .ok (reply, e))
    (current : s.isolation = .serializable → ∀ k ∈ View.needs S e,
      Untouched S log (s.base log.length) log.length k) :
    sys.Sound log born (s.advance log.length (next reply) e) where
  seen := Seen.advance h born_le
  runs := by
    intro base agree
    have before : ∀ m < s.view.executed, base m = sys.state log (s.bases m) := by
      intro m lt
      rw [agree m (by simpa [Session.advance] using Nat.lt_succ_of_lt lt)]
      simp [Session.advance, lt]
    have now : base s.view.executed = sys.state log (s.base log.length) := by
      rw [agree s.view.executed (by simp [Session.advance])]
      simp [Session.advance]
    change s.body.run base sys.start = (next reply).run base (s.view.after S e)
    rw [h.runs base before, rest, Prog.run, now, ← visible, ok]
  touched_lt := by
    intro m k mem
    simp only [Session.advance, View.after, List.mem_append, List.mem_map, Prod.mk.injEq] at mem ⊢
    rcases mem with mem | ⟨_, _, rfl, _⟩
    · exact Nat.lt_succ_of_lt (h.touched_lt m k mem)
    · exact Nat.lt_succ_self _
  kept := by
    intro m k mem
    simp only [Session.advance, View.after, List.mem_append, List.mem_map, Prod.mk.injEq] at mem ⊢
    rcases mem with mem | ⟨k', hk, rfl, rfl⟩
    · rw [if_pos (h.touched_lt m k mem)]
      exact h.kept m k mem
    · rw [if_neg (lt_irrefl _)]
      cases iso : s.isolation with
      | serializable => exact current iso k' hk
      | readCommitted =>
          simp only [Session.base, iso]
          exact untouched_self _ _
  writes := by
    intro w hw k hk
    simp only [Session.advance, View.after_writes, View.keys_after, List.mem_append] at hw ⊢
    rcases hw with hw | hw
    · exact .inl (h.writes w hw k hk)
    · exact .inr (List.mem_append.mpr (.inr (List.mem_flatMap.mpr ⟨w, hw, hk⟩)))

/-! ## The invariant of a configuration -/

omit [Store S W K] in
private theorem update_eq_some {calls : Nat → Option (Call S L W K D ε A R ι)} {n m : Nat}
    {x : Option (Call S L W K D ε A R ι)} {y : Call S L W K D ε A R ι} :
    Function.update calls n x m = some y ↔ (m = n ∧ x = some y) ∨ (m ≠ n ∧ calls m = some y) := by
  by_cases h : m = n
  · subst h
    simp
  · simp [h]

theorem Invariant.initial : sys.Invariant .initial where
  unspawned _ _ := rfl
  callers := by simp [Config.initial]
  finished := by simp [Config.initial]
  born_le := by simp [Config.initial]
  leads := by simp [Config.initial]
  sound := by simp [Config.initial]
  exclusive := by simp [Config.initial, Config.Holds]
  certified := by simp [Config.initial]

section
variable {c : Config S L W K D ε A R ι} {n : Nat} {i : ι} {b : Nat}

/-- Giving call `n` a new activity keeps the invariant when a session among them is sound and holds
only keys that nobody else holds. -/
theorem Invariant.put (h : sys.Invariant c) (x : Activity S L W K D ε A R) (spawned : Nat)
    (le : c.spawned ≤ spawned) (lt : n < spawned) (running : ∀ r ∈ c.results, r.call ≠ n)
    (born_le : b ≤ c.log.length) (leads : (sys.program i).Leads x.pending)
    (sound : ∀ s, x = .session s → sys.Sound c.log b s)
    (free : ∀ s, x = .session s → ∀ k ∈ s.view.keys, ∀ m ≠ n, ¬ c.Holds m k) :
    sys.Invariant { c.set n (some ⟨i, b, x⟩) with spawned := spawned } where
  unspawned := by
    intro m (hm : spawned ≤ m)
    change Function.update c.calls n _ m = none
    rw [Function.update_of_ne (by omega)]
    exact h.unspawned m (by omega)
  callers := fun e he => (h.callers e he).trans_le le
  finished := by
    intro r hr
    obtain ⟨hlt, none⟩ := h.finished r hr
    refine ⟨hlt.trans_le le, ?_⟩
    change Function.update c.calls n _ r.call = Option.none
    rwa [Function.update_of_ne (running r hr)]
  born_le := by
    intro m i' b' x' hm
    rcases update_eq_some.mp hm with ⟨rfl, e⟩ | ⟨_, hm⟩
    · cases e
      exact born_le
    · exact h.born_le m i' b' x' hm
  leads := by
    intro m i' b' x' hm
    rcases update_eq_some.mp hm with ⟨rfl, e⟩ | ⟨_, hm⟩
    · cases e
      exact leads
    · exact h.leads m i' b' x' hm
  sound := by
    intro m i' b' s hm
    rcases update_eq_some.mp hm with ⟨_, e⟩ | ⟨_, hm⟩
    · cases e
      exact sound s rfl
    · exact h.sound m i' b' s hm
  exclusive := by
    rintro m m' k ne ⟨i₁, b₁, s₁, h₁, k₁⟩ ⟨i₂, b₂, s₂, h₂, k₂⟩
    rcases update_eq_some.mp h₁ with ⟨rfl, e₁⟩ | ⟨ne₁, old₁⟩
    · cases e₁
      rcases update_eq_some.mp h₂ with ⟨rfl, _⟩ | ⟨ne₂, old₂⟩
      · exact ne rfl
      · exact free s₁ rfl k k₁ m' ne₂ ⟨i₂, b₂, s₂, old₂, k₂⟩
    · rcases update_eq_some.mp h₂ with ⟨rfl, e₂⟩ | ⟨_, old₂⟩
      · cases e₂
        exact free s₂ rfl k k₂ m ne₁ ⟨i₁, b₁, s₁, old₁, k₁⟩
      · exact h.exclusive m m' k ne ⟨i₁, b₁, s₁, old₁, k₁⟩ ⟨i₂, b₂, s₂, old₂, k₂⟩
  certified := h.certified

theorem Invariant.not_finished (h : sys.Invariant c) {x : Activity S L W K D ε A R}
    (call : c.calls n = some ⟨i, b, x⟩) : ∀ r ∈ c.results, r.call ≠ n := by
  rintro r hr rfl
  simp [(h.finished r hr).2] at call

theorem Invariant.lt_spawned (h : sys.Invariant c) {x : Activity S L W K D ε A R}
    (call : c.calls n = some ⟨i, b, x⟩) : n < c.spawned := by
  by_contra hn
  simp [h.unspawned n (by omega)] at call

/-- `Invariant.put` for a call that is already running. -/
theorem Invariant.set (h : sys.Invariant c) {y : Activity S L W K D ε A R}
    (call : c.calls n = some ⟨i, b, y⟩) (x : Activity S L W K D ε A R)
    (leads : (sys.program i).Leads x.pending)
    (sound : ∀ s, x = .session s → sys.Sound c.log b s)
    (free : ∀ s, x = .session s → ∀ k ∈ s.view.keys, ∀ m ≠ n, ¬ c.Holds m k) :
    sys.Invariant (c.set n (some ⟨i, b, x⟩)) :=
  h.put x c.spawned le_rfl (h.lt_spawned call) (h.not_finished call) (h.born_le _ _ _ _ call)
    leads sound free

/-- `Invariant.set` for a call that leaves its session, or stays outside one. -/
theorem Invariant.set_client (h : sys.Invariant c) {y : Activity S L W K D ε A R}
    (call : c.calls n = some ⟨i, b, y⟩) (client : Client S L W K D ε A R)
    (leads : (sys.program i).Leads client) :
    sys.Invariant (c.set n (some ⟨i, b, .client client⟩)) :=
  h.set call (.client client) leads (fun _ e => by cases e) (fun _ e => by cases e)

theorem Invariant.remove (h : sys.Invariant c) (n : Nat) : sys.Invariant (c.set n none) where
  unspawned := by
    intro m hm
    by_cases e : m = n
    · subst e
      simp [Config.set]
    · simpa [Config.set, e] using h.unspawned m hm
  callers := h.callers
  finished := by
    intro r hr
    refine ⟨(h.finished r hr).1, ?_⟩
    by_cases e : r.call = n
    · simp [Config.set, e]
    · simpa [Config.set, e] using (h.finished r hr).2
  born_le := by
    intro m i b x hm
    rcases update_eq_some.mp hm with ⟨_, e⟩ | ⟨_, hm⟩
    · cases e
    · exact h.born_le m i b x hm
  leads := by
    intro m i b x hm
    rcases update_eq_some.mp hm with ⟨_, e⟩ | ⟨_, hm⟩
    · cases e
    · exact h.leads m i b x hm
  sound := by
    intro m i b s hm
    rcases update_eq_some.mp hm with ⟨_, e⟩ | ⟨_, hm⟩
    · cases e
    · exact h.sound m i b s hm
  exclusive := by
    rintro m m' k ne ⟨i₁, b₁, s₁, h₁, k₁⟩ ⟨i₂, b₂, s₂, h₂, k₂⟩
    rcases update_eq_some.mp h₁ with ⟨_, e⟩ | ⟨_, h₁⟩
    · cases e
    rcases update_eq_some.mp h₂ with ⟨_, e⟩ | ⟨_, h₂⟩
    · cases e
    exact h.exclusive m m' k ne ⟨i₁, b₁, s₁, h₁, k₁⟩ ⟨i₂, b₂, s₂, h₂, k₂⟩
  certified := h.certified

/-- A session that has run to its end has a certificate for what it is about to commit. -/
theorem Sound.committed {log : List (Entry ι W)} {s : Session S L W K D ε A R} {a : A}
    (h : sys.Sound log b s) (rest : s.rest = .ret a) :
    sys.Committed log log.length b s.isolation s.body a s.view s.bases where
  seen := h.seen
  ran := by
    rw [h.runs _ fun _ _ => rfl, rest]
    rfl
  kept := h.kept

theorem Invariant.commit (h : sys.Invariant c) {s : Session S L W K D ε A R} {a : A}
    (call : c.calls n = some ⟨i, b, .session s⟩) (rest : s.rest = .ret a) :
    sys.Invariant { c.set n (some ⟨i, b, .client (s.next (.committed a))⟩) with
      log := c.log ++ [⟨n, i, s.view.writes⟩] } := by
  have sound := h.sound n i b s call
  have leads := h.leads n i b _ call
  have left := h.set_client call (s.next (.committed a)) (.transaction _ leads)
  exact {
    unspawned := left.unspawned
    callers := by
      intro e he
      rcases List.mem_append.mp he with he | he
      · exact h.callers e he
      · rw [List.mem_singleton.mp he]
        exact h.lt_spawned call
    finished := left.finished
    born_le := fun m i' b' x hm => (left.born_le m i' b' x hm).trans (by simp [Config.set])
    leads := left.leads
    sound := by
      intro m i' b' t hm
      rcases update_eq_some.mp hm with ⟨_, e⟩ | ⟨ne, hm⟩
      · cases e
      · refine (h.sound m i' b' t hm).commit _ fun w hw k hk held => ?_
        exact h.exclusive m n k ne ⟨i', b', t, hm, held⟩ ⟨i, b, s, call, sound.writes w hw k hk⟩
    exclusive := left.exclusive
    certified := by
      intro j hj
      change j < (c.log ++ _).length at hj
      rw [List.length_append, List.length_singleton] at hj
      by_cases old : j < c.log.length
      · exact (h.certified j old).append _
      · obtain rfl : j = c.log.length := by omega
        have committed := sound.committed rest
        refine ⟨by simp, b, s.isolation, s.body, s.next, a, s.view, s.bases, ?_, ?_,
          committed.seen, ?_, fun m k mem => (committed.kept m k mem).append _ le_rfl⟩
        · simpa [Activity.pending] using leads
        · simp
        · rw [← committed.ran]
          congr 1
          funext m
          exact stateAt_append _ (committed.seen.le m) }

end

theorem Invariant.step {c c' : Config S L W K D ε A R ι} (h : sys.Invariant c) (step : sys.Step c c') :
    sys.Invariant c' := by
  cases step with
  | spawn i =>
      refine h.put _ _ (Nat.le_succ _) (Nat.lt_succ_self _) ?_ le_rfl (.refl _)
        (fun _ e => by cases e) (fun _ e => by cases e)
      exact fun r hr => (h.finished r hr).1.ne
  | query call => exact h.set_client call _ (.query _ (h.leads _ _ _ _ call))
  | @finish n i b r call =>
      have gone := h.remove n
      refine { gone with finished := ?_ }
      intro r' hr'
      rcases List.mem_append.mp hr' with hr' | hr'
      · exact gone.finished r' hr'
      · rw [List.mem_singleton.mp hr']
        exact ⟨h.lt_spawned call, by simp [Config.set]⟩
  | @begin n i b isolation body next call =>
      have leads := h.leads _ _ _ _ call
      refine h.set call _ leads ?_ ?_
      · rintro s ⟨⟩
        have le := h.born_le _ _ _ _ call
        exact ⟨⟨fun _ => le, fun _ => le_rfl, fun _ => le_rfl, fun _ _ => rfl⟩, fun _ _ => rfl,
          by simp [start], by simp [start], by simp [start]⟩
      · rintro s ⟨⟩
        simp [start, View.keys]
  | @statement n i b s β q next reply e call rest ok free current =>
      have leads := h.leads _ _ _ _ call
      refine h.set call _ leads ?_ ?_
      · rintro s' ⟨⟩
        exact (h.sound _ _ _ _ call).statement (h.born_le _ _ _ _ call) rest ok current
      · rintro s' ⟨⟩ k hk m ne
        simp only [Session.advance, View.keys_after, List.mem_append] at hk
        rcases hk with hk | hk
        · exact h.exclusive n m k ne.symm ⟨i, b, s, call, hk⟩
        · exact free k (by simpa [View.needs] using hk) m ne
  | fail call => exact h.set_client call _ (.transaction _ (h.leads _ _ _ _ call))
  | interrupt call => exact h.set_client call _ (.transaction _ (h.leads _ _ _ _ call))
  | rollback call => exact h.set_client call _ (.transaction _ (h.leads _ _ _ _ call))
  | commit call rest => exact h.commit call rest
  | crash => exact h.remove _

theorem Reachable.invariant {c : Config S L W K D ε A R ι} (h : sys.Reachable c) : sys.Invariant c := by
  induction h with
  | initial => exact Invariant.initial
  | step _ step ih => exact ih.step step

/-- Every commit in a reachable configuration has its certificate. -/
theorem Reachable.certified {c : Config S L W K D ε A R ι} (h : sys.Reachable c) {j : Nat}
    (lt : j < c.log.length) : sys.Certified c.log j :=
  h.invariant.certified j lt

/-! ## Rules -/

theorem state_succ {log : List (Entry ι W)} {j : Nat} (lt : j < log.length) :
    sys.state log (j + 1) = applyAll (sys.state log j) log[j].writes :=
  stateAt_succ lt

/-- A key that a commit touched is, from the state its statement saw up to the commit, the same. -/
theorem Committed.same {log : List (Entry ι W)} {j born : Nat} {isolation : Isolation}
    {body : Prog S L W K D ε A} {a : A} {view : View L W K} {bases : Nat → Nat}
    (h : sys.Committed log j born isolation body a view bases) {m : Nat} {k : K}
    (mem : (m, k) ∈ view.touched) {i : Nat} (lo : bases m ≤ i) (hi : i ≤ j) :
    Store.Same k (sys.state log i) (sys.state log j) :=
  ((h.kept m k mem).later lo).same hi

theorem stateAt_le {initial : S} {log : List (Entry ι W)} {i j : Nat} (le : i ≤ j) :
    Store.Le (stateAt initial log i) (stateAt initial log j) := by
  have split : log.take j = log.take i ++ (log.take j).drop i := by
    conv_lhs => rw [← List.take_append_drop i (log.take j)]
    rw [List.take_take, Nat.min_eq_left le]
  have state : stateAt initial log j =
      applyAll (stateAt initial log i) (((log.take j).drop i).flatMap Entry.writes) := by
    rw [stateAt, split, List.flatMap_append, applyAll_append, ← stateAt]
    congr 2
    rw [← split]
  rw [state]
  exact le_applyAll _ _

/-- Rule for logs: `Inv` holds of every committed state and `Ext` from each to every later one, when
each commit establishes both for the state it leaves. -/
theorem states_of_commits {log : List (Entry ι W)} (Inv : S → Prop) (Ext : S → S → Prop) (refl : ∀ s, Ext s s)
    (trans : ∀ {s t u}, Ext s t → Ext t u → Ext s u) (start : Inv sys.initial)
    (step : ∀ j (lt : j < log.length), (∀ i ≤ j, Inv (sys.state log i)) →
      (∀ i i', i ≤ i' → i' ≤ j → Ext (sys.state log i) (sys.state log i')) →
      Inv (applyAll (sys.state log j) log[j].writes) ∧
        Ext (sys.state log j) (applyAll (sys.state log j) log[j].writes)) :
    (∀ i ≤ log.length, Inv (sys.state log i)) ∧
      (∀ i i', i ≤ i' → i' ≤ log.length → Ext (sys.state log i) (sys.state log i')) := by
  suffices upto : ∀ j ≤ log.length, (∀ i ≤ j, Inv (sys.state log i)) ∧
      (∀ i i', i ≤ i' → i' ≤ j → Ext (sys.state log i) (sys.state log i')) from
    upto log.length le_rfl
  intro j
  induction j with
  | zero =>
      intro _
      refine ⟨fun i le => ?_, fun i i' le le' => ?_⟩
      · obtain rfl := Nat.le_zero.mp le
        exact start
      · obtain rfl := Nat.le_zero.mp le'
        obtain rfl := Nat.le_zero.mp le
        exact refl _
  | succ j ih =>
      intro lt
      obtain ⟨inv, ext⟩ := ih (Nat.le_of_succ_le lt)
      obtain ⟨inv', ext'⟩ := step j lt inv ext
      rw [← state_succ lt] at inv' ext'
      refine ⟨fun i le => ?_, fun i i' le le' => ?_⟩
      · rcases Nat.le_succ_iff.mp le with le | rfl
        · exact inv i le
        · exact inv'
      · rcases Nat.le_succ_iff.mp le' with le' | rfl
        · exact ext i i' le le'
        · rcases Nat.le_succ_iff.mp le with le | rfl
          · exact trans (ext i j le le_rfl) ext'
          · exact refl _

/-- The rule for logs, with the certificate of each commit. -/
theorem Reachable.commits {c : Config S L W K D ε A R ι} (h : sys.Reachable c)
    (Inv : S → Prop) (Ext : S → S → Prop) (refl : ∀ s, Ext s s)
    (trans : ∀ {s t u}, Ext s t → Ext t u → Ext s u) (start : Inv sys.initial)
    (step : ∀ j (lt : j < c.log.length), sys.Certified c.log j →
      (∀ i ≤ j, Inv (sys.state c.log i)) →
      (∀ i i', i ≤ i' → i' ≤ j → Ext (sys.state c.log i) (sys.state c.log i')) →
      Inv (applyAll (sys.state c.log j) c.log[j].writes) ∧
        Ext (sys.state c.log j) (applyAll (sys.state c.log j) c.log[j].writes)) :
    (∀ i ≤ c.log.length, Inv (sys.state c.log i)) ∧
      (∀ i i', i ≤ i' → i' ≤ c.log.length → Ext (sys.state c.log i) (sys.state c.log i')) :=
  states_of_commits Inv Ext refl trans start fun j lt => step j lt (h.certified lt)

variable (sys) in
/-- Rule for callers: `J` holds of every running call and of every result, when it holds of a new
call, survives the commits of other calls, and is passed on by each step of the call itself. -/
structure Carries (J : List (Entry ι W) → Nat → ι → Nat → Client S L W K D ε A R → Prop) : Prop where
  spawn : ∀ {log n i}, (∀ j < log.length, sys.Certified log j) → (∀ e ∈ log, e.call ≠ n) →
    J log n i log.length (sys.program i)
  other : ∀ {log n i b x e}, (∀ j < (log ++ [e]).length, sys.Certified (log ++ [e]) j) →
    b ≤ log.length → e.call ≠ n → J log n i b x → J (log ++ [e]) n i b x
  query : ∀ {log n i b q}, (∀ j < log.length, sys.Certified log j) → b ≤ log.length →
    J log n i b (.query q) → J log n i b (q (sys.state log log.length))
  aborted : ∀ {log n i b isolation body next d}, (∀ j < log.length, sys.Certified log j) →
    J log n i b (.transaction isolation body next) →
    (sys.interrupts isolation d ∨ sys.Ran log isolation b body (.error d)) →
    J log n i b (next (.aborted d))
  thrown : ∀ {log n i b isolation body next e view}, (∀ j < log.length, sys.Certified log j) →
    J log n i b (.transaction isolation body next) →
    sys.Ran log isolation b body (.ok (.error e, view)) → J log n i b (next (.thrown e))
  committed : ∀ {log n i b isolation body next a view bases},
    (∀ j < (log ++ [⟨n, i, view.writes⟩]).length, sys.Certified (log ++ [⟨n, i, view.writes⟩]) j) →
    (sys.program i).Leads (.transaction isolation body next) →
    J log n i b (.transaction isolation body next) →
    sys.Committed log log.length b isolation body a view bases →
    J (log ++ [⟨n, i, view.writes⟩]) n i b (next (.committed a))

variable {J : List (Entry ι W) → Nat → ι → Nat → Client S L W K D ε A R → Prop}

structure Carried (sys : System S L W K D ε A R ι)
    (J : List (Entry ι W) → Nat → ι → Nat → Client S L W K D ε A R → Prop)
    (c : Config S L W K D ε A R ι) : Prop where
  calls : ∀ n i b x, c.calls n = some ⟨i, b, x⟩ → J c.log n i b x.pending
  results : ∀ r ∈ c.results, r.born ≤ c.log.length ∧ J c.log r.call r.request r.born (.done r.result)

omit [Store S W K] in
theorem Carried.set {c : Config S L W K D ε A R ι} {n : Nat} {i : ι} {b : Nat}
    {x : Activity S L W K D ε A R} (h : Carried sys J c) (now : J c.log n i b x.pending) :
    Carried sys J (c.set n (some ⟨i, b, x⟩)) where
  calls := by
    intro m i' b' x' hm
    rcases update_eq_some.mp hm with ⟨rfl, e⟩ | ⟨_, hm⟩
    · cases e
      exact now
    · exact h.calls m i' b' x' hm
  results := h.results

omit [Store S W K] in
theorem Carried.remove {c : Config S L W K D ε A R ι} (h : Carried sys J c) (n : Nat) :
    Carried sys J (c.set n none) where
  calls := by
    intro m i b x hm
    rcases update_eq_some.mp hm with ⟨_, e⟩ | ⟨_, hm⟩
    · cases e
    · exact h.calls m i b x hm
  results := h.results

theorem Carried.step (carries : sys.Carries J) {c c' : Config S L W K D ε A R ι}
    (inv : sys.Invariant c) (inv' : sys.Invariant c') (h : Carried sys J c) (step : sys.Step c c') :
    Carried sys J c' := by
  cases step with
  | spawn i =>
      have new := h.set (n := c.spawned) (b := c.log.length) (x := .client (sys.program i))
        (carries.spawn inv.certified fun e he => (inv.callers e he).ne)
      exact ⟨new.calls, new.results⟩
  | query call =>
      exact h.set (carries.query inv.certified (inv.born_le _ _ _ _ call) (h.calls _ _ _ _ call))
  | @finish n i b r call =>
      have gone := h.remove n
      refine ⟨gone.calls, fun r' hr' => ?_⟩
      rcases List.mem_append.mp hr' with hr' | hr'
      · exact h.results r' hr'
      · rw [List.mem_singleton.mp hr']
        exact ⟨inv.born_le _ _ _ _ call, h.calls _ _ _ _ call⟩
  | begin call =>
      have now := h.calls _ _ _ _ call
      exact h.set now
  | statement call =>
      have now := h.calls _ _ _ _ call
      exact h.set now
  | @fail n i b s β q next d call rest failed =>
      refine h.set (carries.aborted inv.certified (h.calls _ _ _ _ call) (.inr ?_))
      have sound := inv.sound _ _ _ _ call
      refine ⟨_, Seen.advance sound (inv.born_le _ _ _ _ call), ?_⟩
      obtain ⟨ran, seen⟩ := sound.visible_eq (fun m => if m < s.view.executed then s.bases m else
        s.base c.log.length) (fun m lt => if_pos lt) (if_neg (lt_irrefl _))
      rw [ran, rest, Prog.run, ← seen, failed]
  | interrupt call interrupts =>
      exact h.set (carries.aborted inv.certified (h.calls _ _ _ _ call) (.inl interrupts))
  | @rollback n i b s e call rest =>
      have sound := inv.sound _ _ _ _ call
      have ran : sys.Ran c.log s.isolation b s.body (.ok (.error e, s.view)) := by
        refine ⟨s.bases, sound.seen, ?_⟩
        rw [sound.runs _ fun _ _ => rfl, rest]
        rfl
      exact h.set (carries.thrown inv.certified (h.calls _ _ _ _ call) ran)
  | @commit n i b s a call rest =>
      have sound := inv.sound _ _ _ _ call
      have now := carries.committed inv'.certified (inv.leads _ _ _ _ call) (h.calls _ _ _ _ call)
        (sound.committed rest)
      refine ⟨fun m i' b' x' hm => ?_, fun r hr => ?_⟩
      · rcases update_eq_some.mp hm with ⟨rfl, e⟩ | ⟨ne, hm⟩
        · cases e
          exact now
        · exact carries.other inv'.certified (inv.born_le _ _ _ _ hm) ne.symm (h.calls m i' b' x' hm)
      · obtain ⟨le, hJ⟩ := h.results r hr
        exact ⟨le.trans (by simp),
          carries.other inv'.certified le (inv.not_finished call r hr).symm hJ⟩
  | crash => exact h.remove _

theorem Reachable.carried {c : Config S L W K D ε A R ι} (h : sys.Reachable c)
    (carries : sys.Carries J) : Carried sys J c := by
  induction h with
  | initial => exact ⟨by simp [Config.initial], by simp [Config.initial]⟩
  | step reach step ih => exact ih.step carries reach.invariant (reach.invariant.step step) step

end System

end Transactional
