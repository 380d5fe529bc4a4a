import Fintech.Library.Processes
import Fintech.Library.Serial

/-!
# Requests one after another

`Process.alone` runs a process with nobody else, the world outside answering as given, so that what a world shows can be
computed and is known to be reachable.
-/

namespace Transactional

variable {S L W K D ε A R κ O I T ι : Type} [Store S W K]

/-- What a world shows: its log, the number of its calls, and what its processes did. -/
structure Trail (S W R D κ O I T : Type) where
  log : List (Entry κ W) := []
  calls : Nat := 0
  history : List (Nat × Event S R D κ O I T) := []

def World.trail (w : World S L W K D ε A R κ O I T ι) : Trail S W R D κ O I T := ⟨w.base.log, w.base.spawned, w.history⟩

namespace Trail
variable (x : Trail S W R D κ O I T) (n : Nat)

def add (e : Event S R D κ O I T) : Trail S W R D κ O I T := { x with history := x.history ++ [(n, e)] }

/-- A call that comes to an end with the given log. -/
def ran (log : List (Entry κ W)) : Trail S W R D κ O I T := { x with log := log, calls := x.calls + 1 }

end Trail

/-- What process `n` leaves behind. It stops at a statement that does not commit exactly once. -/
def Process.alone (sys : System S L W K D ε A R κ) (answers : O → I) (n : Nat) : Process S R D κ O I T →
    Trail S W R D κ O I T → Trail S W R D κ O I T
  | .respond t, x => x.add n (.responded t)
  | .query q, x =>
      let s := sys.state x.log x.log.length
      (q s).alone sys answers n (x.add n (.read x.log.length s))
  | .call k next, x =>
      let ran := sys.perform x.log x.calls k
      (next ran.2).alone sys answers n (((x.add n (.called x.calls k)).ran ran.1).add n (.returned x.calls k ran.2))
  | .statement q next fails, x =>
      let s := sys.state x.log x.log.length
      match q s with
      | .error d => (fails d).alone sys answers n (x.add n (.failed d))
      | .ok k =>
          let ran := sys.perform x.log x.calls k
          if ran.1.length = x.log.length + 1 then
            (next s).alone sys answers n ((x.ran ran.1).add n (.performed x.calls x.log.length s k))
          else x
  | .ask o next, x => (next (answers o)).alone sys answers n ((x.add n (.asked o)).add n (.answered o (answers o)))

/-- A call made while no call is running comes to its end. -/
theorem System.works_alone {sys : System S L W K D ε A R κ} {base : Config S L W K D ε A R κ} (idle : base.Idle) (k : κ) :
    ∃ base' b, Relation.ReflTransGen sys.Works (sys.spawn base k) base' ∧ base'.Idle ∧
      base'.log = (sys.perform base.log base.spawned k).1 ∧ base'.spawned = base.spawned + 1 ∧
      ⟨base.spawned, k, b, (sys.perform base.log base.spawned k).2⟩ ∈ base'.results := by
  have finished := System.client_alone (P := Relation.ReflTransGen sys.Works (sys.spawn base k))
    (fun works step spawned => works.tail ⟨step, spawned⟩) (c := { base with spawned := base.spawned + 1 })
    (n := base.spawned) (i := k) (b := base.log.length) (x := sys.program k) (fun m _ => idle m) .refl
  refine ⟨_, base.log.length, finished, fun m => ?_, rfl, rfl, List.mem_append_right _ (List.mem_singleton_self _)⟩
  by_cases same : m = base.spawned
  · simp [Config.set, same]
  · simpa [Config.set, same] using idle m

theorem System.perform_once {sys : System S L W K D ε A R κ} {log : List (Entry κ W)} {call : Nat} {k : κ}
    (once : (sys.perform log call k).1.length = log.length + 1) : ∃ ws, (sys.perform log call k).1 = log ++ [⟨call, k, ws⟩] := by
  have one : (log ++ _).length = log.length + 1 := once
  rw [List.length_append, List.length_map] at one
  obtain ⟨ws, commits⟩ := List.length_eq_one_iff.mp (Nat.add_left_cancel one)
  refine ⟨ws, ?_⟩
  rw [perform, commits]
  rfl

namespace Gateway
variable {g : Gateway S L W K D ε A R κ O I T ι}

/-- What the requests leave behind, one after another. -/
def serveAll (g : Gateway S L W K D ε A R κ O I T ι) (answers : O → I) : List ι → Nat → Trail S W R D κ O I T →
    Trail S W R D κ O I T
  | [], _, x => x
  | i :: is, n, x => g.serveAll answers is (n + 1) ((g.handler i).alone g.system answers n x)

section
variable {w : World S L W K D ε A R κ O I T ι}

theorem Reachable.works (h : g.Reachable w) {base : Config S L W K D ε A R κ}
    (works : Relation.ReflTransGen g.system.Works w.base base) : g.Reachable { w with base := base } := by
  induction works with
  | refl => exact h
  | tail _ works ih => exact ih.step (.work works)

/-- A process that runs alone comes to its end. -/
theorem Reachable.process (answers : O → I) {p : Process S R D κ O I T} {n : Nat} (h : g.Reachable w) (idle : w.base.Idle)
    (stage : w.stages n = some (.running p)) : ∃ w', g.Reachable w' ∧ w'.base.Idle ∧ w'.requests = w.requests ∧
      w'.trail = p.alone g.system answers n w.trail := by
  induction p generalizing w with
  | respond t => exact ⟨_, h.step (.act stage (.respond t) (.responded t)), idle, rfl, rfl⟩
  | query q ih =>
      have read := h.step (.act stage (.query q _ _) .read)
      exact @ih _ _ read idle (Function.update_self ..)
  | call k next ih =>
      have called := h.step (.act stage (.call k next _) (.called k))
      obtain ⟨base, b, works, idle', log, spawned, result⟩ := g.system.works_alone idle k
      have returned := (called.works works).step (.act (Function.update_self ..) (.resume k next _ _) (.returned result))
      obtain ⟨w', reach', idle'', requests, same⟩ := @ih _ _ returned idle' (Function.update_self ..)
      refine ⟨w', reach', idle'', requests, same.trans ?_⟩
      simp only [World.act, World.trail, Trail.add, Trail.ran, Process.alone, log, spawned]
  | statement q next fails ih ih' =>
      cases made : q (g.system.state w.base.log w.base.log.length) with
      | error d =>
          have failed := h.step (.act stage (.fail q next fails d) (.failed d))
          obtain ⟨w', reach, idle', requests, same⟩ := @ih' _ _ failed idle (Function.update_self ..)
          refine ⟨w', reach, idle', requests, same.trans ?_⟩
          simp only [World.act, World.trail, Trail.add, Process.alone, made]
      | ok k =>
          by_cases once : (g.system.perform w.base.log w.base.spawned k).1.length = w.base.log.length + 1
          · obtain ⟨base, b, works, idle', log, spawned, _⟩ := g.system.works_alone idle k
            obtain ⟨ws, new⟩ := System.perform_once once
            have performed := h.step (.act stage (.statement made) (.performed works (log.trans new)))
            obtain ⟨w', reach, idle'', requests, same⟩ := @ih _ _ performed idle' (Function.update_self ..)
            refine ⟨w', reach, idle'', requests, same.trans ?_⟩
            simp only [World.act, World.trail, Trail.add, Trail.ran, Process.alone, made, if_pos once, log, spawned]
          · refine ⟨w, h, idle, rfl, ?_⟩
            simp only [World.trail, Process.alone, made, if_neg once]
  | ask o next ih =>
      have asked := h.step (.act stage (.ask o next) (.asked o))
      have answered := asked.step (.act (Function.update_self ..) (.answer o next (answers o)) (.answered o _))
      exact @ih _ _ answered idle (Function.update_self ..)

end

/-- The requests, served one after another from the start, leave a reachable world. -/
theorem reachable_serveAll (g : Gateway S L W K D ε A R κ O I T ι) (answers : O → I) (is : List ι) :
    ∃ w, g.Reachable w ∧ w.requests = is ∧ w.trail = g.serveAll answers is 0 {} := by
  have all : ∀ (is : List ι) (w : World S L W K D ε A R κ O I T ι), g.Reachable w → w.base.Idle → ∃ w', g.Reachable w' ∧
      w'.requests = w.requests ++ is ∧ w'.trail = g.serveAll answers is w.requests.length w.trail := by
    intro is
    induction is with
    | nil => exact fun w h _ => ⟨w, h, (List.append_nil _).symm, rfl⟩
    | cons i is ih =>
        intro w h idle
        obtain ⟨w₁, reach, idle₁, requests, served⟩ := (h.step (.accept i)).process answers idle (Function.update_self ..)
        obtain ⟨w₂, reach₂, requests₂, same⟩ := ih w₁ reach idle₁
        refine ⟨w₂, reach₂, ?_, same.trans ?_⟩
        · rw [requests₂, requests, World.accept, List.append_assoc, List.singleton_append]
        · rw [served, requests, World.accept, List.length_append, List.length_singleton]
          rfl
  exact all is _ .initial fun _ => rfl

end Gateway

end Transactional
