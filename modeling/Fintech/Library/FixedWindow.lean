import Mathlib.Algebra.Order.Monoid.Defs
import Mathlib.Data.List.Pairwise

/-!
# Fixed-window counters

A counter starts with the first event that finds none running, and expires a fixed time later. Whatever else is
decided about an event, it is granted only when the counter stays within a limit.
-/

namespace FixedWindow

structure Counter (T : Type) where
  count : Nat
  expiry : T

/-- How many events are granted at a time of `P`. -/
def granted {T : Type} (P : T → Prop) [DecidablePred P] (log : List (T × Bool)) : Nat :=
  log.countP fun x => x.2 && decide (P x.1)

section Granted
variable {T : Type} {P Q : T → Prop} [DecidablePred P] [DecidablePred Q] {log : List (T × Bool)}

@[simp] theorem granted_nil : granted P ([] : List (T × Bool)) = 0 := rfl

theorem granted_cons (t : T) (b : Bool) :
    granted P ((t, b) :: log) = granted P log + if b ∧ P t then 1 else 0 := by
  simp [granted, List.countP_cons]

theorem granted_mono (imp : ∀ t, P t → Q t) : granted P log ≤ granted Q log := by
  apply List.countP_mono_left
  intro x _ counted
  rw [Bool.and_eq_true, decide_eq_true_eq] at counted ⊢
  exact ⟨counted.1, imp x.1 counted.2⟩

/-- One event is granted at most once, and only within the limit. -/
theorem granted_cons_le {t : T} {b : Bool} {limit n : Nat} (within : b → n + 1 ≤ limit)
    (rest : granted P log ≤ limit - (n + 1)) : granted P ((t, b) :: log) ≤ limit - n := by
  rw [granted_cons]
  split
  · rename_i counted
    have := within counted.1
    omega
  · omega

end Granted

section
variable {T : Type} [LinearOrder T]

def Live (c : Option (Counter T)) (t : T) : Prop := ∃ n e, c = some ⟨n, e⟩ ∧ t < e

theorem le_of_not_live {n : Nat} {e t : T} (h : ¬ Live (some ⟨n, e⟩) t) : e ≤ t :=
  not_lt.mp fun lt => h ⟨n, e, rfl, lt⟩

variable [AddCommMonoid T]

/-- The events from a counter on, each with its time and whether it was granted. An event may miss the counter. -/
inductive Run (width : T) (limit : Nat) : Option (Counter T) → List (T × Bool) → Prop
  | nil (c) : Run width limit c []
  | missed {c : Option (Counter T)} {t : T} {log : List (T × Bool)} : Run width limit c log → Run width limit c ((t, false) :: log)
  | counted {n : Nat} {e t : T} {b : Bool} {log : List (T × Bool)} : t < e → (b → n + 1 ≤ limit) → Run width limit (some ⟨n + 1, e⟩) log →
      Run width limit (some ⟨n, e⟩) ((t, b) :: log)
  | opened {c : Option (Counter T)} {t : T} {b : Bool} {log : List (T × Bool)} : ¬ Live c t → (b → 1 ≤ limit) → Run width limit (some ⟨1, t + width⟩) log →
      Run width limit c ((t, b) :: log)

abbrev Ordered (log : List (T × Bool)) : Prop := log.Pairwise fun x y => x.1 ≤ y.1

variable {width : T} {limit : Nat} {c : Option (Counter T)} {log : List (T × Bool)}

/-- While a counter runs, what is left of its limit is granted. -/
theorem Run.granted_live {n : Nat} {e : T} (run : Run width limit (some ⟨n, e⟩) log) (ordered : Ordered log) :
    granted (· < e) log ≤ limit - n := by
  generalize start : some (⟨n, e⟩ : Counter T) = c at run
  induction run generalizing n with
  | nil c => exact Nat.zero_le _
  | missed _ ih =>
      rw [granted_cons, if_neg (by simp)]
      exact ih ordered.of_cons start
  | counted _ within _ ih =>
      cases start
      exact granted_cons_le within (ih ordered.of_cons rfl)
  | @opened c t b log dead _ _ _ =>
      cases start
      have late : ∀ x ∈ (t, b) :: log, e ≤ x.1 := by
        intro x hx
        rcases List.mem_cons.mp hx with rfl | hx
        · exact le_of_not_live dead
        · exact (le_of_not_live dead).trans (List.rel_of_pairwise_cons ordered hx)
      have none : granted (· < e) ((t, b) :: log) = 0 := by
        rw [granted, List.countP_eq_zero]
        intro x hx counted
        rw [Bool.and_eq_true, decide_eq_true_eq] at counted
        exact absurd counted.2 (late x hx).not_gt
      omega

variable [IsOrderedCancelAddMonoid T]

/-- From a time at which no counter runs, one limit is granted within the width of a window. -/
theorem Run.granted_idle {P : T → Prop} [DecidablePred P] {s : T} (idle : ¬ Live c s) (run : Run width limit c log)
    (ordered : Ordered log) (later : ∀ x ∈ log, s ≤ x.1) (within : ∀ t, P t → t < s + width) :
    granted P log ≤ limit := by
  induction run with
  | nil c => exact Nat.zero_le _
  | missed _ ih =>
      rw [granted_cons, if_neg (by simp)]
      exact ih idle ordered.of_cons fun x hx => later x (List.mem_cons_of_mem _ hx)
  | counted running _ _ _ =>
      have := (le_of_not_live idle).trans (later _ List.mem_cons_self)
      exact absurd running this.not_gt
  | @opened c t b log _ first run _ =>
      have begun : s ≤ t := later _ List.mem_cons_self
      have rest : granted P log ≤ limit - 1 := by
        apply (granted_mono _).trans (run.granted_live ordered.of_cons)
        intro u hu
        exact (within u hu).trans_le (add_le_add_left begun width)
      exact granted_cons_le (n := 0) first rest

/-- When a counter still runs at `s`, at most one more starts up to the width of a window after `s`. -/
theorem Run.granted_running {P : T → Prop} [DecidablePred P] {s e : T} {n : Nat} (running : s < e)
    (run : Run width limit (some ⟨n, e⟩) log) (ordered : Ordered log) (within : ∀ t, P t → t ≤ s + width) :
    granted P log ≤ limit - n + limit := by
  generalize start : some (⟨n, e⟩ : Counter T) = c at run
  induction run generalizing n with
  | nil c => exact Nat.zero_le _
  | missed _ ih =>
      rw [granted_cons, if_neg (by simp)]
      exact ih ordered.of_cons start
  | counted _ first _ ih =>
      cases start
      have rest := ih ordered.of_cons rfl
      rw [granted_cons]
      split
      · rename_i counted
        have := first counted.1
        omega
      · omega
  | @opened c t b log dead first run _ =>
      subst start
      have begun : s < t := running.trans_le (le_of_not_live dead)
      have one : granted P ((t, b) :: log) ≤ limit := by
        refine Run.granted_idle dead (.opened dead first run) ordered (fun x hx => ?_) fun u hu => ?_
        · rcases List.mem_cons.mp hx with rfl | hx
          · exact le_rfl
          · exact List.rel_of_pairwise_cons ordered hx
        · exact (within u hu).trans_lt (add_lt_add_left begun width)
      omega

/-- Any interval of the width of a window is granted twice the limit. -/
theorem Run.granted_interval (positive : 0 < width) (run : Run width limit c log) (ordered : Ordered log) (s : T) :
    granted (fun t => s ≤ t ∧ t ≤ s + width) log ≤ 2 * limit := by
  induction run with
  | nil c => exact Nat.zero_le _
  | missed _ ih =>
      rw [granted_cons, if_neg (by simp)]
      exact ih ordered.of_cons
  | @counted n e t b log running first run ih =>
      rcases lt_or_ge t s with early | inside
      · rw [granted_cons, if_neg fun counted => early.not_ge counted.2.1]
        exact ih ordered.of_cons
      · have := Run.granted_running (P := fun t => s ≤ t ∧ t ≤ s + width) (inside.trans_lt running)
          (.counted running first run) ordered fun _ h => h.2
        omega
  | @opened c t b log _ first run ih =>
      rcases lt_or_ge t s with early | inside
      · rw [granted_cons, if_neg fun counted => early.not_ge counted.2.1]
        exact ih ordered.of_cons
      · have runs : s < t + width := inside.trans_lt (lt_add_of_pos_right t positive)
        have rest := run.granted_running (P := fun t => s ≤ t ∧ t ≤ s + width) runs ordered.of_cons fun _ h => h.2
        rw [granted_cons]
        split
        · rename_i counted
          have := first counted.1
          omega
        · omega

end

end FixedWindow
