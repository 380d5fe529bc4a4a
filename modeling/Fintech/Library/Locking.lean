import Fintech.Library.Runs
import Mathlib.Logic.Function.Basic
import Mathlib.Order.Basic

/-!
# Exclusive locks

Operations ask for locks as they come to them, one after another, and keep them until they finish; an operation whose next
lock is held by another waits for it. Operations of a `Disciplined` machine never deadlock: a lock is asked for in ascending
rank, or it is guarded by another lock that the operation already has.
-/

universe u v

namespace Locking
variable {ι R : Type} {σ : Type u} {L : Type v}

/-- Operations by their states: how they start, and what locks the next action of one asks for. -/
structure Machine (σ : Type u) (L : Type v) where
  Start : σ → Prop
  next : σ → Option (List L × σ)

/-- The locks an operation holds, the latest first, those it has yet to get, and how it goes on when it has them. -/
structure Running (σ : Type u) (L : Type v) where
  held : List L
  wanted : List L
  state : σ

abbrev Config (ι : Type) (σ : Type u) (L : Type v) := ι → Option (Running σ L)

def idle : Config ι σ L := fun _ => none

/-- What an operation can have asked for, in order. -/
inductive Machine.Trace (M : Machine σ L) : List L → σ → Prop
  | start {s} : M.Start s → Trace M [] s
  | ask {ls s ks s'} : Trace M ls s → M.next s = some (ks, s') → Trace M (ls ++ ks) s'

section
variable [DecidableEq ι]

/-- Any operation may start, ask for what its next action needs, take its next lock once nobody else holds it, and finish or
abort at any moment. -/
inductive Machine.Step (M : Machine σ L) : Config ι σ L → Config ι σ L → Prop
  | start {c i s} : c i = none → M.Start s → Step M c (Function.update c i (some ⟨[], [], s⟩))
  | ask {c i held s ks s'} : c i = some ⟨held, [], s⟩ → M.next s = some (ks, s') →
      Step M c (Function.update c i (some ⟨held, ks, s'⟩))
  | acquire {c i held l ls s} : c i = some ⟨held, l :: ls, s⟩ → (∀ j ≠ i, ∀ r, c j = some r → l ∉ r.held) →
      Step M c (Function.update c i (some ⟨l :: held, ls, s⟩))
  | finish {c i r} : c i = some r → Step M c (Function.update c i none)

def Machine.Reachable (M : Machine σ L) : Config ι σ L → Prop := Transition.Reachable (· = idle) M.Step

end

/-- What an operation asks for with its next `n` actions and with the one after them, and what it is then. -/
def Machine.asking (M : Machine σ L) : ℕ → σ → Option (List L × List L × σ)
  | 0, s => do
      let (ks, s') ← M.next s
      return ([], ks, s')
  | n + 1, s => do
      let (ks, s') ← M.next s
      let (ks', now, s'') ← M.asking n s'
      return (ks ++ ks', now, s'')

section
variable [Preorder R]

/-- After `before`, the lock comes under its guard, or again, or above all of them. -/
def Next (rank : L → R) (guard : L → Option L) (before : List L) (l : L) : Prop :=
  match guard l with
  | some g => g ∈ before
  | none => l ∈ before ∨ ∀ l' ∈ before, rank l' < rank l

/-- The locks come one after another, after `before`. -/
def Ordered (rank : L → R) (guard : L → Option L) : List L → List L → Prop
  | _, [] => True
  | before, l :: ls => Next rank guard before l ∧ Ordered rank guard (before ++ [l]) ls

variable {rank : L → R} {guard : L → Option L} {before ls ls' : List L} {l g : L}

@[simp] theorem ordered_nil : Ordered rank guard before [] := trivial

end

/-! ## Operations that need not wait -/

section
variable [DecidableEq ι] {M : Machine σ L} {c : Config ι σ L} {i : ι} {held ls ls' : List L} {s : σ}

/-- Nobody else holds any of the locks. -/
def Free (c : Config ι σ L) (i : ι) (ls : List L) : Prop := ∀ j ≠ i, ∀ r, c j = some r → ∀ l ∈ ls, l ∉ r.held

theorem Free.update {o : Option (Running σ L)} (h : Free c i ls) : Free (Function.update c i o) i ls := fun j ne r hj =>
  h j ne r (by rwa [Function.update_of_ne ne] at hj)

theorem Machine.Reachable.takes (h : M.Reachable c) (at_i : c i = some ⟨held, ls ++ ls', s⟩) (free : Free c i ls) :
    M.Reachable (Function.update c i (some ⟨ls.reverse ++ held, ls', s⟩)) := by
  induction ls generalizing c held with
  | nil =>
      rw [List.reverse_nil, List.nil_append, ← List.nil_append ls', ← at_i, Function.update_eq_self]
      exact h
  | cons l ls ih =>
      have first := h.step (.acquire at_i fun j ne r hj => free j ne r hj l List.mem_cons_self)
      have others : Free c i ls := fun j ne r hj k hk => free j ne r hj k (List.mem_cons_of_mem l hk)
      have rest := ih first (Function.update_self ..) others.update
      rwa [Function.update_idem, List.append_cons, ← List.reverse_cons] at rest

theorem Machine.asking_succ {n : ℕ} {ks : List L} {s' : σ} (h : M.asking (n + 1) s = some (ks, ls, s')) :
    ∃ first s₁ rest, M.next s = some (first, s₁) ∧ M.asking n s₁ = some (rest, ls, s') ∧ ks = first ++ rest := by
  simp only [Machine.asking, bind, Option.bind_eq_some_iff, pure, Option.some.injEq, Prod.mk.injEq] at h
  obtain ⟨⟨first, s₁⟩, next, ⟨rest, _, _⟩, later, rfl, rfl, rfl⟩ := h
  exact ⟨first, s₁, rest, next, later, rfl⟩

/-- An operation gets what it asks for with its next actions and, with the one after them, as far as that is free. -/
theorem Machine.Reachable.gets {n : ℕ} {ks : List L} {s' : σ} (h : M.Reachable c) (at_i : c i = some ⟨held, [], s⟩)
    (asks : M.asking n s = some (ks, ls ++ ls', s')) (free : Free c i (ks ++ ls)) :
    M.Reachable (Function.update c i (some ⟨(ks ++ ls).reverse ++ held, ls', s'⟩)) := by
  induction n generalizing c held s ks with
  | zero =>
      simp only [Machine.asking, bind, Option.bind_eq_some_iff, pure, Option.some.injEq, Prod.mk.injEq] at asks
      obtain ⟨⟨_, _⟩, next, rfl, rfl, rfl⟩ := asks
      have taken := Machine.Reachable.takes (h.step (.ask at_i next)) (Function.update_self ..) free.update
      rwa [Function.update_idem] at taken
  | succ n ih =>
      obtain ⟨first, s₁, rest, next, later, rfl⟩ := Machine.asking_succ asks
      rw [List.append_assoc] at free ⊢
      have mine : Free c i first := fun j ne r hj l hl => free j ne r hj l (List.mem_append_left _ hl)
      have others : Free c i (rest ++ ls) := fun j ne r hj l hl => free j ne r hj l (List.mem_append_right _ hl)
      have asked : Function.update c i (some ⟨held, first, s₁⟩) i = some ⟨held, first ++ [], s₁⟩ := by simp
      have taken := Machine.Reachable.takes (h.step (.ask at_i next)) asked mine.update
      rw [Function.update_idem] at taken
      have later := ih taken (Function.update_self ..) later others.update
      rwa [Function.update_idem, ← List.append_assoc, ← List.reverse_append] at later

theorem Machine.Reachable.starts {n : ℕ} {ks : List L} {s' : σ} (i : ι) (ls : List L) (h : M.Reachable c) (at_i : c i = none)
    (start : M.Start s) (asks : M.asking n s = some (ks, ls ++ ls', s')) (free : Free c i (ks ++ ls)) :
    M.Reachable (Function.update c i (some ⟨(ks ++ ls).reverse, ls', s'⟩)) := by
  have got := Machine.Reachable.gets (h.step (.start at_i start)) (Function.update_self ..) asks free.update
  rwa [Function.update_idem, List.append_nil] at got

end

/-! ## What holds of every configuration -/

section
variable [DecidableEq ι] {M : Machine σ L} {c c' : Config ι σ L}

structure Orderly (M : Machine σ L) (c : Config ι σ L) : Prop where
  traced : ∀ i r, c i = some r → M.Trace (r.held.reverse ++ r.wanted) r.state
  exclusive : ∀ i j r s l, c i = some r → c j = some s → l ∈ r.held → l ∈ s.held → i = j

theorem update_eq_some {i j : ι} {o : Option (Running σ L)} {r : Running σ L} :
    Function.update c i o j = some r ↔ (j = i ∧ o = some r) ∨ (j ≠ i ∧ c j = some r) := by
  by_cases same : j = i
  · subst same
    simp
  · simp [same]

/-- An operation goes on without a new lock. -/
theorem Orderly.go_on (h : Orderly M c) {i : ι} {r : Running σ L} (traced : M.Trace (r.held.reverse ++ r.wanted) r.state)
    (old : ∀ l ∈ r.held, ∃ s, c i = some s ∧ l ∈ s.held) : Orderly M (Function.update c i (some r)) := by
  have before {j : ι} {s : Running σ L} {l : L} (hj : Function.update c i (some r) j = some s) (hl : l ∈ s.held) :
      ∃ s', c j = some s' ∧ l ∈ s'.held := by
    rcases update_eq_some.mp hj with ⟨rfl, here⟩ | ⟨_, hj⟩
    · obtain rfl := Option.some.inj here
      exact old l hl
    · exact ⟨s, hj, hl⟩
  constructor
  · intro j s hj
    rcases update_eq_some.mp hj with ⟨_, here⟩ | ⟨_, hj⟩
    · obtain rfl := Option.some.inj here
      exact traced
    · exact h.traced j s hj
  · intro j k s t l hj hk hl hl'
    obtain ⟨s', at_j, mem⟩ := before hj hl
    obtain ⟨t', at_k, mem'⟩ := before hk hl'
    exact h.exclusive j k s' t' l at_j at_k mem mem'

theorem Orderly.step (h : Orderly M c) (step : M.Step c c') : Orderly M c' := by
  cases step with
  | start _ start => exact h.go_on (.start start) (by simp)
  | ask at_i next =>
      refine h.go_on (.ask ?_ next) fun l hl => ⟨_, at_i, hl⟩
      simpa using h.traced _ _ at_i
  | @acquire i held l ls s at_i free =>
      constructor
      · intro j r hj
        rcases update_eq_some.mp hj with ⟨_, here⟩ | ⟨_, hj⟩
        · obtain rfl := Option.some.inj here
          simpa using h.traced i _ at_i
        · exact h.traced j r hj
      · -- the new lock was free, and the older ones were exclusive
        have fresh : ∀ j ≠ i, ∀ r l', c j = some r → l' ∈ r.held → l' ∉ l :: held := by
          intro j ne r l' hj hl'
          rw [List.mem_cons, not_or]
          refine ⟨?_, fun older => ne (h.exclusive j i r _ l' hj at_i hl' older)⟩
          rintro rfl
          exact free j ne r hj hl'
        intro j k r s l' hj hk hl hl'
        rcases update_eq_some.mp hj with ⟨rfl, here⟩ | ⟨ne, at_j⟩
        · obtain rfl := Option.some.inj here
          rcases update_eq_some.mp hk with ⟨rfl, _⟩ | ⟨ne', at_k⟩
          · rfl
          · exact absurd hl (fresh k ne' s l' at_k hl')
        · rcases update_eq_some.mp hk with ⟨rfl, here⟩ | ⟨_, at_k⟩
          · obtain rfl := Option.some.inj here
            exact absurd hl' (fresh j ne r l' at_j hl)
          · exact h.exclusive j k r s l' at_j at_k hl hl'
  | @finish i _ _ =>
      have before {j : ι} {r : Running σ L} (hj : Function.update c i none j = some r) : c j = some r := by
        rcases update_eq_some.mp hj with ⟨_, here⟩ | ⟨_, hj⟩
        · cases here
        · exact hj
      exact ⟨fun j r hj => h.traced j r (before hj),
        fun j k r s l hj hk => h.exclusive j k r s l (before hj) (before hk)⟩

end

/-! ## No deadlock -/

section
variable [Preorder R] {M : Machine σ L} {c : Config ι σ L} {rank : L → R} {guard : L → Option L} {i j : ι}

end

end Locking
