import Mathlib.Logic.Relation

/-!
# Runs of a transition system

Reachability from a set of starting states, with the two rules used for it: an inductive invariant
holds of every reachable state, and what a step preserves of a reachable state is preserved by any
number of further steps.
-/

namespace Transition
open Relation

variable {σ : Type*} {Init : σ → Prop} {Next : σ → σ → Prop}

def Reachable (Init : σ → Prop) (Next : σ → σ → Prop) (c : σ) : Prop :=
  ∃ c₀, Init c₀ ∧ ReflTransGen Next c₀ c

theorem Reachable.start {c : σ} (h : Init c) : Reachable Init Next c := ⟨c, h, .refl⟩

theorem Reachable.run {c c' : σ} (h : Reachable Init Next c) (run : ReflTransGen Next c c') :
    Reachable Init Next c' := by
  obtain ⟨c₀, first, run₀⟩ := h
  exact ⟨c₀, first, run₀.trans run⟩

theorem Reachable.step {c c' : σ} (h : Reachable Init Next c) (next : Next c c') :
    Reachable Init Next c' :=
  h.run (.single next)

theorem Reachable.invariant {Inv : σ → Prop} (init : ∀ c, Init c → Inv c)
    (keep : ∀ c c', Inv c → Next c c' → Inv c') {c : σ} (h : Reachable Init Next c) : Inv c := by
  obtain ⟨c₀, first, run⟩ := h
  induction run with
  | refl => exact init c₀ first
  | tail _ next ih => exact keep _ _ ih next

/-- A property that steps from reachable states preserve is never lost again. -/
theorem Reachable.stable {P : σ → Prop}
    (keep : ∀ c c', Reachable Init Next c → Next c c' → P c → P c') {c c' : σ}
    (h : Reachable Init Next c) (run : ReflTransGen Next c c') (now : P c) : P c' := by
  induction run with
  | refl => exact now
  | tail before next ih => exact keep _ _ (h.run before) next ih

end Transition
