import Fintech.Library.Locking
import Fintech.Library.Program

/-!
# The locks that programs ask for

A transaction on its way is an operation of a lock machine: its next statement is evaluated on what it sees, and the effect
of the statement tells the locks. `Prog.Asks` follows what a body asks for along each of its runs.
-/

namespace Transactional
open Locking

variable {S L W K D ε : Type} {α β : Type}

/-- A transaction: the states that its statements see, what is left of it, and how far it has come. -/
structure Operation (S L W K D ε α : Type) where
  base : Nat → S
  rest : Prog S L W K D ε α
  view : View L W K

variable [Store S W K]

/-- The next statement: the locks it asks for, and the transaction after it. -/
def Operation.next (requests : S → Effect L W K → List K) (o : Operation S L W K D ε α) :
    Option (List K × Operation S L W K D ε α) :=
  match o.rest with
  | .statement q next =>
      let seen := applyAll (o.base o.view.executed) o.view.writes
      match q seen o.view.locals with
      | .ok (b, e) => some (requests seen e, ⟨o.base, next b, o.view.after S e⟩)
      | .error _ => none
  | _ => none

/-- The lock machine of the transactions that start as `Start` says. -/
def Operation.machine (Start : Operation S L W K D ε α → Prop) (requests : S → Effect L W K → List K) :
    Machine (Operation S L W K D ε α) K := ⟨Start, next requests⟩

section
variable {R : Type} [Preorder R] (requests : S → Effect L W K → List K) (rank : K → R) (guard : K → Option K) (base : Nat → S)

/-- When `ks` has been asked for, whatever the statements of the body ask for comes in order, and `Q` holds where it ends. -/
def Prog.Asks (Q : Except ε α → View L W K → List K → Prop) : Prog S L W K D ε α → View L W K → List K → Prop
  | .ret a, v, ks => Q (.ok a) v ks
  | .throw e, v, ks => Q (.error e) v ks
  | .statement q next, v, ks => ∀ b e, q (applyAll (base v.executed) v.writes) v.locals = .ok (b, e) →
      Ordered rank guard ks (requests (applyAll (base v.executed) v.writes) e) ∧
        (next b).Asks Q (v.after S e) (ks ++ requests (applyAll (base v.executed) v.writes) e)

variable {requests rank guard base} {Q Q' : Except ε α → View L W K → List K → Prop} {v : View L W K} {ks : List K}

namespace Prog

end Prog

end

attribute [irreducible] Prog.Asks

end Transactional
