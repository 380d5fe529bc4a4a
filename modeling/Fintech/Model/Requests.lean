import Fintech.Model.Transfers

/-!
# Request bodies

What the validation pipe checks of the body of a transfer or a reversal before the service sees it.
-/

namespace Fintech

/-- The characters that a variation selector follows. -/
def presentationSequences : List Char → Nat
  | c :: d :: cs =>
      let isSelector (c : Char) : Bool := c = '\ufe0e' ∨ c = '\ufe0f'
      if ¬ isSelector c ∧ isSelector d then presentationSequences cs + 1 else presentationSequences (d :: cs)
  | _ => 0

/-- The length that `@Length` and `@MaxLength` check: code points, a character with its variation selector as one. -/
def bodyLength (s : String) : Nat := s.length - presentationSequences s.toList

/-- `/^[1-9]\d*$/` -/
def isPositiveNumeral (s : String) : Bool :=
  match s.toList with
  | [] => false
  | c :: cs => ('1' ≤ c && c ≤ '9') && cs.all fun c => '0' ≤ c && c ≤ '9'

namespace TransfersService.CreateTransferDto

/-- The ids are UUIDs, and so far both or none of the destinations may be there. -/
def ValidIds (input : CreateTransferDto) : Prop :=
  isUuidV4 input.sourceWalletId ∧ (∀ id ∈ input.destinationWalletId, isUuidV4 id) ∧
    ∀ id ∈ input.beneficiaryId, isUuidV4 id

def ValidAmount (input : CreateTransferDto) : Prop :=
  bodyLength input.amountMinor ≤ 19 ∧ isPositiveNumeral input.amountMinor

def Valid (input : CreateTransferDto) : Prop := input.ValidIds ∧ input.ValidAmount

instance (input : CreateTransferDto) : Decidable input.ValidIds := by
  unfold ValidIds
  infer_instance

instance (input : CreateTransferDto) : Decidable input.ValidAmount := by
  unfold ValidAmount
  infer_instance

instance (input : CreateTransferDto) : Decidable input.Valid := by
  unfold Valid
  infer_instance

end TransfersService.CreateTransferDto

namespace ReversalsService.CreateReversalDto

/-- `@Transform`, which runs before the checks. -/
def transform (body : CreateReversalDto) : CreateReversalDto := { reason := body.reason.map jsTrim }

def Valid (input : CreateReversalDto) : Prop :=
  ∀ reason ∈ input.reason, 1 ≤ bodyLength reason ∧ bodyLength reason ≤ 255

instance (input : CreateReversalDto) : Decidable input.Valid := by
  unfold Valid
  infer_instance

end ReversalsService.CreateReversalDto

/-- `ParseUUIDPipe` -/
def parsesUuid (id : String) : Bool := (Uuid.parse? id).isSome

end Fintech
