import Mathlib.Data.Option.Basic
import Fintech.Proof.Numerals
import Fintech.Proof.Paging

/-!
# The gates of amounts

A transfer, a payment and an event of the mock provider are accepted with the numerals of 1 to 2⁶³ − 1, a Paystack
payment with those of 1 to 2⁵³ − 1, and what is stored prints back as it was sent.
-/

namespace Fintech

/-! ## Transfers -/

/-- Exactly one destination is named. -/
abbrev OneDestination (input : TransfersService.CreateTransferDto) : Prop :=
  input.destinationWalletId.isSome ≠ input.beneficiaryId.isSome

theorem bodyLength_of_isPositiveNumeral {s : String} (h : isPositiveNumeral s) : bodyLength s = s.length := by
  have plain : ∀ cs : List Char, (∀ c ∈ cs, c ≠ '\ufe0e' ∧ c ≠ '\ufe0f') → presentationSequences cs = 0 := by
    intro cs
    induction cs using presentationSequences.induct with
    | case1 c d cs isSelector found ih =>
        intro none
        have selector := none d (by simp)
        simp [isSelector, selector] at found
    | case2 c d cs isSelector found ih =>
        intro none
        rw [presentationSequences]
        simp only [isSelector] at found
        rw [if_neg found, ih fun c hc => none c (List.mem_cons_of_mem _ hc)]
    | case3 cs short =>
        intro _
        unfold presentationSequences
        split
        · exact absurd rfl (short _ _ _)
        · rfl
  obtain ⟨n, _, rfl⟩ := isPositiveNumeral_iff.mp h
  have digits : ∀ c ∈ (toString (n : Int)).toList, c.isDigit := fun c hc =>
    Nat.isDigit_of_mem_toDigits (by decide) (by decide) (toList_toString n ▸ hc)
  have none := plain _ fun c hc => by
    constructor <;>
    · rintro rfl
      exact absurd (digits _ hc) (by decide)
  rw [bodyLength, none, Nat.sub_zero]

namespace TransfersService

theorem normalizeTransferRequest_eq_ok {input : CreateTransferDto} {r : NormalizedTransferRequest} :
    normalizeTransferRequest input = .ok r ↔
      (input.destinationWalletId.filter (· ≠ "")).isSome ≠ (input.beneficiaryId.filter (· ≠ "")).isSome ∧
      ∃ n, bigInt? input.amountMinor = some n ∧ 0 < n ∧ n ≤ maxMinorUnits ∧
        { sourceWalletId := toLowerCase input.sourceWalletId
          destinationWalletId := (input.destinationWalletId.filter (· ≠ "")).map toLowerCase
          beneficiaryId := (input.beneficiaryId.filter (· ≠ "")).map toLowerCase
          amountMinor := n
          amountMinorText := toString n } = r := by
  unfold normalizeTransferRequest
  cases bigInt? input.amountMinor with
  | none => simp
  | some n =>
      simp only [bind_unit_eq_ok, failIf_eq_ok, not_or, not_le, not_lt, and_assoc, Option.some.injEq, exists_eq_left']
      simp [pure, Except.pure]

/-- The ids of a valid body are not empty. -/
theorem filter_ids {id : Option String} (valid : ∀ i ∈ id, isUuidV4 i) : id.filter (· ≠ "") = id := by
  cases id with
  | none => rfl
  | some i =>
      refine Option.filter_some_pos ?_
      rw [decide_eq_true_eq]
      rintro rfl
      exact absurd (valid "" rfl) (by decide)

theorem amount_gate {input : CreateTransferDto} (ids : input.ValidIds) (one : OneDestination input) :
    (input.Valid ∧ ∃ r, normalizeTransferRequest input = .ok r) ↔ IsNumeral maxMinorUnits input.amountMinor := by
  have numeral := isNumeral_iff 19 input.amountMinor maxMinorUnits (by decide) (by decide)
  rw [← numeral, isNumeral_eq, Bool.and_eq_true, decide_eq_true_eq]
  constructor
  · rintro ⟨⟨_, length, numeral⟩, r, normal⟩
    obtain ⟨_, n, value, _, le, _⟩ := normalizeTransferRequest_eq_ok.mp normal
    rw [bodyLength_of_isPositiveNumeral numeral] at length
    exact ⟨⟨numeral, length⟩, by simpa [value] using le⟩
  · rintro ⟨⟨numeral, length⟩, bound⟩
    obtain ⟨n, pos, text⟩ := isPositiveNumeral_iff.mp numeral
    have value : bigInt? input.amountMinor = some n := by
      rw [text]
      exact bigInt?_toString (Int.natCast_pos.mpr pos)
    rw [value] at bound
    refine ⟨⟨ids, ?_, numeral⟩, _, normalizeTransferRequest_eq_ok.mpr ⟨?_, n, value, ?_, ?_, rfl⟩⟩
    · rwa [bodyLength_of_isPositiveNumeral numeral]
    · rwa [filter_ids ids.2.1, filter_ids ids.2.2]
    · exact Int.natCast_pos.mpr pos
    · simpa using bound

/-- The amount of an accepted request is what the numeral says. -/
theorem amount_text {input : CreateTransferDto} {r : NormalizedTransferRequest} (valid : input.Valid)
    (normal : normalizeTransferRequest input = .ok r) : toString r.amountMinor = input.amountMinor := by
  obtain ⟨_, n, value, _, _, rfl⟩ := normalizeTransferRequest_eq_ok.mp normal
  obtain ⟨m, pos, text⟩ := isPositiveNumeral_iff.mp valid.2.2
  rw [text, bigInt?_toString (Int.natCast_pos.mpr pos)] at value
  rw [text, Option.some.inj value]

end TransfersService

/-! ## Payments -/

theorem IsNumeral.value {max : Int} {s : String} (h : IsNumeral max s) : ∃ n, bigInt? s = some n ∧ toString n = s ∧
    1 ≤ n ∧ n ≤ max := by
  obtain ⟨n, one, le, rfl⟩ := h
  exact ⟨n, bigInt?_toString (by omega), rfl, one, le⟩

namespace PaymentsService

theorem amount_gate {sha256Hex : String → String} {header : Option String} {key : String} {input : CreatePaymentDto}
    (sent : header.map jsTrim = some key) (valid : isIdempotencyKey key) :
    (∃ r, normalize sha256Hex header input = .ok r) ↔ IsNumeral maxMinorUnits input.amountMinor := by
  have found : (header.map jsTrim).filter (fun key => isIdempotencyKey key) = some key := by
    rw [sent]
    exact Option.filter_some_pos valid
  have numeral := isNumeral_iff 19 input.amountMinor maxMinorUnits (by decide) (by decide)
  rw [← numeral, normalize, found]
  by_cases accepted : isNumeral 19 input.amountMinor ∧ (bigInt? input.amountMinor).any (· ≤ 9223372036854775807)
  · simp only [failIf, accepted.1, accepted.2, not_true, or_self, if_false]
    exact iff_of_true ⟨_, rfl⟩ ⟨trivial, accepted.2⟩
  · simp only [failIf, if_pos (Classical.not_and_iff_not_or_not.mp accepted)]
    exact iff_of_false (by rintro ⟨_, h⟩; cases h) accepted

theorem key_of_normalize {sha256Hex : String → String} {header : Option String} {input : CreatePaymentDto}
    {r : String × String} (h : normalize sha256Hex header input = .ok r) :
    ∃ key, header.map jsTrim = some key ∧ isIdempotencyKey key := by
  unfold normalize at h
  cases found : (header.map jsTrim).filter fun key => isIdempotencyKey key with
  | none => simp [found] at h
  | some key => exact ⟨key, (Option.filter_eq_some_iff.mp found).1, (Option.filter_eq_some_iff.mp found).2⟩

/-- The stored amount prints back as it was sent. -/
theorem intent_text {max : Int} {amountMinor : String} (numeral : IsNumeral max amountMinor) (draws : Draws)
    (usePaystack : Bool) (wallet : Wallet) (userId : Uuid) (key hash : String) :
    (toPaymentResponse (intent draws usePaystack wallet userId key hash ((bigInt? amountMinor).getD 0))).amountMinor =
      amountMinor := by
  obtain ⟨n, value, text, _⟩ := numeral.value
  rw [value]
  exact text

theorem paystack_gate {s : String} : validateIntent s .ngn = .ok () ↔ IsNumeral maxSafeInteger s := by
  rw [← isNumeral_iff 16 s maxSafeInteger (by decide) (by decide), validateIntent, failIf_eq_ok]
  simp only [ne_eq, not_true, false_or, not_or, not_not]

end PaymentsService

/-! ## Provider events -/

theorem Json.string?_eq {j : Json} {s : String} : j.string? = some s ↔ j = .string s := by
  cases j <;> simp [Json.string?]

namespace MockPaymentProvider

theorem eventSchema_eq_some {h : String} {fields : List (String × Json)} {e : VerifiedPaymentEvent} :
    eventSchema h (.object fields) = some e ↔
      (fields.all fun f => ["eventId", "reference", "amountMinor", "currency", "status"].contains f.1) ∧
      (fields.lookup "eventId" = some (.string e.eventId) ∧ (Uuid.parse? e.eventId).isSome) ∧
      (fields.lookup "reference" = some (.string e.reference) ∧ isReference "payment:" e.reference) ∧
      (fields.lookup "amountMinor" = some (.string e.amountMinor) ∧ isAmount e.amountMinor) ∧
      (∃ c, fields.lookup "currency" = some (.string c) ∧ currency? c = some e.currency) ∧
      (∃ s, fields.lookup "status" = some (.string s) ∧ outcome? s = some ⟨e.status, e.terminal⟩) ∧
      h = e.payloadHash := by
  simp only [eventSchema, Json.field?, Option.bind_eq_bind, Option.bind_eq_some_iff, Option.guard_eq_some', exists_const,
    Json.string?_eq, exists_eq_right, Option.pure_def, Option.some.injEq]
  constructor
  · rintro ⟨known, eventId, id, uuid, reference, ref, pattern, amountMinor, amount, accepted, currency, ⟨c, hc, cur⟩,
      ⟨status, terminal⟩, ⟨s, hs, out⟩, rfl⟩
    exact ⟨known, ⟨id, uuid⟩, ⟨ref, pattern⟩, ⟨amount, accepted⟩, ⟨c, hc, cur⟩, ⟨s, hs, out⟩, rfl⟩
  · rintro ⟨known, ⟨id, uuid⟩, ⟨ref, pattern⟩, ⟨amount, accepted⟩, ⟨c, hc, cur⟩, ⟨s, hs, out⟩, rfl⟩
    exact ⟨known, e.eventId, id, uuid, e.reference, ref, pattern, e.amountMinor, amount, accepted, e.currency,
      ⟨c, hc, cur⟩, ⟨e.status, e.terminal⟩, ⟨s, hs, out⟩, rfl⟩

theorem isAmount_iff {s : String} : isAmount s ↔ IsNumeral maxMinorUnits s := by
  rw [← isNumeral_iff 19 s maxMinorUnits (by decide) (by decide), isAmount]
  simp only [Bool.and_eq_true, and_self_left]

/-- The fields of an event with another amount. -/
def withAmount (fields : List (String × Json)) (s : String) : List (String × Json) :=
  fields.map fun f => if f.1 = "amountMinor" then (f.1, .string s) else f

theorem lookup_withAmount (fields : List (String × Json)) (s name : String) :
    (withAmount fields s).lookup name =
      if name = "amountMinor" then (fields.lookup name).map fun _ => .string s else fields.lookup name := by
  induction fields with
  | nil => simp [withAmount]
  | cons f fields ih =>
      obtain ⟨k, v⟩ := f
      change (withAmount fields s).lookup name = _ at ih
      rw [withAmount, List.map_cons]
      change List.lookup name ((if k = "amountMinor" then (k, Json.string s) else (k, v)) :: withAmount fields s) = _
      by_cases here : name = k
      · subst here
        by_cases amount : name = "amountMinor" <;> simp [amount]
      · have other : (name == k) = false := by simpa using here
        have skip (w : Json) (rest : List (String × Json)) : List.lookup name ((k, w) :: rest) = rest.lookup name := by
          rw [List.lookup_cons, other]
        by_cases amount : k = "amountMinor"
        · rw [if_pos amount, skip, skip, ih]
        · rw [if_neg amount, skip, skip, ih]

/-- In an event that is accepted, exactly the numerals are accepted for the amount. -/
theorem amount_gate {h : String} {fields : List (String × Json)} {e : VerifiedPaymentEvent}
    (accepted : eventSchema h (.object fields) = some e) (s : String) :
    (eventSchema h (.object (withAmount fields s))).isSome ↔ IsNumeral maxMinorUnits s := by
  obtain ⟨known, id, ref, ⟨amount, _⟩, ⟨c, currency⟩, ⟨st, status⟩, hash⟩ := eventSchema_eq_some.mp accepted
  have amount' : (withAmount fields s).lookup "amountMinor" = some (.string s) := by
    rw [lookup_withAmount, if_pos rfl, amount]
    rfl
  rw [Option.isSome_iff_exists, ← isAmount_iff]
  constructor
  · rintro ⟨e', accepted'⟩
    obtain ⟨_, _, _, ⟨found, ok⟩, _⟩ := eventSchema_eq_some.mp accepted'
    rw [amount'] at found
    cases Option.some.inj found
    exact ok
  · intro ok
    refine ⟨{ e with amountMinor := s }, eventSchema_eq_some.mpr ⟨?_, ?_, ?_, ⟨amount', ok⟩, ⟨c, ?_⟩, ⟨st, ?_⟩, hash⟩⟩
    · rw [List.all_eq_true] at known ⊢
      intro f hf
      obtain ⟨g, hg, rfl⟩ := List.mem_map.mp hf
      have name := known g hg
      by_cases here : g.1 = "amountMinor"
      · rwa [if_pos here]
      · rwa [if_neg here]
    all_goals rw [lookup_withAmount, if_neg (by decide)]; assumption

end MockPaymentProvider

namespace PaystackProvider

theorem positiveSafeInteger?_eq {j : Json} {n : Int} (h : j.positiveSafeInteger? = some n) :
    1 ≤ n ∧ n ≤ PaymentsService.maxSafeInteger := by
  cases j with
  | number q =>
      rw [Json.positiveSafeInteger?] at h
      split at h
      · rename_i safe
        cases h
        exact safe.2
      · cases h
  | _ => cases h

theorem transactionSchema_amount {input : Json} {data : Transaction} (h : transactionSchema input = some data) :
    1 ≤ data.amount ∧ data.amount ≤ PaymentsService.maxSafeInteger := by
  simp only [transactionSchema, Option.bind_eq_bind, Option.bind_eq_some_iff, Option.guard_eq_some', exists_const,
    Option.pure_def, Option.some.injEq] at h
  obtain ⟨_, _, _, _, _, amount, ⟨j, _, safe⟩, _, _, _, _, _, _, _, _, rfl⟩ := h
  exact positiveSafeInteger?_eq safe

end PaystackProvider

end Fintech
