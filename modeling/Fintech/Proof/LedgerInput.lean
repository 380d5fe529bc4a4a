import Fintech.Proof.Fingerprints
import Fintech.Proof.Posting

/-!
# The inputs that the ledger accepts

`normalizeLedgerTransactionInput` returns normally for exactly the well-formed inputs, and what it
returns satisfies the constraints of the ledger tables.
-/

namespace Fintech
open Relational Transactional

/-! ## Text -/

theorem length_le_jsLength (s : String) : s.length ≤ jsLength s := by
  rw [jsLength, ← String.length_toList]
  induction s.toList with
  | nil => exact Nat.le_refl _
  | cons c cs ih =>
      have unit : 1 ≤ utf16Units c := by
        unfold utf16Units
        split <;> omega
      rw [List.length_cons, List.map_cons, List.sum_cons]
      omega

theorem jsLength_pos {s : String} (h : 0 < jsLength s) : s ≠ "" := by
  rintro rfl
  exact Nat.lt_irrefl 0 h

theorem jsTrim_jsTrim (s : String) : jsTrim (jsTrim s) = jsTrim s := trimBy_trimBy (fun _ h => h) s

theorem btrim_jsTrim (s : String) : btrim (jsTrim s) = jsTrim s := by
  apply trimBy_trimBy
  intro c space
  rw [beq_iff_eq] at space
  rw [space]
  rfl

/-! ## Exactly the well-formed inputs -/

/-- What the ledger asks of an input. Texts are measured after trimming, in UTF-16 units. -/
structure WellFormed (input : LedgerTransactionInput) : Prop where
  reference : 1 ≤ jsLength (jsTrim input.reference) ∧ jsLength (jsTrim input.reference) ≤ 120
  description : ∀ d ∈ input.description, jsLength (jsTrim d) ≤ 255
  count : 2 ≤ input.postings.length ∧ input.postings.length ≤ 50
  accounts : ∀ p ∈ input.postings, isUuidV4 p.accountId
  distinct : (input.postings.map LedgerPostingInput.accountId).Nodup
  amounts : ∀ p ∈ input.postings, p.amountMinor ≠ 0 ∧ -2 ^ 63 ≤ p.amountMinor ∧ p.amountMinor < 2 ^ 63
  balanced : (input.postings.map LedgerPostingInput.amountMinor).sum = 0

/-- The input with its texts trimmed, and without an empty description. -/
def LedgerTransactionInput.trimmed (input : LedgerTransactionInput) : LedgerTransactionInput where
  reference := jsTrim input.reference
  currency := input.currency
  description := (input.description.map jsTrim).filter (· ≠ "")
  postings := input.postings

theorem isBigInt_iff {n : Int} : isBigInt n ↔ -2 ^ 63 ≤ n ∧ n < 2 ^ 63 := by
  simp only [isBigInt, Bool.and_eq_true, decide_eq_true_eq]
  omega

/-- Dropping an empty description drops none that is too long. -/
theorem description_fits {description : Option String} :
    ¬ ((description.map jsTrim).filter (· ≠ "")).any (fun d => 255 < jsLength d) ↔
      ∀ d ∈ description, jsLength (jsTrim d) ≤ 255 := by
  cases description with
  | none => simp
  | some d =>
      by_cases empty : jsTrim d = ""
      · have none : jsLength "" = 0 := rfl
        simp [empty, none]
      · simp [Option.filter, empty]

theorem normalize_eq_ok {input normalized : LedgerTransactionInput} :
    normalizeLedgerTransactionInput input = .ok normalized ↔ WellFormed input ∧ normalized = input.trimmed := by
  simp only [normalizeLedgerTransactionInput, bind_eq_ok, failIf_eq_ok, pure, Except.pure, Except.ok.injEq,
    normalizePostings_eq_ok, not_or, not_not, not_lt, description_fits, exists_and_left, exists_const]
  constructor
  · rintro ⟨⟨nonempty, short⟩, description, two, fifty, total, ⟨valid, distinct, sum⟩, zero, same⟩
    refine ⟨⟨⟨by omega, by omega⟩, description, ⟨by omega, ?_⟩, fun p hp => (valid p hp).1, distinct, fun p hp => ?_, ?_⟩,
      same.symm⟩
    · simpa [maxPostings] using fifty
    · exact ⟨(valid p hp).2.1, isBigInt_iff.mp (valid p hp).2.2.1⟩
    · omega
  · rintro ⟨h, same⟩
    refine ⟨⟨?_, ?_⟩, h.description, ?_, ?_, 0, ⟨fun p hp => ?_, h.distinct, ?_⟩, rfl, same.symm⟩
    · have := h.reference.1
      omega
    · have := h.reference.2
      omega
    · have := h.count.1
      omega
    · have := h.count.2
      simpa [maxPostings] using this
    · obtain ⟨nonzero, range⟩ := h.amounts p hp
      exact ⟨h.accounts p hp, nonzero, isBigInt_iff.mpr range, List.not_mem_nil⟩
    · rw [h.balanced]
      rfl

theorem WellFormed.trimmed {input : LedgerTransactionInput} (h : WellFormed input) : WellFormed input.trimmed where
  reference := by
    change 1 ≤ jsLength (jsTrim (jsTrim input.reference)) ∧ jsLength (jsTrim (jsTrim input.reference)) ≤ 120
    rw [jsTrim_jsTrim]
    exact h.reference
  description := by
    intro d hd
    obtain ⟨hd, _⟩ := Option.filter_eq_some_iff.mp hd
    obtain ⟨e, he, rfl⟩ := Option.map_eq_some_iff.mp hd
    rw [jsTrim_jsTrim]
    exact h.description e he
  count := h.count
  accounts := h.accounts
  distinct := h.distinct
  amounts := h.amounts
  balanced := h.balanced

theorem LedgerTransactionInput.trimmed_trimmed (input : LedgerTransactionInput) : input.trimmed.trimmed = input.trimmed := by
  have description : ((input.trimmed.description).map jsTrim).filter (· ≠ "") = input.trimmed.description := by
    cases found : input.trimmed.description with
    | none => rfl
    | some d =>
        obtain ⟨hd, kept⟩ := Option.filter_eq_some_iff.mp found
        obtain ⟨e, _, rfl⟩ := Option.map_eq_some_iff.mp hd
        rw [Option.map_some, jsTrim_jsTrim]
        exact Option.filter_some_pos kept
  have reference : jsTrim input.trimmed.reference = input.trimmed.reference := jsTrim_jsTrim input.reference
  rw [trimmed, description, reference]

/-! ## The constraints of the ledger tables -/

theorem castUuid_of_isUuidV4 {s : String} (h : isUuidV4 s) : ∃ u, castUuid s = .ok u ∧ u.text = toLowerCase s := by
  simp only [isUuidV4, isUuidOf, Bool.and_eq_true] at h
  have parsed : Uuid.parse? s = some ⟨lowerDigits s, h.1.1, toLower_of_isUuidText h.1.1⟩ := dif_pos h.1.1
  exact ⟨_, castUuid_eq_ok.mpr parsed, (toLowerCase_of_isUuidText h.1.1).symm⟩

/-- The row of a normalized transaction passes its checks, before it is sealed. -/
theorem WellFormed.transaction_check {input : LedgerTransactionInput} (h : WellFormed input) {t : LedgerTransaction}
    (reference : t.reference = input.trimmed.reference) (description : t.description = input.trimmed.description)
    (unsealed : t.sealedAt = none) : (Row.ledgerTransaction t).check = .ok () := by
  have nonempty : t.reference ≠ "" := by
    rw [reference]
    exact jsLength_pos h.reference.1
  have short : t.reference.length ≤ 120 := by
    rw [reference]
    exact (length_le_jsLength _).trans h.reference.2
  have canonical : btrim t.reference = t.reference := by
    rw [reference]
    exact btrim_jsTrim input.reference
  have fits : (t.description.getD "").length ≤ 255 := by
    rw [description]
    cases found : input.trimmed.description with
    | none => exact Nat.zero_le _
    | some d =>
        obtain ⟨hd, _⟩ := Option.filter_eq_some_iff.mp found
        obtain ⟨e, he, rfl⟩ := Option.map_eq_some_iff.mp hd
        exact (length_le_jsLength _).trans (h.description e he)
  have positive : 0 < t.reference.length := by
    rw [Nat.pos_iff_ne_zero, Ne, ← String.length_toList, List.length_eq_zero_iff, String.toList_eq_nil_iff]
    exact nonempty
  rw [Row.check_eq_ok]
  simp [Row.checks, varchar, canonical, short, fits, positive, unsealed]

/-- The rows of the postings pass their checks, and no two are for one account. -/
theorem WellFormed.postings_check {input : LedgerTransactionInput} (h : WellFormed input)
    (lower : ∀ p ∈ input.postings, toLowerCase p.accountId = p.accountId) (draws : Draws) (ledgerTransactionId : Uuid) :
    ∃ rows, input.postings.mapM (LedgerService.postingRow draws ledgerTransactionId) = .ok rows ∧
      (∀ r ∈ rows, (Row.ledgerPosting r).check = .ok ()) ∧
      rows.Pairwise fun p q => ∀ k ∈ (Row.ledgerPosting p).slots, k ∉ (Row.ledgerPosting q).slots := by
  have posts : ∀ p ∈ input.postings, ∃ r, LedgerService.postingRow draws ledgerTransactionId p = .ok r := by
    intro p hp
    obtain ⟨u, cast, _⟩ := castUuid_of_isUuidV4 (h.accounts p hp)
    exact ⟨_, bind_eq_ok.mpr ⟨u, cast, rfl⟩⟩
  obtain ⟨rows, run⟩ := exists_mapM_eq_ok posts
  have each := forall₂_mem (mapM_eq_ok.mp run)
  have row {p : LedgerPostingInput} {r : LedgerPosting} (hp : p ∈ input.postings)
      (made : LedgerService.postingRow draws ledgerTransactionId p = .ok r) :
      p.accountId = r.accountId.text ∧ p.amountMinor = r.amountMinor := by
    obtain ⟨u, cast, made⟩ := bind_eq_ok.mp made
    cases made
    refine ⟨?_, rfl⟩
    obtain ⟨u', cast', text⟩ := castUuid_of_isUuidV4 (h.accounts p hp)
    obtain rfl := Except.ok.inj (cast.symm.trans cast')
    rw [text, lower p hp]
  refine ⟨rows, run, fun r hr => ?_, ?_⟩
  · obtain ⟨p, _, hp, made⟩ := exists_of_forall₂ each hr
    obtain ⟨nonzero, range⟩ := h.amounts p hp
    rw [(row hp made).2] at nonzero range
    rw [Row.check_eq_ok]
    simp [Row.checks, bigint, isBigInt_iff.mpr range, nonzero]
  · have ids : input.postings.map LedgerPostingInput.accountId = rows.map fun r => r.accountId.text :=
      map_eq_map_of_forall₂ each fun p r made => (row made.1 made.2).1
    have distinct := h.distinct
    rw [ids, List.Nodup, List.pairwise_map] at distinct
    refine distinct.imp fun {p q} different => ?_
    simp only [Row.slots, List.mem_singleton, forall_eq, Key.postingAccount.injEq, not_and]
    exact fun _ same => different (congrArg Uuid.text same)

/-- An input is accepted if and only if it is well formed; it comes back trimmed, and comes back as it is when it
is normalized again; and with lower-case ids its rows satisfy the constraints of the ledger tables. -/
theorem normalization_exact (input : LedgerTransactionInput) :
    ((∃ normalized, normalizeLedgerTransactionInput input = .ok normalized) ↔ WellFormed input) ∧
    (∀ normalized, normalizeLedgerTransactionInput input = .ok normalized →
      normalized.reference = jsTrim input.reference ∧ normalized.currency = input.currency ∧
      normalized.description = (input.description.map jsTrim).filter (· ≠ "") ∧ normalized.postings = input.postings ∧
      normalizeLedgerTransactionInput normalized = .ok normalized ∧
      ((∀ p ∈ input.postings, toLowerCase p.accountId = p.accountId) →
        (∀ t : LedgerTransaction, t.reference = normalized.reference → t.description = normalized.description →
          t.sealedAt = none → (Row.ledgerTransaction t).check = .ok ()) ∧
        ∀ draws ledgerTransactionId, ∃ rows,
          normalized.postings.mapM (LedgerService.postingRow draws ledgerTransactionId) = .ok rows ∧
          (∀ r ∈ rows, (Row.ledgerPosting r).check = .ok ()) ∧
          rows.Pairwise fun p q => ∀ k ∈ (Row.ledgerPosting p).slots, k ∉ (Row.ledgerPosting q).slots)) := by
  constructor
  · constructor
    · rintro ⟨normalized, ok⟩
      exact (normalize_eq_ok.mp ok).1
    · intro h
      exact ⟨input.trimmed, normalize_eq_ok.mpr ⟨h, rfl⟩⟩
  · intro normalized ok
    obtain ⟨h, rfl⟩ := normalize_eq_ok.mp ok
    refine ⟨rfl, rfl, rfl, rfl, ?_, fun lower => ⟨fun t reference description unsealed => ?_, ?_⟩⟩
    · exact normalize_eq_ok.mpr ⟨h.trimmed, input.trimmed_trimmed.symm⟩
    · exact h.transaction_check reference description unsealed
    · exact h.postings_check lower

def sampleLedgerInput : LedgerTransactionInput where
  reference := "  ledger:test:1  "
  currency := .usd
  description := some "  Balanced posting  "
  postings := [⟨"11111111-1111-4111-8111-111111111111", -100⟩, ⟨"22222222-2222-4222-8222-222222222222", 100⟩]

theorem normalization_exact_sample : ∃ normalized, normalizeLedgerTransactionInput sampleLedgerInput = .ok normalized ∧
    normalized.reference = "ledger:test:1" ∧ normalized.description = some "Balanced posting" ∧
    normalizeLedgerTransactionInput normalized = .ok normalized := by
  have accepted : (normalizeLedgerTransactionInput sampleLedgerInput).toBool := by decide
  have ok := eq_ok_getD accepted sampleLedgerInput
  obtain ⟨reference, _, description, _, again, _⟩ := (normalization_exact sampleLedgerInput).2 _ ok
  refine ⟨_, ok, reference.trans ?_, description.trans ?_, again⟩
  · decide
  · decide

end Fintech
