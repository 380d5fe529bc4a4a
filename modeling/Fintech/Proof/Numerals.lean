import Mathlib.Data.List.Induction
import Mathlib.Tactic.IntervalCases
import Fintech.Model.Requests
import Fintech.Model.Providers

/-!
# Numerals

The canonical decimal numerals are what `toString` prints of the positive integers: `BigInt` reads them back,
and the gates' patterns describe exactly them.
-/

namespace Fintech

/-- `s` is the decimal numeral of an integer from 1 to `max`. -/
def IsNumeral (max : Int) (s : String) : Prop := ∃ n : Int, 1 ≤ n ∧ n ≤ max ∧ s = toString n

theorem toList_toString (n : Nat) : (toString (n : Int)).toList = Nat.toDigits 10 n := Nat.toList_repr

/-! ## Digits -/

theorem digit?_digitChar {d : Nat} (h : d < 10) : digit? d.digitChar = some d := by
  interval_cases d <;> rfl

theorem eq_digitChar {c : Char} (low : Nat) (h : '0'.toNat + low ≤ c.toNat) (h' : c ≤ '9') :
    ∃ d, low ≤ d ∧ d < 10 ∧ c = d.digitChar := by
  have zero : '0'.toNat = 48 := rfl
  have nine : '9'.toNat = 57 := rfl
  have le : c.toNat ≤ '9'.toNat := h'
  refine ⟨c.toNat - 48, by omega, by omega, Char.toNat_inj.mp ?_⟩
  rw [Nat.toNat_digitChar_of_lt_ten (by omega)]
  omega

theorem digitsValue?_append {base d v : Nat} {cs : List Char} {c : Char} (value : digitsValue? base cs = some v)
    (digit : digit? c = some d) (lt : d < base) : digitsValue? base (cs ++ [c]) = some (v * base + d) := by
  cases cs with
  | nil => cases value
  | cons c' cs =>
      simp only [digitsValue?, List.cons_append] at value ⊢
      rw [← List.cons_append, List.foldlM_append, value]
      simp [digit, lt]

theorem digitsValue?_toDigits (n : Nat) : digitsValue? 10 (Nat.toDigits 10 n) = some n := by
  induction n using Nat.strong_induction_on with
  | _ n ih =>
      rw [Nat.toDigits_eq_if (by decide)]
      split
      · rename_i small
        simp [digitsValue?, digit?_digitChar small, small]
      · rename_i large
        rw [digitsValue?_append (ih (n / 10) (by omega)) (digit?_digitChar (Nat.mod_lt n (by decide)))
          (Nat.mod_lt n (by decide))]
        congr 1
        omega

/-- The digits of a positive number: the first is not zero. -/
theorem toDigits_eq_cons {n : Nat} (pos : 0 < n) : ∃ d cs, 1 ≤ d ∧ d < 10 ∧ Nat.toDigits 10 n = d.digitChar :: cs ∧
    ∀ c ∈ cs, c.isDigit := by
  have digits (c : Char) (hc : c ∈ Nat.toDigits 10 n) : c.isDigit :=
    Nat.isDigit_of_mem_toDigits (by decide) (by decide) hc
  have first : ∃ d cs, 1 ≤ d ∧ d < 10 ∧ Nat.toDigits 10 n = d.digitChar :: cs := by
    clear digits
    induction n using Nat.strong_induction_on with
    | _ n ih =>
        rw [Nat.toDigits_eq_if (by decide)]
        split
        · exact ⟨n, [], pos, by assumption, rfl⟩
        · obtain ⟨d, cs, one, ten, eq⟩ := ih (n / 10) (by omega) (by omega)
          exact ⟨d, cs ++ [(n % 10).digitChar], one, ten, by rw [eq, List.cons_append]⟩
  obtain ⟨d, cs, one, ten, eq⟩ := first
  exact ⟨d, cs, one, ten, eq, fun c hc => digits c (by simp [eq, hc])⟩

/-- Digits that do not begin with zero are those of a positive number. -/
theorem eq_toDigits {d : Nat} {cs : List Char} (one : 1 ≤ d) (ten : d < 10) (digits : ∀ c ∈ cs, c.isDigit) :
    ∃ n, 0 < n ∧ d.digitChar :: cs = Nat.toDigits 10 n := by
  induction cs using List.reverseRecOn with
  | nil => exact ⟨d, one, (Nat.toDigits_of_lt_base ten).symm⟩
  | append_singleton cs c ih =>
      obtain ⟨n, pos, eq⟩ := ih fun c hc => digits c (by simp [hc])
      have digit : c.isDigit := digits c (by simp)
      simp only [Char.isDigit, Bool.and_eq_true, decide_eq_true_eq] at digit
      obtain ⟨e, _, lt, rfl⟩ := eq_digitChar 0 digit.1 digit.2
      refine ⟨10 * n + e, by omega, ?_⟩
      rw [← Nat.toDigits_append_toDigits (by decide) pos lt, ← eq, Nat.toDigits_of_lt_base lt]
      rfl

/-! ## Numerals -/

theorem isLowerHex_of_isDigit {c : Char} (h : c.isDigit) : isLowerHex c := by
  simp only [Char.isDigit, Bool.and_eq_true, decide_eq_true_eq] at h
  have le : '0' ≤ c ∧ c ≤ '9' := h
  simp [isLowerHex, le]

theorem jsTrim_toString (n : Nat) : jsTrim (toString (n : Int)) = toString (n : Int) := by
  refine trimBy_of_forall fun c hc => ?_
  rw [toList_toString] at hc
  exact isJsSpace_of_isLowerHex (isLowerHex_of_isDigit (Nat.isDigit_of_mem_toDigits (by decide) (by decide) hc))

/-- What is printed of a positive integer is read back. -/
theorem bigInt?_toString {n : Int} (pos : 0 < n) : bigInt? (toString n) = some n := by
  obtain ⟨n, rfl⟩ := Int.eq_ofNat_of_zero_le pos.le
  obtain ⟨d, cs, one, ten, eq, _⟩ := toDigits_eq_cons (Int.natCast_pos.mp pos)
  have decimal : bigInt? (toString (n : Int)) = (digitsValue? 10 (d.digitChar :: cs)).map Int.ofNat := by
    rw [bigInt?, jsTrim_toString, toList_toString, eq]
    interval_cases d <;> rfl
  rw [decimal, ← eq, digitsValue?_toDigits]
  rfl

theorem toString_inj {m n : Int} (pos : 0 < m) (pos' : 0 < n) : toString m = toString n ↔ m = n := by
  constructor
  · intro same
    have read := bigInt?_toString pos
    rw [same, bigInt?_toString pos'] at read
    exact (Option.some.inj read).symm
  · rintro rfl
    rfl

theorem toString_injective : Function.Injective (toString : Int → String) := by
  have digits {a b : Nat} (same : Nat.toDigits 10 a = Nat.toDigits 10 b) : a = b :=
    Option.some.inj (by rw [← digitsValue?_toDigits a, same, digitsValue?_toDigits])
  have sign {a b : Nat} : toString (Int.ofNat a) ≠ toString (Int.negSucc b) := by
    intro same
    have mem : '-' ∈ Nat.toDigits 10 a := by
      rw [← toList_toString]
      have list := congrArg String.toList same
      rw [show toString (Int.negSucc b) = "-" ++ toString (b + 1) from rfl, String.toList_append] at list
      exact list ▸ by simp
    have digit := Nat.isDigit_of_mem_toDigits (by decide) (by decide) mem
    cases digit
  intro m n same
  cases m with
  | ofNat a =>
      cases n with
      | ofNat b =>
          have list := congrArg String.toList same
          rw [Int.ofNat_eq_natCast, Int.ofNat_eq_natCast, toList_toString, toList_toString] at list
          rw [digits list]
      | negSucc b => exact absurd same sign
  | negSucc a =>
      cases n with
      | ofNat b => exact absurd same.symm sign
      | negSucc b =>
          have list := congrArg String.toList same
          rw [show toString (Int.negSucc a) = "-" ++ toString (a + 1) from rfl,
            show toString (Int.negSucc b) = "-" ++ toString (b + 1) from rfl, String.toList_append, String.toList_append] at list
          have rest : (toString (a + 1)).toList = (toString (b + 1)).toList := List.append_cancel_left list
          change (Nat.repr _).toList = (Nat.repr _).toList at rest
          rw [Nat.toList_repr, Nat.toList_repr] at rest
          rw [Nat.succ_injective (digits rest)]

theorem isPositiveNumeral_iff {s : String} : isPositiveNumeral s ↔ ∃ n : Nat, 0 < n ∧ s = toString (n : Int) := by
  constructor
  · intro h
    unfold isPositiveNumeral at h
    split at h
    · cases h
    · rename_i c cs list
      simp only [Bool.and_eq_true, decide_eq_true_eq, List.all_eq_true] at h
      obtain ⟨d, one, ten, rfl⟩ := eq_digitChar 1 h.1.1 h.1.2
      have digits : ∀ c ∈ cs, c.isDigit := by
        intro c hc
        have both := h.2 c hc
        simp only [Char.isDigit, Bool.and_eq_true, decide_eq_true_eq]
        exact both
      obtain ⟨n, pos, eq⟩ := eq_toDigits one ten digits
      exact ⟨n, pos, String.toList_inj.mp (by rw [list, eq, toList_toString])⟩
  · rintro ⟨n, pos, rfl⟩
    obtain ⟨d, cs, one, ten, eq, digits⟩ := toDigits_eq_cons pos
    rw [isPositiveNumeral, toList_toString, eq]
    have first : ('1' ≤ d.digitChar && d.digitChar ≤ '9') = true := by interval_cases d <;> rfl
    have rest : (cs.all fun c => '0' ≤ c && c ≤ '9') = true := List.all_eq_true.mpr digits
    simp only [first, rest, Bool.and_self]

theorem length_toString_le_iff {n k : Nat} (pos : 0 < k) : (toString (n : Int)).length ≤ k ↔ n < 10 ^ k := by
  rw [← String.length_toList, toList_toString, Nat.length_toDigits_le_iff (by decide) pos]

theorem one_le_iff {c : Char} : '1' ≤ c ↔ '0' ≤ c ∧ c ≠ '0' := by
  have one : '1'.toNat = 49 := rfl
  have zero : '0'.toNat = 48 := rfl
  rw [show '1' ≤ c ↔ '1'.toNat ≤ c.toNat from Iff.rfl, show '0' ≤ c ↔ '0'.toNat ≤ c.toNat from Iff.rfl, Ne,
    ← Char.toNat_inj]
  omega

theorem isNumeral_eq (digits : Nat) (s : String) :
    PaymentsService.isNumeral digits s = (isPositiveNumeral s && s.length ≤ digits) := by
  rw [Bool.eq_iff_iff, PaymentsService.isNumeral, isPositiveNumeral, ← String.length_toList]
  cases s.toList with
  | nil => simp
  | cons c cs =>
      simp only [Bool.and_eq_true, decide_eq_true_eq, bne_iff_ne, one_le_iff, List.length_cons, Nat.succ_le_iff]
      tauto

/-- A pattern that bounds the digits, and a bound that the digits can hold: the numerals up to the bound. -/
theorem isNumeral_iff (digits : Nat) (s : String) (max : Int) (room : max < 10 ^ digits) (some_digits : 0 < digits) :
    PaymentsService.isNumeral digits s ∧ (bigInt? s).any (· ≤ max) ↔ IsNumeral max s := by
  rw [isNumeral_eq, Bool.and_eq_true, isPositiveNumeral_iff, decide_eq_true_eq]
  constructor
  · rintro ⟨⟨⟨n, pos, rfl⟩, _⟩, bound⟩
    rw [bigInt?_toString (Int.natCast_pos.mpr pos)] at bound
    exact ⟨n, by omega, by simpa using bound, rfl⟩
  · rintro ⟨n, one, le, rfl⟩
    obtain ⟨n, rfl⟩ := Int.eq_ofNat_of_zero_le (by omega : 0 ≤ n)
    refine ⟨⟨⟨n, by omega, rfl⟩, (length_toString_le_iff some_digits).mpr ?_⟩, ?_⟩
    · exact_mod_cast le.trans_lt room
    · rw [bigInt?_toString (by omega)]
      simpa using le

end Fintech
