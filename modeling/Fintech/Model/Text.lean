import Mathlib.Algebra.GroupWithZero.Nat
import Mathlib.Data.List.Basic
import Fintech.Library.LowerCase

/-!
# Strings as the services and the database read them

JavaScript trims by its own white space, measures in UTF-16 units and compares ids as text;
PostgreSQL counts code points and compares ids as UUIDs, whatever their letter case.
-/

namespace Fintech

/-- The characters that `String.prototype.trim` removes. -/
def isJsSpace (c : Char) : Bool :=
  ['\t', '\n', '\x0b', '\x0c', '\r', ' ', '\u00a0', '\u1680', '\u2028', '\u2029', '\u202f', '\u205f',
    '\u3000', '\ufeff'].contains c || ('\u2000' ≤ c && c ≤ '\u200a')

def trimBy (space : Char → Bool) (s : String) : String :=
  .ofList ((s.toList.dropWhile space).reverse.dropWhile space).reverse

theorem trimBy_of_forall {space : Char → Bool} {s : String} (h : ∀ c ∈ s.toList, space c = false) :
    trimBy space s = s := by
  have keep : ∀ cs : List Char, (∀ c ∈ cs, space c = false) → cs.dropWhile space = cs := by
    intro cs none
    cases cs with
    | nil => rfl
    | cons c cs => rw [List.dropWhile_cons, none c (by simp), if_neg (by simp)]
  rw [trimBy, keep _ h, keep _ (by simpa using h), List.reverse_reverse, String.ofList_toList]

def jsTrim (s : String) : String := trimBy isJsSpace s

/-- `btrim` of PostgreSQL. -/
def btrim (s : String) : String := trimBy (· == ' ') s

def utf16Units (c : Char) : Nat := if c.val < 0x10000 then 1 else 2

def jsLength (s : String) : Nat := (s.toList.map utf16Units).sum

/-- The longest prefix of at most `n` UTF-16 units, as in `s.slice(0, n)`. -/
def jsTake (n : Nat) (s : String) : String :=
  .ofList (go n s.toList)
where
  go : Nat → List Char → List Char
    | _, [] => []
    | n, c :: cs => if utf16Units c ≤ n then c :: go (n - utf16Units c) cs else []

/-- What PostgreSQL stores as text: every character but U+0000. -/
def isText (s : String) : Bool := s.toList.all (· != '\x00')

/-! ## Lower case -/

def toLowerCase (s : String) : String := .ofList (LowerCase.lower [] s.toList)

example : toLowerCase "\u00c9VA@X.COM" = "\u00e9va@x.com" ∧ toLowerCase "\u03a3\u03a3" = "\u03c3\u03c2" := by decide +kernel

/-- `lower` of PostgreSQL, letter by letter. -/
def lower (s : String) : String := .ofList (s.toList.map LowerCase.lowerLetter)

/-- The digits of a UUID are read in either case. -/
def lowerDigits (s : String) : String := .ofList (s.toList.map Char.toLower)

theorem lowerDigits_eq (s : String) : lowerDigits s = s.toLower := by
  apply String.toList_inj.mp
  change (lowerDigits s).toList = (s.map Char.toLower).toList
  simp [lowerDigits]

theorem toLowerCase_ascii {s : String} (h : ∀ c ∈ s.toList, c.toNat < 128) : toLowerCase s = lowerDigits s := by
  rw [toLowerCase, lowerDigits, LowerCase.lower_ascii h]

/-! ## Numerals -/

def digit? (c : Char) : Option Nat :=
  if '0' ≤ c ∧ c ≤ '9' then some (c.toNat - '0'.toNat)
  else if 'a' ≤ c ∧ c ≤ 'f' then some (c.toNat - 'a'.toNat + 10)
  else if 'A' ≤ c ∧ c ≤ 'F' then some (c.toNat - 'A'.toNat + 10)
  else none

def digitsValue? (base : Nat) : List Char → Option Nat
  | [] => none
  | cs => cs.foldlM (fun n c => (digit? c).bind fun d => if d < base then some (n * base + d) else none) 0

/-- `BigInt(s)`; `none` is its `SyntaxError`. -/
def bigInt? (s : String) : Option Int :=
  match (jsTrim s).toList with
  | [] => some 0
  | '-' :: cs => (digitsValue? 10 cs).map fun n => -(n : Int)
  | '+' :: cs => (digitsValue? 10 cs).map Int.ofNat
  | '0' :: 'x' :: cs | '0' :: 'X' :: cs => (digitsValue? 16 cs).map Int.ofNat
  | '0' :: 'o' :: cs | '0' :: 'O' :: cs => (digitsValue? 8 cs).map Int.ofNat
  | '0' :: 'b' :: cs | '0' :: 'B' :: cs => (digitsValue? 2 cs).map Int.ofNat
  | cs => (digitsValue? 10 cs).map Int.ofNat

example : bigInt? " 2500 " = some 2500 ∧ bigInt? "12x" = none := by decide

/-! ## UUIDs -/

def isLowerHex (c : Char) : Bool := ('0' ≤ c && c ≤ '9') || ('a' ≤ c && c ≤ 'f')

/-- Lower-case hexadecimal digits in groups of 8, 4, 4, 4 and 12. -/
def isUuidText (s : String) : Bool :=
  let groups := s.toList.splitOn '-'
  groups.map List.length == [8, 4, 4, 4, 12] && groups.all (·.all isLowerHex)

/-- A value of a `UUID` column, kept in its canonical text form. -/
structure Uuid where
  text : String
  canonical : isUuidText text ∧ text.toLower = text
  deriving DecidableEq

theorem toLower_of_isLowerHex {c : Char} (h : isLowerHex c) : c.toLower = c := by
  simp only [isLowerHex, Bool.or_eq_true, Bool.and_eq_true, decide_eq_true_eq, Char.le_def,
    UInt32.le_iff_toNat_le] at h
  refine dif_neg fun upper => ?_
  simp only [ge_iff_le, UInt32.le_iff_toNat_le] at upper
  have nine : '9'.val.toNat = 57 := rfl
  have upperA : 'A'.val.toNat = 65 := rfl
  have upperZ : 'Z'.val.toNat = 90 := rfl
  have lowerA : 'a'.val.toNat = 97 := rfl
  omega

theorem mem_intercalate {c : Char} {groups : List (List Char)} (h : c ∈ ['-'].intercalate groups) :
    c = '-' ∨ ∃ g ∈ groups, c ∈ g := by
  induction groups with
  | nil => simp [List.intercalate] at h
  | cons g groups ih =>
      cases groups with
      | nil => exact .inr ⟨g, by simp, by simpa [List.intercalate] using h⟩
      | cons g' groups =>
          simp only [List.intercalate, List.intersperse, List.flatten_cons, List.mem_append, List.mem_singleton] at h
          rcases h with h | rfl | h
          · exact .inr ⟨g, by simp, h⟩
          · exact .inl rfl
          · rcases ih (by simpa [List.intercalate] using h) with dash | ⟨x, hx, hc⟩
            · exact .inl dash
            · exact .inr ⟨x, List.mem_cons_of_mem _ hx, hc⟩

theorem mem_of_isUuidText {s : String} (h : isUuidText s) {c : Char} (hc : c ∈ s.toList) : c = '-' ∨ isLowerHex c := by
  simp only [isUuidText, Bool.and_eq_true, List.all_eq_true] at h
  have joined : ['-'].intercalate (s.toList.splitOn '-') = s.toList := List.intercalate_splitOn '-'
  rw [← joined] at hc
  rcases mem_intercalate hc with rfl | ⟨g, hg, hc⟩
  · exact .inl rfl
  · exact .inr (h.2 g hg c hc)

theorem length_intercalate (groups : List (List Char)) :
    (['-'].intercalate groups).length = (groups.map List.length).sum + (groups.length - 1) := by
  induction groups with
  | nil => rfl
  | cons g groups ih =>
      cases groups with
      | nil => simp [List.intercalate]
      | cons g' groups =>
          have split : ['-'].intercalate (g :: g' :: groups) = g ++ '-' :: ['-'].intercalate (g' :: groups) := by
            simp [List.intercalate]
          rw [split, List.length_append, List.length_cons, ih]
          simp only [List.map_cons, List.sum_cons, List.length_cons, Nat.add_sub_cancel]
          omega

theorem length_of_isUuidText {s : String} (h : isUuidText s) : s.length = 36 := by
  simp only [isUuidText, Bool.and_eq_true, beq_iff_eq] at h
  have joined : ['-'].intercalate (s.toList.splitOn '-') = s.toList := List.intercalate_splitOn '-'
  have groups : (s.toList.splitOn '-').length = 5 := by simpa using congrArg List.length h.1
  rw [← String.length_toList, ← joined, length_intercalate, h.1, groups]
  rfl

theorem toLower_of_isUuidText {s : String} (h : isUuidText s) : s.toLower = s := by
  rw [← lowerDigits_eq, ← String.toList_inj]
  simp only [lowerDigits, String.toList_ofList]
  conv_rhs => rw [← List.map_id s.toList]
  refine List.map_congr_left fun c hc => ?_
  rcases mem_of_isUuidText h hc with rfl | hc
  · rfl
  · exact toLower_of_isLowerHex hc

theorem Uuid.ext {a b : Uuid} (h : a.text = b.text) : a = b := by
  cases a
  cases b
  cases h
  rfl

theorem isJsSpace_of_isLowerHex {c : Char} (h : isLowerHex c) : isJsSpace c = false := by
  simp only [isLowerHex, Bool.or_eq_true, Bool.and_eq_true, decide_eq_true_eq, Char.le_def] at h
  have ne : ∀ d : Char, isLowerHex d = false → c ≠ d := by
    rintro d hd rfl
    simp only [isLowerHex, Bool.or_eq_false_iff, Bool.and_eq_false_imp, decide_eq_true_eq, decide_eq_false_iff_not,
      Char.le_def] at hd
    rcases h with h | h
    · exact hd.1 h.1 h.2
    · exact hd.2 h.1 h.2
  have below : ¬ '\u2000' ≤ c := by
    rw [Char.le_def]
    simp only [UInt32.le_iff_toNat_le] at h ⊢
    have space : '\u2000'.val.toNat = 8192 := rfl
    have nine : '9'.val.toNat = 57 := rfl
    have f : 'f'.val.toNat = 102 := rfl
    omega
  simp only [isJsSpace, below, decide_false, Bool.false_and, Bool.or_false, List.contains_eq_mem, decide_eq_false_iff_not,
    List.mem_cons, List.not_mem_nil, or_false, not_or]
  exact ⟨ne _ rfl, ne _ rfl, ne _ rfl, ne _ rfl, ne _ rfl, ne _ rfl, ne _ rfl, ne _ rfl, ne _ rfl, ne _ rfl, ne _ rfl,
    ne _ rfl, ne _ rfl, ne _ rfl⟩

/-- A reference made of a word and an id has no space. -/
theorem jsTrim_append_text {w : String} (h : w.toList.all fun c => !isJsSpace c) (id : Uuid) :
    jsTrim (w ++ id.text) = w ++ id.text := by
  refine trimBy_of_forall fun c hc => ?_
  rw [String.toList_append, List.mem_append] at hc
  rcases hc with hc | hc
  · simpa using List.all_eq_true.mp h c hc
  · rcases mem_of_isUuidText id.canonical.1 hc with rfl | hex
    · decide
    · exact isJsSpace_of_isLowerHex hex

theorem btrim_append_text {w : String} (h : w.toList.all fun c => c != ' ') (id : Uuid) :
    btrim (w ++ id.text) = w ++ id.text := by
  refine trimBy_of_forall fun c hc => ?_
  rw [String.toList_append, List.mem_append] at hc
  rcases hc with hc | hc
  · simpa using List.all_eq_true.mp h c hc
  · rcases mem_of_isUuidText id.canonical.1 hc with rfl | hex
    · decide
    · have := isJsSpace_of_isLowerHex hex
      rw [beq_eq_false_iff_ne]
      rintro rfl
      cases this

/-- The cast `s::uuid`. -/
def Uuid.parse? (s : String) : Option Uuid :=
  let t := lowerDigits s
  if h : isUuidText t then some ⟨t, h, toLower_of_isUuidText h⟩ else none

@[simp] theorem Uuid.parse?_text (u : Uuid) : Uuid.parse? u.text = some u := by
  have lower : lowerDigits u.text = u.text := (lowerDigits_eq u.text).trans u.canonical.2
  simp [parse?, lower, u.canonical.1]

theorem toLower_eq_or (c : Char) : c.toLower = c ∨ 65 ≤ c.toNat ∧ c.toNat ≤ 90 := by
  by_cases upper : c.val ≥ 'A'.val ∧ c.val ≤ 'Z'.val
  · exact .inr ⟨UInt32.le_iff_toNat_le.mp upper.1, UInt32.le_iff_toNat_le.mp upper.2⟩
  · exact .inl (dif_neg upper)

/-- A text that is read as a UUID is ASCII. -/
theorem toLowerCase_of_isUuidText {s : String} (h : isUuidText (lowerDigits s)) : toLowerCase s = lowerDigits s := by
  refine toLowerCase_ascii fun c hc => ?_
  rcases toLower_eq_or c with same | upper
  · have there : c ∈ (lowerDigits s).toList := by
      rw [lowerDigits, String.toList_ofList, ← same]
      exact List.mem_map_of_mem hc
    rcases mem_of_isUuidText h there with rfl | hex
    · decide
    · simp only [isLowerHex, Bool.or_eq_true, Bool.and_eq_true, decide_eq_true_eq, Char.le_def, UInt32.le_iff_toNat_le] at hex
      have nine : '9'.val.toNat = 57 := rfl
      have f : 'f'.val.toNat = 102 := rfl
      change c.val.toNat < 128
      omega
  · omega

/-- `isUUID(s, version)` of class-validator, the version among `versions`. -/
def isUuidOf (versions : List Char) (s : String) : Bool :=
  let t := lowerDigits s
  isUuidText t && versions.any (t.toList[14]? == some ·) && ['8', '9', 'a', 'b'].any (t.toList[19]? == some ·)

/-- `isUUID(s, '4')` -/
def isUuidV4 (s : String) : Bool := isUuidOf ['4'] s

/-- `isUUID(s)` -/
def isUuid (s : String) : Bool :=
  isUuidOf ['1', '2', '3', '4', '5', '6', '7', '8'] s ||
    ["00000000-0000-0000-0000-000000000000", "ffffffff-ffff-ffff-ffff-ffffffffffff"].contains (lowerDigits s)

/-! ## Idempotency keys and request fingerprints -/

/-- `/^[A-Za-z0-9._:-]{1,128}$/` -/
def isIdempotencyKey (s : String) : Bool :=
  1 ≤ s.length && s.length ≤ 128 &&
    s.toList.all fun c => ('A' ≤ c && c ≤ 'Z') || ('a' ≤ c && c ≤ 'z') || ('0' ≤ c && c ≤ '9') ||
      ['.', '_', ':', '-'].contains c

/-- `/^[0-9a-f]{64}$/` -/
def isSha256Hex (s : String) : Bool := s.length == 64 && s.toList.all isLowerHex

def hexDigit (n : Nat) : Char := if n < 10 then .ofNat ('0'.toNat + n) else .ofNat ('a'.toNat + n - 10)

def jsonEscape (c : Char) : List Char :=
  match c with
  | '"' => ['\\', '"']
  | '\\' => ['\\', '\\']
  | '\n' => ['\\', 'n']
  | '\r' => ['\\', 'r']
  | '\t' => ['\\', 't']
  | '\x08' => ['\\', 'b']
  | '\x0c' => ['\\', 'f']
  | c => if c.val < 0x20 then ['\\', 'u', '0', '0', hexDigit (c.toNat / 16), hexDigit (c.toNat % 16)] else [c]

def jsonString (s : String) : String := .ofList ('"' :: s.toList.flatMap jsonEscape ++ ['"'])

def jsonStringOrNull : Option String → String
  | some s => jsonString s
  | none => "null"

/-- `JSON.stringify` of an object whose values are strings or null. -/
def jsonObject (fields : List (String × Option String)) : String :=
  "\x7b" ++ ",".intercalate (fields.map fun f => jsonString f.1 ++ ":" ++ jsonStringOrNull f.2) ++ "\x7d"

end Fintech
