import Mathlib.Algebra.Order.Group.Nat
import Mathlib.Data.List.Basic
import Mathlib.Data.Nat.Bitwise
import Mathlib.Data.UInt

/-!
# Bytes as digits

A list of bytes as digits of `k` bits, as in base 16 or base 64: the bits of the bytes, filled up with zeros to whole
digits. Reading the digits back drops the bits that no byte is left for.
-/

namespace Encoding

/-- The `w` bits of `n`, the highest first. -/
def bits : Nat → Nat → List Bool
  | 0, _ => []
  | w + 1, n => n.testBit w :: bits w n

def value : List Bool → Nat
  | [] => 0
  | b :: bs => (if b then 2 ^ bs.length else 0) + value bs

@[simp] theorem length_bits (w n : Nat) : (bits w n).length = w := by
  induction w with
  | zero => rfl
  | succ w ih => rw [bits, List.length_cons, ih]

theorem value_bits (w n : Nat) : value (bits w n) = n % 2 ^ w := by
  induction w with
  | zero => simp [bits, value, Nat.mod_one]
  | succ w ih =>
      rw [bits, value, length_bits, ih, Nat.mod_pow_succ, Nat.testBit_eq_decide_div_mod_eq]
      rcases Nat.mod_two_eq_zero_or_one (n / 2 ^ w) with even | odd
      · simp [even]
      · simp [odd, Nat.add_comm]

theorem bits_value (bs : List Bool) : bits bs.length (value bs) = bs := by
  have low : ∀ (w m n : Nat), m % 2 ^ w = n % 2 ^ w → bits w m = bits w n := by
    intro w m n same
    induction w with
    | zero => rfl
    | succ w ih =>
        have top : m.testBit w = n.testBit w := by
          have := congrArg (Nat.testBit · w) same
          simpa [Nat.testBit_mod_two_pow] using this
        have rest : m % 2 ^ w = n % 2 ^ w := by
          have := congrArg (· % 2 ^ w) same
          simpa [Nat.mod_mod_of_dvd _ (pow_dvd_pow 2 (Nat.le_succ w))] using this
        rw [bits, bits, top, ih rest]
  induction bs with
  | nil => rfl
  | cons b bs ih =>
      have lt : value bs < 2 ^ bs.length := by
        have mod := value_bits bs.length (value bs)
        rw [ih] at mod
        rw [mod]
        exact Nat.mod_lt _ (Nat.two_pow_pos _)
      rw [List.length_cons, bits, value]
      congr 1
      · cases b with
        | false => simpa using Nat.testBit_lt_two_pow lt
        | true => simp [Nat.testBit_two_pow_add_eq, Nat.testBit_lt_two_pow lt]
      · rw [low bs.length _ (value bs), ih]
        cases b <;> simp

/-- The whole groups of `k`. -/
def groups {α : Type} (k : Nat) (xs : List α) : List (List α) :=
  if 0 < k ∧ k ≤ xs.length then xs.take k :: groups k (xs.drop k) else []
termination_by xs.length
decreasing_by rw [List.length_drop]; omega

section
variable {α β : Type} {k : Nat}

theorem groups_append {xs ys : List α} (pos : 0 < k) (whole : xs.length = k) : groups k (xs ++ ys) = xs :: groups k ys := by
  subst whole
  rw [groups, if_pos ⟨pos, by simp⟩, List.take_left, List.drop_left]

theorem groups_flatMap (pos : 0 < k) (f : β → List α) (whole : ∀ b, (f b).length = k) (bs : List β) {rest : List α}
    (short : rest.length < k) : groups k (bs.flatMap f ++ rest) = bs.map f := by
  induction bs with
  | nil => rw [List.flatMap_nil, List.nil_append, groups, if_neg (by omega), List.map_nil]
  | cons b bs ih => rw [List.flatMap_cons, List.append_assoc, groups_append pos (whole b), ih, List.map_cons]

theorem mem_groups {xs g : List α} (h : g ∈ groups k xs) : g.length = k := by
  induction xs using groups.induct (k := k) with
  | case1 xs enough ih =>
      rw [groups, if_pos enough, List.mem_cons] at h
      rcases h with rfl | h
      · rw [List.length_take]
        omega
      · exact ih h
  | case2 xs short =>
      rw [groups, if_neg short] at h
      exact absurd h List.not_mem_nil

theorem flatten_groups (pos : 0 < k) {xs : List α} (whole : k ∣ xs.length) : (groups k xs).flatten = xs := by
  induction xs using groups.induct (k := k) with
  | case1 xs enough ih =>
      rw [groups, if_pos enough, List.flatten_cons, ih, List.take_append_drop]
      rw [List.length_drop]
      exact Nat.dvd_sub whole dvd_rfl
  | case2 xs short =>
      rw [groups, if_neg short]
      have : xs.length = 0 := by
        by_contra some
        exact short ⟨pos, Nat.le_of_dvd (Nat.pos_of_ne_zero some) whole⟩
      rw [List.eq_nil_of_length_eq_zero this]
      rfl

end

/-- As many zeros as fill up a digit of `k` bits. -/
def fill (k : Nat) (bs : List Bool) : List Bool := .replicate ((k - bs.length % k) % k) false

def bytesBits (bytes : List UInt8) : List Bool := bytes.flatMap fun b => bits 8 b.toNat

/-- The digits of the bytes. -/
def digits (k : Nat) (bytes : List UInt8) : List Nat :=
  (groups k (bytesBits bytes ++ fill k (bytesBits bytes))).map value

/-- The bytes that the digits make up. -/
def bytes (k : Nat) (ds : List Nat) : List UInt8 :=
  (groups 8 (ds.flatMap (bits k))).map fun g => UInt8.ofNat (value g)

section
variable {k : Nat}

theorem digits_lt {bs : List UInt8} {d : Nat} (h : d ∈ digits k bs) : d < 2 ^ k := by
  obtain ⟨g, hg, rfl⟩ := List.mem_map.mp h
  rw [← mem_groups hg, ← bits_value g, value_bits, length_bits]
  exact Nat.mod_lt _ (Nat.two_pow_pos _)

theorem fill_whole (pos : 0 < k) (bs : List Bool) : k ∣ (bs ++ fill k bs).length := by
  rw [List.length_append, fill, List.length_replicate]
  have lt := Nat.mod_lt bs.length pos
  by_cases even : bs.length % k = 0
  · rw [even, Nat.sub_zero, Nat.mod_self, Nat.add_zero]
    exact Nat.dvd_of_mod_eq_zero even
  · rw [Nat.mod_eq_of_lt (by omega : k - bs.length % k < k)]
    have split := Nat.div_add_mod bs.length k
    refine ⟨bs.length / k + 1, ?_⟩
    rw [Nat.mul_add]
    omega

theorem length_groups (pos : 0 < k) {xs : List Bool} (whole : k ∣ xs.length) : k * (groups k xs).length = xs.length := by
  have sum : ∀ gs : List (List Bool), (∀ g ∈ gs, g.length = k) → gs.flatten.length = k * gs.length := by
    intro gs all
    induction gs with
    | nil => rfl
    | cons g gs ih =>
        rw [List.flatten_cons, List.length_append, ih fun g hg => all g (List.mem_cons_of_mem _ hg),
          all g List.mem_cons_self, List.length_cons, Nat.mul_succ, Nat.add_comm]
  rw [← sum _ fun g hg => mem_groups hg, flatten_groups pos whole]

theorem length_bytesBits (bs : List UInt8) : (bytesBits bs).length = 8 * bs.length := by
  induction bs with
  | nil => rfl
  | cons b bs ih =>
      rw [bytesBits, List.flatMap_cons, List.length_append, length_bits, ← bytesBits, ih, List.length_cons, Nat.mul_succ,
        Nat.add_comm]

/-- Bytes that make up whole digits. -/
theorem length_digits (pos : 0 < k) {bs : List UInt8} (whole : k ∣ 8 * bs.length) :
    k * (digits k bs).length = 8 * bs.length := by
  have none : fill k (bytesBits bs) = [] := by
    rw [fill, length_bytesBits, Nat.mod_eq_zero_of_dvd whole, Nat.sub_zero, Nat.mod_self]
    rfl
  rw [digits, List.length_map, none, List.append_nil, length_groups pos (length_bytesBits bs ▸ whole), length_bytesBits]

theorem bits_digits {gs : List (List Bool)} (whole : ∀ g ∈ gs, g.length = k) : (gs.map value).flatMap (bits k) = gs.flatten := by
  induction gs with
  | nil => rfl
  | cons g gs ih =>
      rw [List.map_cons, List.flatMap_cons, List.flatten_cons, ih fun g hg => whole g (List.mem_cons_of_mem _ hg)]
      have same := bits_value g
      rw [whole g List.mem_cons_self] at same
      rw [same]

theorem groups_bytesBits (bs : List UInt8) {rest : List Bool} (short : rest.length < 8) :
    groups 8 (bytesBits bs ++ rest) = bs.map fun b => bits 8 b.toNat := by
  apply groups_flatMap (by decide) (fun b : UInt8 => bits 8 b.toNat)
  · intro b
    exact length_bits 8 b.toNat
  · exact short

theorem byte_bits (b : UInt8) : UInt8.ofNat (value (bits 8 b.toNat)) = b := by
  rw [value_bits, Nat.mod_eq_of_lt b.toNat_lt, UInt8.ofNat_toNat]

/-- Bytes are read back from their digits. -/
theorem bytes_digits (pos : 0 < k) (le : k ≤ 8) (bs : List UInt8) : bytes k (digits k bs) = bs := by
  have back : (digits k bs).flatMap (bits k) = bytesBits bs ++ fill k (bytesBits bs) := by
    rw [digits, bits_digits fun g hg => mem_groups hg, flatten_groups pos (fill_whole pos (bytesBits bs))]
  have short : (fill k (bytesBits bs)).length < 8 := by
    rw [fill, List.length_replicate]
    exact (Nat.mod_lt _ pos).trans_le le
  rw [bytes, back, groups_bytesBits bs short, List.map_map]
  conv_rhs => rw [← List.map_id bs]
  exact List.map_congr_left fun b _ => byte_bits b

theorem length_flatMap_bits (k : Nat) (ds : List Nat) : (ds.flatMap (bits k)).length = k * ds.length := by
  induction ds with
  | nil => rfl
  | cons d ds ih =>
      rw [List.flatMap_cons, List.length_append, length_bits, ih, List.length_cons, Nat.mul_succ, Nat.add_comm]

theorem bytesBits_bytes {ds : List Nat} (whole : 8 ∣ k * ds.length) : bytesBits (bytes k ds) = ds.flatMap (bits k) := by
  have back : ∀ gs : List (List Bool), (∀ g ∈ gs, g.length = 8) →
      bytesBits (gs.map fun g => UInt8.ofNat (value g)) = gs.flatten := by
    intro gs eights
    induction gs with
    | nil => rfl
    | cons g gs ih =>
        have eight := eights g List.mem_cons_self
        have same := bits_value g
        have lt : value g < 256 := by
          have mod := value_bits g.length (value g)
          rw [same, eight] at mod
          rw [mod]
          exact Nat.mod_lt _ (by decide)
        rw [eight] at same
        rw [List.flatten_cons, ← ih fun g hg => eights g (List.mem_cons_of_mem _ hg), List.map_cons, bytesBits,
          List.flatMap_cons, ← bytesBits, UInt8.toNat_ofNat', Nat.mod_eq_of_lt lt, same]
  rw [bytes, back _ fun g hg => mem_groups hg, flatten_groups (by decide) (by rwa [length_flatMap_bits])]

/-- Digits that make up whole bytes are those of the bytes. -/
theorem digits_bytes (pos : 0 < k) {ds : List Nat} (small : ∀ d ∈ ds, d < 2 ^ k) (whole : 8 ∣ k * ds.length) :
    digits k (bytes k ds) = ds := by
  have full : fill k (ds.flatMap (bits k)) = [] := by
    rw [fill, length_flatMap_bits, Nat.mul_mod_right, Nat.sub_zero, Nat.mod_self]
    rfl
  have split : groups k (ds.flatMap (bits k) ++ []) = ds.map (bits k) := groups_flatMap pos (bits k) (length_bits k) ds pos
  rw [digits, bytesBits_bytes whole, full, split, List.map_map]
  conv_rhs => rw [← List.map_id ds]
  refine List.map_congr_left fun d hd => ?_
  rw [Function.comp, value_bits, Nat.mod_eq_of_lt (small d hd), id]

end

/-! ## Alphabets -/

/-- Characters for the digits of `k` bits, and the digits that characters are read as; other characters are not read. -/
structure Alphabet (k : Nat) where
  char : Nat → Char
  digit? : Char → Option Nat
  reads : ∀ d < 2 ^ k, digit? (char d) = some d
  pos : 0 < k
  le : k ≤ 8

namespace Alphabet
variable {k : Nat} (α : Alphabet k)

def encode (bs : List UInt8) : String := .ofList ((digits k bs).map α.char)

def decode (s : String) : List UInt8 := bytes k (s.toList.filterMap α.digit?)

theorem length_encode {bs : List UInt8} (whole : k ∣ 8 * bs.length) : k * (α.encode bs).length = 8 * bs.length := by
  rw [encode, String.length_ofList, List.length_map, length_digits α.pos whole]

theorem mem_encode {bs : List UInt8} {c : Char} (h : c ∈ (α.encode bs).toList) : ∃ d < 2 ^ k, α.char d = c := by
  rw [encode, String.toList_ofList, List.mem_map] at h
  obtain ⟨d, hd, rfl⟩ := h
  exact ⟨d, digits_lt hd, rfl⟩

theorem digits_encode (bs : List UInt8) : (α.encode bs).toList.filterMap α.digit? = digits k bs := by
  rw [encode, String.toList_ofList, List.filterMap_map]
  conv_rhs => rw [← List.filterMap_some (l := digits k bs)]
  refine List.filterMap_congr fun d hd => ?_
  exact α.reads d (digits_lt hd)

/-- What follows the digits may be anything that is not read, such as padding. -/
theorem decode_encode_append (bs : List UInt8) {rest : String} (unread : ∀ c ∈ rest.toList, α.digit? c = none) :
    α.decode (α.encode bs ++ rest) = bs := by
  have nothing : rest.toList.filterMap α.digit? = [] := List.filterMap_eq_nil_iff.mpr unread
  rw [decode, String.toList_append, List.filterMap_append, digits_encode, nothing, List.append_nil]
  exact bytes_digits α.pos α.le bs

theorem decode_encode (bs : List UInt8) : α.decode (α.encode bs) = bs := by
  have back : α.decode (α.encode bs ++ "") = bs := α.decode_encode_append bs (by simp)
  rwa [String.append_empty] at back

/-- A text of whole bytes in the characters of the digits is that of the bytes that it is read as. -/
theorem encode_decode {s : String} (written : ∀ c ∈ s.toList, ∃ d < 2 ^ k, α.char d = c) (whole : 8 ∣ k * s.length) :
    α.encode (α.decode s) = s := by
  have read : ∀ cs : List Char, (∀ c ∈ cs, ∃ d < 2 ^ k, α.char d = c) →
      (∀ d ∈ cs.filterMap α.digit?, d < 2 ^ k) ∧ (cs.filterMap α.digit?).length = cs.length ∧
        (cs.filterMap α.digit?).map α.char = cs := by
    intro cs written
    induction cs with
    | nil => simp
    | cons c cs ih =>
        obtain ⟨small, length, same⟩ := ih fun c hc => written c (List.mem_cons_of_mem _ hc)
        obtain ⟨d, lt, rfl⟩ := written c List.mem_cons_self
        rw [List.filterMap_cons_some (α.reads d lt)]
        refine ⟨?_, by rw [List.length_cons, length, List.length_cons], by rw [List.map_cons, same]⟩
        intro x hx
        rcases List.mem_cons.mp hx with rfl | hx
        · exact lt
        · exact small x hx
  obtain ⟨small, length, same⟩ := read s.toList written
  rw [encode, decode, digits_bytes α.pos small (by rwa [length, String.length_toList]), same, String.ofList_toList]

end Alphabet

def readWith (alphabet : List Char) (c : Char) : Option Nat := alphabet.idxOf? c

def lowerHex : List Char := "0123456789abcdef".toList

def letters : List Char := "ABCDEFGHIJKLMNOPQRSTUVWXYZabcdefghijklmnopqrstuvwxyz0123456789".toList

def hex : Alphabet 4 where
  char d := lowerHex.getD d '0'
  digit? c := readWith lowerHex c <|> readWith "0123456789ABCDEF".toList c
  reads := by decide
  pos := by decide
  le := by decide

def readBase64 (c : Char) : Option Nat := readWith (letters ++ ['+', '/']) c <|> readWith (letters ++ ['-', '_']) c

def base64Url : Alphabet 6 where
  char d := (letters ++ ['-', '_']).getD d 'A'
  digit? := readBase64
  reads := by decide
  pos := by decide
  le := by decide

end Encoding
