import Mathlib.Algebra.Group.Nat.Defs
import Mathlib.Data.Nat.Basic

/-!
# Subnets

A CIDR block tests the masked bits of an address; when its network address is aligned, that is the test for a
numeric interval.
-/

namespace Network

variable {w : Nat}

structure Cidr (w : Nat) where
  network : BitVec w
  prefixLength : Nat
  deriving DecidableEq

def mask (w prefixLength : Nat) : BitVec w := BitVec.allOnes w <<< (w - prefixLength)

namespace Cidr

def contains (c : Cidr w) (address : BitVec w) : Bool :=
  address &&& mask w c.prefixLength = c.network &&& mask w c.prefixLength

/-- The number of addresses of the block. -/
def size (c : Cidr w) : Nat := 2 ^ (w - c.prefixLength)

def first (c : Cidr w) : Nat := c.network.toNat

def last (c : Cidr w) : Nat := c.network.toNat + c.size - 1

/-- The network address has no bit behind the prefix. -/
def Aligned (c : Cidr w) : Prop := c.network.toNat % c.size = 0

instance (c : Cidr w) : Decidable c.Aligned := by
  unfold Aligned
  infer_instance

end Cidr

theorem and_mask (x : BitVec w) (p : Nat) : x &&& mask w p = x >>> (w - p) <<< (w - p) := by
  ext i hi
  simp only [mask, BitVec.getElem_and, BitVec.getElem_shiftLeft, BitVec.getElem_allOnes]
  by_cases low : i < w - p
  · simp [low]
  · have back : w - p + (i - (w - p)) = i := by omega
    simp [low, back, BitVec.getLsbD_eq_getElem hi]

theorem toNat_and_mask (x : BitVec w) (p : Nat) : (x &&& mask w p).toNat = x.toNat / 2 ^ (w - p) * 2 ^ (w - p) := by
  rw [and_mask, BitVec.toNat_shiftLeft, BitVec.toNat_ushiftRight, Nat.shiftRight_eq_div_pow, Nat.shiftLeft_eq]
  apply Nat.mod_eq_of_lt
  exact Nat.lt_of_le_of_lt (Nat.div_mul_le_self _ _) x.isLt

/-- The test of the masked bits is the test for the interval. -/
theorem Cidr.contains_iff {c : Cidr w} (aligned : c.Aligned) (address : BitVec w) :
    c.contains address ↔ c.first ≤ address.toNat ∧ address.toNat ≤ c.last := by
  have pos : 0 < c.size := Nat.two_pow_pos _
  have network := Nat.div_add_mod c.network.toNat c.size
  have split := Nat.div_add_mod address.toNat c.size
  have rest := Nat.mod_lt address.toNat pos
  rw [Aligned] at aligned
  rw [contains, decide_eq_true_eq, ← BitVec.toNat_inj, toNat_and_mask, toNat_and_mask]
  change address.toNat / c.size * c.size = c.network.toNat / c.size * c.size ↔ _
  rw [Nat.mul_left_inj (Nat.ne_of_gt pos), first, last]
  rw [aligned, Nat.add_zero] at network
  constructor
  · intro same
    rw [same, network] at split
    omega
  · rintro ⟨low, high⟩
    apply Nat.div_eq_of_lt_le
    · rw [Nat.mul_comm, network]
      exact low
    · rw [Nat.mul_comm, Nat.mul_add, network]
      omega

end Network
