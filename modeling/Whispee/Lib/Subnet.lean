import Mathlib.Data.Nat.Bitwise
import Mathlib.Algebra.Order.Group.Nat

/-!
# Blocks of addresses

A block is the addresses of some number of bits that begin as its base does: `base/bits`, of a
width that the block does not know.
-/

/-- `base/bits`, of addresses of `width` bits. -/
structure Subnet (width : Nat) where
  base : Nat
  bits : Nat
  deriving DecidableEq

namespace Subnet

variable {width : Nat}

instance : Membership Nat (Subnet width) where
  mem block address := address / 2 ^ (width - block.bits) = block.base / 2 ^ (width - block.bits)

theorem mem_iff {block : Subnet width} {address : Nat} : address ∈ block ↔
    address / 2 ^ (width - block.bits) = block.base / 2 ^ (width - block.bits) := .rfl

instance (block : Subnet width) : DecidablePred (· ∈ block) := fun _ =>
  decidable_of_iff _ mem_iff.symm

/-- The block of the addresses of `prefixBits` more bits that begin with `first`, then with an
address of this one. -/
def under (first prefixBits : Nat) (block : Subnet width) : Subnet (prefixBits + width) where
  base := first * 2 ^ width + block.base
  bits := prefixBits + block.bits

theorem mem_under_iff {block : Subnet width} {address : Nat} (hbits : block.bits ≤ width)
    (haddress : address < 2 ^ width) (hbase : block.base < 2 ^ width) :
    first' * 2 ^ width + address ∈ block.under first prefixBits ↔
      first' = first ∧ address ∈ block := by
  have hrest : prefixBits + width - (prefixBits + block.bits) = width - block.bits := by omega
  have hwidth : 2 ^ width = 2 ^ (width - block.bits) * 2 ^ block.bits := by
    rw [← Nat.pow_add, Nat.sub_add_cancel hbits]
  have hsplit : ∀ n a, (n * 2 ^ width + a) / 2 ^ (width - block.bits) =
      n * 2 ^ block.bits + a / 2 ^ (width - block.bits) := fun n a => by
    rw [hwidth, Nat.mul_left_comm, Nat.mul_add_div (Nat.two_pow_pos _)]
  have hsmall : ∀ a < 2 ^ width, a / 2 ^ (width - block.bits) < 2 ^ block.bits := fun a h =>
    Nat.div_lt_of_lt_mul (hwidth ▸ h)
  rw [mem_iff, mem_iff, under, hrest, hsplit, hsplit]
  refine ⟨fun h => ?_, fun ⟨hfirst, h⟩ => by rw [hfirst, h]⟩
  have hfirst := congrArg (· / 2 ^ block.bits) h
  have hlast := congrArg (· % 2 ^ block.bits) h
  simp only [Nat.mul_add_mod_self_right, Nat.mod_eq_of_lt (hsmall _ haddress),
    Nat.mod_eq_of_lt (hsmall _ hbase)] at hlast
  simp only [Nat.mul_comm _ (2 ^ block.bits), Nat.mul_add_div (Nat.two_pow_pos _),
    Nat.div_eq_of_lt (hsmall _ haddress), Nat.div_eq_of_lt (hsmall _ hbase)] at hfirst
  exact ⟨hfirst, hlast⟩

/-- What a mask of the first bits keeps. -/
theorem and_mask {n : Nat} (h : n < 2 ^ (low + high)) :
    n &&& 2 ^ low * (2 ^ high - 1) = 2 ^ low * (n / 2 ^ low) := by
  refine Nat.eq_of_testBit_eq fun i => ?_
  rw [Nat.testBit_and, Nat.testBit_two_pow_mul, Nat.testBit_two_pow_mul, Nat.testBit_div_two_pow,
    Nat.testBit_two_pow_sub_one]
  by_cases hlow : low ≤ i
  · rw [Nat.sub_add_cancel hlow]
    by_cases hhigh : i - low < high
    · simp [hlow, hhigh]
    · have hlarge : 2 ^ (low + high) ≤ 2 ^ i := Nat.pow_le_pow_right Nat.two_pos (by omega)
      simp [Nat.testBit_lt_two_pow (h.trans_le hlarge)]
  · simp [hlow]

end Subnet
