import Mathlib.Algebra.GroupWithZero.Nat
import Mathlib.Data.Nat.Init

/-!
# Serial numbers with a tag

A serial number of at most `w` bits, with a tag above them. The tag is read back by a shift, the serial number is what is
left of it, and so numbers with different serial numbers differ whatever their tags are.
-/

namespace Csf.Lib

/-- The serial number `k` with a tag above its `w` bits. -/
def tagged (w tag k : Nat) : Nat := tag * 2 ^ w + k

variable {w tag tag' k k' : Nat}

theorem tagged_shiftRight (h : k < 2 ^ w) : tagged w tag k >>> w = tag := by
  rw [tagged, Nat.shiftRight_eq_div_pow, Nat.mul_comm, Nat.mul_add_div (Nat.two_pow_pos w), Nat.div_eq_of_lt h,
    Nat.add_zero]

theorem tagged_mod (h : k < 2 ^ w) : tagged w tag k % 2 ^ w = k := by
  rw [tagged, Nat.mul_comm, Nat.mul_add_mod, Nat.mod_eq_of_lt h]

theorem tagged_lt_tagged_iff : tagged w tag k < tagged w tag k' ↔ k < k' := Nat.add_lt_add_iff_left

theorem tagged_ne_tagged (hk : k < 2 ^ w) (hk' : k' < 2 ^ w) (hne : k ≠ k') : tagged w tag k ≠ tagged w tag' k' := by
  intro heq
  apply hne
  calc
    k = tagged w tag k % 2 ^ w := (tagged_mod hk).symm
    _ = tagged w tag' k' % 2 ^ w := by rw [heq]
    _ = k' := tagged_mod hk'

theorem tagged_lt {v : Nat} (htag : tag < 2 ^ v) (hk : k < 2 ^ w) : tagged w tag k < 2 ^ (v + w) := by
  have hle : (tag + 1) * 2 ^ w ≤ 2 ^ v * 2 ^ w := Nat.mul_le_mul_right _ htag
  rw [Nat.add_mul, Nat.one_mul] at hle
  rw [tagged, Nat.pow_add]
  omega

end Csf.Lib
