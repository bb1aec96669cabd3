import KernelCore.Word.Rounding
import Mathlib.Algebra.Group.Nat.Defs

namespace KernelCore.Word

theorem exponent_lt {k : Nat} (word : 2 ^ k < wordLimit) : k < 64 := (Nat.pow_lt_pow_iff_right Nat.one_lt_two).mp word

/-- A power of two that is a word divides the number of words. -/
theorem dvd_wordLimit {k : Nat} (word : 2 ^ k < wordLimit) : 2 ^ k ∣ wordLimit :=
  Nat.pow_dvd_pow 2 (Nat.le_of_lt (exponent_lt word))

/-- Clearing low bits is division by the power of two followed by multiplication. -/
theorem roundDown_two_pow {value k : Nat} (small : k ≤ 64) (word : value < wordLimit) :
    roundDown value (2 ^ k) = value / 2 ^ k * 2 ^ k := by
  have cleared := roundDown_shiftLeft small word
  rwa [Nat.one_shiftLeft, Nat.shiftLeft_eq, Nat.shiftRight_eq_div_pow] at cleared

/-- A number with exactly one bit is a power of two. -/
theorem exists_of_isPowerOfTwo {n : Nat} (single : isPowerOfTwo n = true) : ∃ k, n = 2 ^ k := by
  refine Nat.ne_zero_and_sub_one_eq_zero_iff_isPowerOfTwo.mp ?_
  simpa [isPowerOfTwo] using single

/-- Rounding up to a power of two, where the sums on the way are words. -/
theorem alignUp_two_pow {value k : Nat} (fits : value + 2 ^ k < wordLimit) :
    alignUp value (2 ^ k) = .ok ((value + 2 ^ k - 1) / 2 ^ k * 2 ^ k) := by
  have pos : 0 < 2 ^ k := Nat.two_pow_pos k
  have small : k < 64 := exponent_lt (by omega)
  unfold alignUp
  rw [add_of_lt fits]
  dsimp only [bind, Except.bind]
  rw [sub_of_le (by omega)]
  dsimp only
  rw [alignDown, if_neg (by omega), roundDown_two_pow (by omega) (by omega)]

/-- The multiple that rounding up gives is less than one alignment above. -/
theorem roundUp_bounds (value : Nat) {align : Nat} (positive : 0 < align) :
    value ≤ (value + align - 1) / align * align ∧ (value + align - 1) / align * align < value + align := by
  have split := Nat.div_add_mod (value + align - 1) align
  have small := Nat.mod_lt (value + align - 1) positive
  rw [Nat.mul_comm] at split
  omega

/-- Rounding up gives the least multiple of the alignment that is not below. -/
theorem exists_alignUp {value align : Nat} (single : isPowerOfTwo align = true) (fits : value + align < wordLimit) :
    ∃ up, alignUp value align = .ok up ∧ up % align = 0 ∧ value ≤ up ∧ up < value + align := by
  obtain ⟨k, rfl⟩ := exists_of_isPowerOfTwo single
  exact ⟨_, alignUp_two_pow fits, Nat.mul_mod_left .., roundUp_bounds value (Nat.two_pow_pos k)⟩

/-- Rounding up a multiple of eight gives a multiple of eight, also where the alignment is smaller. -/
theorem eight_dvd_of_alignUp {value up align : Nat} (single : isPowerOfTwo align = true) (whole : value % 8 = 0)
    (multiple : up % align = 0) (lower : value ≤ up) (upper : up < value + align) : up % 8 = 0 := by
  obtain ⟨k, rfl⟩ := exists_of_isPowerOfTwo single
  by_cases large : 3 ≤ k
  · have divides : 2 ^ 3 ∣ 2 ^ k := Nat.pow_dvd_pow 2 large
    exact Nat.mod_eq_zero_of_dvd (Nat.dvd_trans divides (Nat.dvd_of_mod_eq_zero multiple))
  · obtain rfl | rfl | rfl : k = 0 ∨ k = 1 ∨ k = 2 := by omega
    all_goals omega

end KernelCore.Word
