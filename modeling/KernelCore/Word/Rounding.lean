import KernelCore.Word.Basic

namespace KernelCore.Word

/-- Clears the bits below a power of two. -/
def roundDown (value align : Nat) : Nat := value &&& (wordLimit - align)

/-- The next multiple of a power of two, if it is a word. -/
def roundUp? (value align : Nat) : Option Nat :=
  if value + (align - 1) < wordLimit then some (roundDown (value + (align - 1)) align) else none

/-- Rounds down to a multiple of any alignment. -/
def alignDown (value align : Nat) : Except Fault Nat :=
  if align = 0 then .error .subOverflow else .ok (roundDown value align)

/-- Rounds up to a multiple of any alignment, adding the whole alignment before it takes one away. -/
def alignUp (value align : Nat) : Except Fault Nat := do
  let raised ← add value align
  let last ← sub raised 1
  alignDown last align

/-- Rounds up to a multiple of any alignment, with `none` where the multiple is no word. -/
def alignUp? (value align : Nat) : Except Fault (Option Nat) :=
  if align = 0 then .error .subOverflow else .ok (roundUp? value align)

/-- Whether a number has exactly one bit. -/
def isPowerOfTwo (n : Nat) : Bool := n != 0 && n &&& (n - 1) == 0

/-- Clearing low bits shifts them out and zeros back in. -/
theorem roundDown_shiftLeft {value k : Nat} (small : k ≤ 64) (word : value < wordLimit) :
    roundDown value (1 <<< k) = value >>> k <<< k := by
  have limit : wordLimit = 2 ^ 64 := rfl
  unfold roundDown
  rw [limit] at word ⊢
  rw [Nat.one_shiftLeft, Nat.shiftLeft_eq, Nat.shiftRight_eq_div_pow]
  apply Nat.eq_of_testBit_eq
  intro i
  have mask : (2 ^ 64 - 2 ^ k : Nat) = 2 ^ k * (2 ^ (64 - k) - 1) := by
    rw [Nat.mul_sub, ← Nat.pow_add, Nat.add_sub_cancel' small, Nat.mul_one]
  rw [Nat.testBit_and, mask, Nat.testBit_two_pow_mul, Nat.testBit_two_pow_sub_one,
    Nat.mul_comm, Nat.testBit_two_pow_mul, Nat.testBit_div_two_pow]
  by_cases above : k ≤ i
  · have same : i - k + k = i := by omega
    simp only [above, decide_true, Bool.true_and, same]
    by_cases inside : i < 64
    · have : i - k < 64 - k := by omega
      simp [this]
    · have : value.testBit i = false :=
        Nat.testBit_lt_two_pow (Nat.lt_of_lt_of_le word (Nat.pow_le_pow_right (by decide) (by omega)))
      simp [this]
  · simp [above]

theorem roundDown_eight {value : Nat} (word : value < wordLimit) :
    roundDown value 8 = value / 8 * 8 := by
  have cleared := roundDown_shiftLeft (k := 3) (by decide) word
  rwa [Nat.shiftLeft_eq (value >>> 3), Nat.shiftRight_eq_div_pow] at cleared

/-- A rounded value is a multiple of the alignment, whatever was rounded. -/
theorem roundDown_eight_mod (value : Nat) : roundDown value 8 % 8 = 0 := by
  have split := Nat.and_mod_two_pow (a := value) (b := wordLimit - 8) (n := 3)
  have none : (wordLimit - 8) % 2 ^ 3 = 0 := rfl
  rw [none, Nat.and_zero] at split
  exact split

/-- Rounding up to a multiple of eight gives the least such multiple. -/
theorem roundUp?_eight_eq_some_iff {value up : Nat} :
    roundUp? value 8 = some up ↔ up < wordLimit ∧ up % 8 = 0 ∧ value ≤ up ∧ up < value + 8 := by
  unfold roundUp?
  have limit : wordLimit = 18446744073709551616 := rfl
  split
  case isTrue fits => rw [roundDown_eight (by omega), Option.some.injEq]; omega
  case isFalse big => simp only [reduceCtorEq, false_iff]; omega

end KernelCore.Word
