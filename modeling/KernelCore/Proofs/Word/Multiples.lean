import KernelCore.Word.RoundingLemmas
import Mathlib.Order.Bounds.Basic

namespace KernelCore.Word
variable {value align up : Nat}

/-- A multiple that is less than one alignment above a value is the least one that is not below it. -/
theorem isLeast_of_lt_add (multiple : align ∣ up) (above : value ≤ up) (near : up < value + align) :
    IsLeast {m | align ∣ m ∧ value ≤ m} up := by
  refine ⟨⟨multiple, above⟩, ?_⟩
  rintro m ⟨divides, lower⟩
  exact Nat.le_of_lt_add_of_dvd (Nat.lt_of_lt_of_le near (Nat.add_le_add_right lower align)) multiple divides

theorem isLeast_div_mul (value : Nat) (positive : 0 < align) :
    IsLeast {m | align ∣ m ∧ value ≤ m} ((value + align - 1) / align * align) := by
  obtain ⟨above, near⟩ := roundUp_bounds value positive
  exact isLeast_of_lt_add (Nat.dvd_mul_left ..) above near

theorem lt_add_of_isLeast (positive : 0 < align) (least : IsLeast {m | align ∣ m ∧ value ≤ m} up) :
    up < value + align := by
  rw [least.unique (isLeast_div_mul value positive)]
  exact (roundUp_bounds value positive).2

/-- Behind a multiple among the words there is room for one more alignment. -/
theorem add_le_wordLimit (divides : align ∣ wordLimit) (multiple : align ∣ up) (word : up < wordLimit) :
    up + align ≤ wordLimit := by
  have rest : align ≤ wordLimit - up := Nat.le_of_dvd (Nat.sub_pos_of_lt word) (Nat.dvd_sub divides multiple)
  omega

/-- The least multiple is a word exactly if the value can be raised by all but one of the alignment. -/
theorem lt_wordLimit_iff (positive : 0 < align) (divides : align ∣ wordLimit)
    (least : IsLeast {m | align ∣ m ∧ value ≤ m} up) : up < wordLimit ↔ value + (align - 1) < wordLimit := by
  obtain ⟨multiple, above⟩ := least.1
  have near := lt_add_of_isLeast positive least
  constructor
  · intro word
    have room := add_le_wordLimit divides multiple word
    omega
  · omega

/-- It can be raised by the whole alignment if besides it is not the last multiple. -/
theorem add_lt_wordLimit_iff (positive : 0 < align) (divides : align ∣ wordLimit)
    (least : IsLeast {m | align ∣ m ∧ value ≤ m} up) :
    value + align < wordLimit ↔ up < wordLimit ∧ value ≠ wordLimit - align := by
  have fits := lt_wordLimit_iff positive divides least
  omega

/-- The last multiple is the least one that is not below it. -/
theorem eq_of_last (divides : align ∣ wordLimit) (least : IsLeast {m | align ∣ m ∧ value ≤ m} up)
    (last : value = wordLimit - align) : up = value := by
  have multiple : align ∣ value := last ▸ Nat.dvd_sub divides (Nat.dvd_refl align)
  exact Nat.le_antisymm (least.2 ⟨multiple, Nat.le_refl value⟩) least.1.2

theorem alignUp?_of_isLeast {k : Nat} (small : 2 ^ k < wordLimit) (least : IsLeast {m | 2 ^ k ∣ m ∧ value ≤ m} up) :
    alignUp? value (2 ^ k) = .ok (if up < wordLimit then some up else none) := by
  have positive : 0 < 2 ^ k := Nat.two_pow_pos k
  have fits := lt_wordLimit_iff positive (dvd_wordLimit small) least
  rw [alignUp?, if_neg (Nat.ne_of_gt positive), roundUp?]
  by_cases raised : value + (2 ^ k - 1) < wordLimit
  · rw [if_pos raised, if_pos (fits.mpr raised), roundDown_two_pow (Nat.le_of_lt (exponent_lt small)) raised,
      least.unique (isLeast_div_mul value positive), Nat.add_sub_assoc positive]
  · rw [if_neg raised, if_neg (mt fits.mp raised)]

theorem alignUp_of_isLeast {k : Nat} (small : 2 ^ k < wordLimit) (least : IsLeast {m | 2 ^ k ∣ m ∧ value ≤ m} up) :
    alignUp value (2 ^ k) =
      if up < wordLimit ∧ value ≠ wordLimit - 2 ^ k then .ok up else .error .addOverflow := by
  have positive : 0 < 2 ^ k := Nat.two_pow_pos k
  have fits := add_lt_wordLimit_iff positive (dvd_wordLimit small) least
  by_cases raised : value + 2 ^ k < wordLimit
  · rw [if_pos (fits.mp raised), alignUp_two_pow raised, least.unique (isLeast_div_mul value positive)]
  · rw [if_neg (mt fits.mpr raised), alignUp, add_of_not_lt raised]
    rfl

/-- The two ways of rounding up agree: what the one gives the other gives too, and where it gives `none` the sum that
the other needs is no word. -/
def RoundsAlike (value align : Nat) : Prop :=
  (∀ up, alignUp? value align = .ok (some up) → alignUp value align = .ok up) ∧
    (alignUp value align = .error .addOverflow ↔ alignUp? value align = .ok none)

/-- Rounding up to a power of two comes to the least multiple that is not below the value. One way gives it whenever it
is a word and `none` otherwise. The other way gives it then too, unless the value is the last multiple among the words
and so its own rounding, and meets a sum that is no word otherwise. So the two ways agree for all values but one. -/
theorem roundsAlike_iff (value align : Nat) (small : align < wordLimit) (single : isPowerOfTwo align = true) :
    ∃ up, IsLeast {m | align ∣ m ∧ value ≤ m} up ∧
      alignUp? value align = .ok (if up < wordLimit then some up else none) ∧
      alignUp value align =
        (if up < wordLimit ∧ value ≠ wordLimit - align then .ok up else .error .addOverflow) ∧
      (value = wordLimit - align → up = value) ∧
      (RoundsAlike value align ↔ value ≠ wordLimit - align) := by
  obtain ⟨k, rfl⟩ := exists_of_isPowerOfTwo single
  have least := isLeast_div_mul value (Nat.two_pow_pos k)
  generalize (value + 2 ^ k - 1) / 2 ^ k * 2 ^ k = up at least
  have checked := alignUp?_of_isLeast small least
  have raised := alignUp_of_isLeast small least
  have own := eq_of_last (dvd_wordLimit small) least
  refine ⟨up, least, checked, raised, own, ?_⟩
  rw [RoundsAlike, checked, raised]
  constructor
  · rintro ⟨alike, -⟩ last
    have word : up < wordLimit := by
      rw [own last, last]
      exact Nat.sub_lt (by decide) (Nat.two_pow_pos k)
    rw [if_pos word, if_neg fun other => other.2 last] at alike
    exact nomatch alike up rfl
  · intro other
    by_cases word : up < wordLimit <;> simp [word, other]

/-- With an alignment of eight they differ for the last multiple, and agree right below and right above it. -/
theorem roundsAlike_beside_last :
    RoundsAlike (wordLimit - 9) 8 ∧ ¬RoundsAlike (wordLimit - 8) 8 ∧ RoundsAlike (wordLimit - 7) 8 := by
  obtain ⟨_, -, -, -, -, below⟩ := roundsAlike_iff (wordLimit - 9) 8 (by decide) (by decide)
  obtain ⟨_, -, -, -, -, last⟩ := roundsAlike_iff (wordLimit - 8) 8 (by decide) (by decide)
  obtain ⟨_, -, -, -, -, above⟩ := roundsAlike_iff (wordLimit - 7) 8 (by decide) (by decide)
  exact ⟨below.mpr (by decide), fun alike => last.mp alike rfl, above.mpr (by decide)⟩

/-- From the last multiple of eight, one way gives this multiple back and the other meets a sum that is no word. -/
theorem not_forall_roundsAlike : ¬∀ value align, value < wordLimit → align < wordLimit → isPowerOfTwo align = true →
    RoundsAlike value align := by
  intro alike
  have same : alignUp? (wordLimit - 8) 8 = .ok (some (wordLimit - 8)) := rfl
  have overflows : alignUp (wordLimit - 8) 8 = .error .addOverflow := rfl
  have given := (alike (wordLimit - 8) 8 (by decide) (by decide) (by decide)).1 _ same
  rw [overflows] at given
  cases given

end KernelCore.Word
