import KernelCore.Fault

namespace KernelCore

/-- One more than the largest word. -/
def wordLimit : Nat := 18446744073709551616

namespace Word

/-- The sum of two words, if it is one. -/
def add (a b : Nat) : Except Fault Nat :=
  if a + b < wordLimit then .ok (a + b) else .error .addOverflow

/-- The difference of two words, if it is one. -/
def sub (a b : Nat) : Except Fault Nat :=
  if b ≤ a then .ok (a - b) else .error .subOverflow

/-- The sum modulo the size of a word. -/
def wrappingAdd (a b : Nat) : Nat := (a + b) % wordLimit

theorem sub_eq_ok_iff {a b c : Nat} : sub a b = .ok c ↔ a = b + c := by
  unfold sub
  split <;> simp <;> omega

theorem add_of_lt {a b : Nat} (fits : a + b < wordLimit) : add a b = .ok (a + b) := if_pos fits

theorem add_of_not_lt {a b : Nat} (large : ¬a + b < wordLimit) : add a b = .error .addOverflow := if_neg large

theorem sub_of_le {a b : Nat} (ordered : b ≤ a) : sub a b = .ok (a - b) := if_pos ordered

end Word
end KernelCore
