import KernelCore.Word.Basic

namespace KernelCore.Session

/-- What an address is reckoned from. -/
inductive Anchor where
  | address (addr : Nat)
  | named (name : String)
deriving DecidableEq, Repr

structure Operand where
  anchor : Anchor
  displacement : Int
deriving DecidableEq, Repr

/-- Names and the addresses that they are bound to, the latest binding first. -/
abbrev Names := List (String × Nat)

namespace Operand

/-- The address that an operand stands for, modulo the size of a word. A name that is not bound stands
for zero. -/
def resolve (operand : Operand) (names : Names) : Nat :=
  let anchor : Nat := match operand.anchor with
    | .address addr => addr
    | .named name => (names.lookup name).getD 0
  ((anchor + operand.displacement) % wordLimit).toNat

end Operand
end KernelCore.Session
