namespace KernelCore.Log

/-- How grave a message is. -/
inductive Level where
  | error
  | warn
  | info
  | debug
  | trace
deriving DecidableEq, Repr

namespace Level

/-- The gravest level comes first. -/
def rank : Level → Nat
  | error => 1
  | warn => 2
  | info => 3
  | debug => 4
  | trace => 5

/-- The name of a level, five columns wide and flush right. -/
def label : Level → String
  | error => "ERROR"
  | warn => " WARN"
  | info => " INFO"
  | debug => "DEBUG"
  | trace => "TRACE"

/-- Whether a message of this level passes where only `limit` and graver messages do. -/
def passes (level limit : Level) : Bool := level.rank ≤ limit.rank

end Level

/-- The least grave level that reaches the serial line. -/
def serialLimit : Level := .debug

/-- A message with its level and its source. -/
structure Record where
  level : Level
  target : String
  text : String
deriving DecidableEq, Repr

/-- A number in at least eight columns, flush right. -/
def paddedTicks (ticks : Nat) : String :=
  let digits := toString ticks
  String.ofList (List.replicate (8 - digits.length) ' ') ++ digits

/-- The text of a record at a given time, without the end of the line. -/
def Record.line (record : Record) (ticks : Nat) : String :=
  "[" ++ paddedTicks ticks ++ "] " ++ record.level.label ++ " " ++ record.target ++ ": " ++ record.text

/-- A word in base sixteen, with its mark. -/
def hex (n : Nat) : String := "0x" ++ String.ofList (Nat.toDigits 16 n)

end KernelCore.Log
