import ClassCompiler.DataType

/-!
The operators of the language, and the operations that it provides without a declaration:
printing a line, reading a value from the console and drawing a random number.
-/
namespace ClassCompiler

inductive BinaryOp where
  | or
  | and
  | equal
  | notEqual
  | less
  | lessEqual
  | greater
  | greaterEqual
  | add
  | sub
  | mul
  | div
  | mod
  deriving DecidableEq, Repr

/-- Operators of one group share their typing rule and their code shape. -/
inductive OpGroup where
  | logical
  | relational
  | arithmetic
  deriving DecidableEq, Repr

namespace BinaryOp

def text : BinaryOp → String
  | or => "||"
  | and => "&&"
  | equal => "=="
  | notEqual => "!="
  | less => "<"
  | lessEqual => "<="
  | greater => ">"
  | greaterEqual => ">="
  | add => "+"
  | sub => "-"
  | mul => "*"
  | div => "/"
  | mod => "%"

def group : BinaryOp → OpGroup
  | or | and => .logical
  | equal | notEqual | less | lessEqual | greater | greaterEqual => .relational
  | add | sub | mul | div | mod => .arithmetic

def isEquality : BinaryOp → Bool
  | equal | notEqual => true
  | _ => false

end BinaryOp

inductive Input where
  | int
  | float
  | bool
  | line
  deriving DecidableEq, Repr

inductive Intrinsic where
  | writeLine
  | read (input : Input)
  | randomInt
  deriving DecidableEq, Repr

namespace Intrinsic

def name : Intrinsic → String
  | writeLine => "WriteLine"
  | read .int => "ReadInt"
  | read .float => "ReadFloat"
  | read .bool => "ReadBool"
  | read .line => "ReadLine"
  | randomInt => "RandomInt"

def resultType : Intrinsic → DataType
  | writeLine => .void
  | read .int => .int
  | read .float => .float
  | read .bool => .bool
  | read .line => .string
  | randomInt => .int

def isConsoleRead : Intrinsic → Bool
  | read _ => true
  | _ => false

end Intrinsic
end ClassCompiler
