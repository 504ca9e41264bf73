import ClassCompiler.Binary32
import ClassCompiler.DataType
import ClassCompiler.Quoted

/-!
The instructions of the stack machine: what each takes from the operand stack and leaves on it,
where it may jump, and the line of assembler text that stands for it.
-/
namespace ClassCompiler

structure Label where
  index : Nat
  deriving DecidableEq, Repr

def Label.text (l : Label) : String := s!"L{l.index}"

inductive ValueKind where
  | int
  | float
  | reference
  deriving DecidableEq, Repr

namespace ValueKind

def letter : ValueKind → String
  | int => "i"
  | float => "f"
  | reference => "a"

def of? : DataType → Option ValueKind
  | .int | .bool | .char => some int
  | .float => some float
  | .string | .self => some reference
  | .void => none

theorem ofNoneIff {ty : DataType} : of? ty = none ↔ ty = .void := by
  cases ty <;> simp [of?]

end ValueKind

inductive ArithOp where
  | add
  | sub
  | mul
  | div
  | rem
  deriving DecidableEq, Repr

def ArithOp.text : ArithOp → String
  | add => "add"
  | sub => "sub"
  | mul => "mul"
  | div => "div"
  | rem => "rem"

inductive Condition where
  | eq
  | ne
  | lt
  | ge
  | gt
  | le
  deriving DecidableEq, Repr

namespace Condition

def text : Condition → String
  | eq => "eq"
  | ne => "ne"
  | lt => "lt"
  | ge => "ge"
  | gt => "gt"
  | le => "le"

def negate : Condition → Condition
  | eq => ne
  | ne => eq
  | lt => ge
  | ge => lt
  | gt => le
  | le => gt

end Condition

inductive Constant where
  | int (value : Int)
  | float (value : Binary32)
  | string (value : String)
  deriving DecidableEq, Repr

def Constant.text : Constant → String
  | int value => toString value
  | float value => value.text
  | string value => Quoted.quote value

/-- The three branches compare the top of the stack with zero, two integers, and two references.
A call takes its receiver and `args` more values. -/
inductive Instruction where
  | iconst (value : Int)
  | bipush (value : Int)
  | sipush (value : Int)
  | ldc (constant : Constant)
  | load (kind : ValueKind) (slot : Nat)
  | store (kind : ValueKind) (slot : Nat)
  | arith (kind : ValueKind) (op : ArithOp)
  | fcmpl
  | branch (cond : Condition) (target : Label)
  | branchInt (cond : Condition) (target : Label)
  | branchRef (cond : Condition) (target : Label)
  | goto (target : Label)
  | label (place : Label)
  | dup
  | pop
  | ret (kind : Option ValueKind)
  | new (className : String)
  | getStatic (field : String)
  | invokeSpecial (target : String) (args : Nat)
  | invokeVirtual (target : String) (args : Nat) (returns : Bool)
  deriving DecidableEq, Repr

namespace Instruction

def pops : Instruction → Nat
  | store .. | pop | branch .. | dup | ret (some _) => 1
  | arith .. | fcmpl | branchInt .. | branchRef .. => 2
  | invokeSpecial _ args | invokeVirtual _ args _ => 1 + args
  | iconst _ | bipush _ | sipush _ | ldc _ | load .. | new _ | getStatic _ | goto _ | label _
  | ret none => 0

def pushes : Instruction → Nat
  | iconst _ | bipush _ | sipush _ | ldc _ | load .. | new _ | getStatic _ | arith .. | fcmpl => 1
  | dup => 2
  | invokeVirtual _ _ returns => if returns then 1 else 0
  | store .. | pop | branch .. | branchInt .. | branchRef .. | goto _ | label _ | ret _
  | invokeSpecial .. => 0

def jumpTarget? : Instruction → Option Label
  | branch _ l | branchInt _ l | branchRef _ l | goto l => some l
  | _ => none

def isTerminal : Instruction → Bool
  | goto _ | ret _ => true
  | _ => false

def slotText (kind : ValueKind) (verb : String) (slot : Nat) : String :=
  if slot ≤ 3 then s!"{kind.letter}{verb}_{slot}" else s!"{kind.letter}{verb} {slot}"

def text : Instruction → String
  | iconst value => if value = -1 then "iconst_m1" else s!"iconst_{value}"
  | bipush value => s!"bipush {value}"
  | sipush value => s!"sipush {value}"
  | ldc constant => s!"ldc {constant.text}"
  | load kind slot => slotText kind "load" slot
  | store kind slot => slotText kind "store" slot
  | arith kind op => s!"{kind.letter}{op.text}"
  | fcmpl => "fcmpl"
  | branch cond l => s!"if{cond.text} {l.text}"
  | branchInt cond l => s!"if_icmp{cond.text} {l.text}"
  | branchRef cond l => s!"if_acmp{cond.text} {l.text}"
  | goto l => s!"goto {l.text}"
  | label l => s!"{l.text}:"
  | dup => "dup"
  | pop => "pop"
  | ret (some kind) => s!"{kind.letter}return"
  | ret none => "return"
  | new className => s!"new {className}"
  | getStatic field => s!"getstatic {field}"
  | invokeSpecial target _ => s!"invokespecial {target}"
  | invokeVirtual target _ _ => s!"invokevirtual {target}"

def pushInt (value : Int) : Instruction :=
  if -1 ≤ value ∧ value ≤ 5 then iconst value
  else if -128 ≤ value ∧ value ≤ 127 then bipush value
  else if -32768 ≤ value ∧ value ≤ 32767 then sipush value
  else ldc (.int value)

def pushBool (value : Bool) : Instruction := iconst (if value then 1 else 0)

/-- Ends a test with its truth value: `fallthrough` if control comes here from above, and its
opposite if it came to `taken` by a jump. -/
def selectBool (fallthrough : Bool) (taken done : Label) : List Instruction :=
  [pushBool fallthrough, goto done, label taken, pushBool (!fallthrough), label done]

end Instruction
end ClassCompiler
