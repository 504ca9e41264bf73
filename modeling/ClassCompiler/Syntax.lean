import ClassCompiler.Binary32
import ClassCompiler.Operator
import ClassCompiler.Span

/-!
Programs as trees. Every node carries a tag; once a tree is numbered the tag is the node's number,
by which tables keep facts about it. The spans of binary expressions, assignments, else clauses
and whole programs follow from the spans of their parts.
-/
namespace ClassCompiler

structure NodeId where
  index : Nat
  deriving DecidableEq, Repr

def NodeId.text (n : NodeId) : String := s!"node_{n.index}"

inductive Literal where
  | int (value : Int)
  | float (value : Binary32)
  | bool (value : Bool)
  | char (value : Char)
  | string (value : String)
  deriving DecidableEq, Repr

def Literal.dataType : Literal → DataType
  | int _ => .int
  | float _ => .float
  | bool _ => .bool
  | char _ => .char
  | string _ => .string

inductive Expr (τ : Type) where
  | literal (tag : τ) (value : Literal) (span : Span)
  | var (tag : τ) (name : String) (span : Span)
  | binary (tag : τ) (op : BinaryOp) (left right : Expr τ)
  | not (tag : τ) (operand : Expr τ) (span : Span)
  | assign (tag : τ) (target value : Expr τ)
  | call (tag : τ) (method : String) (args : List (Expr τ)) (span : Span)
  | writeLine (tag : τ) (value : Expr τ) (span : Span)
  | read (tag : τ) (input : Input) (span : Span)
  | random (tag : τ) (span : Span)
  | randomBelow (tag : τ) (bound : Expr τ) (span : Span)
  deriving Repr

namespace Expr
variable {τ : Type}

def tag : Expr τ → τ
  | literal t .. | var t .. | binary t .. | not t .. | assign t .. | call t .. | writeLine t ..
  | read t .. | random t .. | randomBelow t .. => t

def span : Expr τ → Span
  | binary _ _ left right => left.span.merge right.span
  | assign _ target value => target.span.merge value.span
  | literal _ _ s | var _ _ s | not _ _ s | call _ _ _ s | writeLine _ _ s | read _ _ s
  | random _ s | randomBelow _ _ s => s

def asName : Expr τ → Option String
  | var _ x _ => some x
  | _ => none

end Expr

structure Declarator (τ : Type) where
  tag : τ
  name : String
  init : Option (Expr τ)
  span : Span
  deriving Repr

/-- A declaration without a type takes the type of each variable from its initial value. -/
inductive Stmt (τ : Type) where
  | expr (tag : τ) (value : Expr τ) (span : Span)
  | declare (tag : τ) (type : Option DataType) (vars : List (Declarator τ)) (span : Span)
  | ret (tag : τ) (value : Option (Expr τ)) (span : Span)
  | block (tag : τ) (body : List (Stmt τ)) (span : Span)
  | ifThen (tag : τ) (cond : Expr τ) (yes : Stmt τ) (span : Span)
  | ifElse (tag : τ) (cond : Expr τ) (yes : Stmt τ) (elseTag : τ) (no : Stmt τ) (span : Span)
  | loop (tag : τ) (cond : Expr τ) (body : Stmt τ) (span : Span)
  deriving Repr

namespace Stmt
variable {τ : Type}

def tag : Stmt τ → τ
  | expr t .. | declare t .. | ret t .. | block t .. | ifThen t .. | ifElse t .. | loop t .. => t

def span : Stmt τ → Span
  | expr _ _ s | declare _ _ _ s | ret _ _ s | block _ _ s | ifThen _ _ _ s | ifElse _ _ _ _ _ s
  | loop _ _ _ s => s

end Stmt

structure Block (τ : Type) where
  tag : τ
  stmts : List (Stmt τ)
  span : Span
  deriving Repr

structure Param (τ : Type) where
  tag : τ
  type : DataType
  name : String
  span : Span
  deriving Repr

structure Method (τ : Type) where
  tag : τ
  name : String
  returns : Option DataType
  params : List (Param τ)
  body : Block τ
  span : Span
  deriving Repr

namespace Method
variable {τ : Type}

def returnType (m : Method τ) : DataType := m.returns.getD .void

def paramTypes (m : Method τ) : List DataType := m.params.map Param.type

end Method

structure Program (τ : Type) where
  tag : τ
  methods : List (Method τ)
  deriving Repr

namespace Program
variable {τ : Type}

/-- From the start of the text to the end of the last method; at least one line. -/
def span (p : Program τ) : Span :=
  let stop := ((Span.mergeAll (p.methods.map Method.span)).getD (.ofLine 1)).last
  ⟨⟨1, 1⟩, ⟨max stop.line 1, stop.column⟩⟩

def findMethod? (p : Program τ) (name : String) : Option (Method τ) :=
  p.methods.find? fun m => m.name == name

end Program
end ClassCompiler
