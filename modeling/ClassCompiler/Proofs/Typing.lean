import ClassCompiler.MethodTable
import ClassCompiler.ScopeTree

/-! The types of expressions, by rules over what the names in them mean, and the order in which an
expression reads and sets variables. -/
namespace ClassCompiler
variable {τ : Type}

def MethodTable.uses (t : MethodTable) (name : String) : Option MethodUse :=
  (t.find? name).map fun s => ⟨s.returns, s.params⟩

namespace BinaryOp

def admits (op : BinaryOp) (type : DataType) : Bool :=
  match op.group with
  | .arithmetic => type.isNumeric
  | .relational => type.isValue && (type != .string || op.isEquality)
  | .logical => type == .bool

def yields (op : BinaryOp) (type : DataType) : DataType :=
  match op.group with
  | .arithmetic => type
  | .relational | .logical => .bool

theorem admitsValue {op : BinaryOp} {type : DataType} (admitted : op.admits type = true) :
    type.isValue = true := by
  unfold admits at admitted
  split at admitted
  · exact DataType.numericValue admitted
  · simp only [Bool.and_eq_true] at admitted
    exact admitted.1
  · simp only [beq_iff_eq] at admitted
    subst admitted
    rfl

end BinaryOp

mutual

inductive Expr.HasType (methods : String → Option MethodUse) (vars : String → Option DataType) :
    Expr τ → DataType → Prop where
  | literal {n value span} : HasType methods vars (.literal n value span) value.dataType
  | var {n x span type} (known : vars x = some type) : HasType methods vars (.var n x span) type
  | binary {n op left right type} (first : HasType methods vars left type)
      (second : HasType methods vars right type) (admitted : op.admits type = true) :
      HasType methods vars (.binary n op left right) (op.yields type)
  | not {n operand span} (condition : HasType methods vars operand .bool) :
      HasType methods vars (.not n operand span) .bool
  | assign {n m x span value type} (known : vars x = some type)
      (assigned : HasType methods vars value type) :
      HasType methods vars (.assign n (.var m x span) value) type
  | call {n m args span returns params} (found : methods m = some ⟨returns, params⟩)
      (given : Expr.HaveTypes methods vars args params) :
      HasType methods vars (.call n m args span) returns
  | writeLine {n value span type} (printed : HasType methods vars value type)
      (printable : type.isValue = true) : HasType methods vars (.writeLine n value span) .void
  | read {n input span} :
      HasType methods vars (.read n input span) (Intrinsic.read input).resultType
  | random {n span} : HasType methods vars (.random n span) .int
  | randomBelow {n bound span} (limit : HasType methods vars bound .int) :
      HasType methods vars (.randomBelow n bound span) .int

inductive Expr.HaveTypes (methods : String → Option MethodUse) (vars : String → Option DataType) :
    List (Expr τ) → List DataType → Prop where
  | nil : HaveTypes methods vars [] []
  | cons {e rest type types} (first : Expr.HasType methods vars e type)
      (others : HaveTypes methods vars rest types) :
      HaveTypes methods vars (e :: rest) (type :: types)

end

theorem Expr.haveTypesLength {methods vars} {es : List (Expr τ)} {types : List DataType}
    (typed : Expr.HaveTypes methods vars es types) : es.length = types.length := by
  induction es generalizing types with
  | nil => cases typed; rfl
  | cons e rest ih =>
    cases typed with
    | cons _ others => simp [ih others]

inductive VarAccess where
  | read (name : String)
  | write (name : String)
  deriving DecidableEq, Repr

mutual

def Expr.accesses : Expr τ → List VarAccess
  | .literal .. | .read .. | .random .. => []
  | .var _ x _ => [.read x]
  | .binary _ _ left right => left.accesses ++ right.accesses
  | .not _ operand _ => operand.accesses
  | .assign _ target value => value.accesses ++ (target.asName.map VarAccess.write).toList
  | .call _ _ args _ => Expr.accessesAll args
  | .writeLine _ value _ => value.accesses
  | .randomBelow _ bound _ => bound.accesses

def Expr.accessesAll : List (Expr τ) → List VarAccess
  | [] => []
  | e :: rest => e.accesses ++ Expr.accessesAll rest

end

end ClassCompiler
