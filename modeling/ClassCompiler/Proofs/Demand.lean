import ClassCompiler.Analysis
import ClassCompiler.Instruction
import ClassCompiler.Proofs.Typing

/-! What the code of a program asks for: the room that it takes on the operand stack, read off the
syntax, and the entries of the analysis, which have to agree with the types. -/
namespace ClassCompiler

mutual

/-- The room that the value of an expression takes on the stack while it is computed. -/
def Expr.need {τ : Type} : Expr τ → Nat
  | .literal .. | .var .. => 1
  | .binary _ op left right =>
    max left.need (if op.group = .logical then right.need else 1 + right.need)
  | .not _ operand _ => operand.need
  | .assign _ _ value => max value.need 2
  | .call _ _ args _ => 1 + Expr.needAll args
  | .writeLine _ value _ => 1 + value.need
  | .read .. => 3
  | .random .. => 2
  | .randomBelow _ bound _ => max 2 (1 + bound.need)

def Expr.needAll {τ : Type} : List (Expr τ) → Nat
  | [] => 0
  | e :: rest => max e.need (1 + Expr.needAll rest)

end

theorem Expr.needAllLength {τ : Type} (es : List (Expr τ)) : es.length ≤ Expr.needAll es := by
  induction es with
  | nil => exact Nat.le_refl 0
  | cons e rest ih =>
    simp only [Expr.needAll, List.length_cons]
    omega

def Expr.needDropped {τ : Type} : Expr τ → Nat
  | .assign _ _ value => value.need
  | e => e.need

theorem Expr.needPositive {τ : Type} : ∀ e : Expr τ, 1 ≤ e.need
  | .literal .. | .var .. => Nat.le_refl 1
  | .binary _ _ left _ => by
    rw [Expr.need]
    exact Nat.le_trans left.needPositive (Nat.le_max_left ..)
  | .not _ operand _ => operand.needPositive
  | .assign _ _ value => by
    rw [Expr.need]
    exact Nat.le_trans value.needPositive (Nat.le_max_left ..)
  | .call .. | .writeLine .. => Nat.le_add_right ..
  | .read .. | .random .. => Nat.le_add_left ..
  | .randomBelow .. => Nat.le_trans (Nat.le_succ 1) (Nat.le_max_left 2 _)

mutual

def Expr.Recorded (types : NodeId → Option DataType) (typed : Expr NodeId → DataType → Prop) :
    Expr NodeId → Prop
  | .literal .. | .var .. | .read .. | .random .. => True
  | .binary n _ left right =>
    (∀ type, typed left type → types n = some type) ∧
      left.Recorded types typed ∧ right.Recorded types typed
  | .not _ operand _ => operand.Recorded types typed
  | .assign _ _ value => value.Recorded types typed
  | .call _ _ args _ => Expr.RecordedAll types typed args
  | .writeLine n value _ =>
    (∀ type, typed value type → types n = some type) ∧ value.Recorded types typed
  | .randomBelow _ bound _ => bound.Recorded types typed

def Expr.RecordedAll (types : NodeId → Option DataType) (typed : Expr NodeId → DataType → Prop) :
    List (Expr NodeId) → Prop
  | [] => True
  | e :: rest => e.Recorded types typed ∧ Expr.RecordedAll types typed rest

end

/-- The kind of the values of a type, where `self` is that of the object. A variable declared further
down may hide the object from the code, so its kind depends on the scope. -/
def ValueKind.carrier (self : ValueKind) (type : DataType) : Option ValueKind :=
  if type = .self then some self else ValueKind.of? type

def Analysis.Holds (a : Analysis) (id : Nat) (vars : String → Option DataType) (self : ValueKind) :
    Prop :=
  ∀ x type, vars x = some type → ∃ v known kind, a.scopes.lookup id x = some (.var v) ∧
    v.type = some known ∧ ValueKind.of? known = some kind ∧ self.carrier type = some kind

def Expr.Fits (a : Analysis) (id : Nat) (e : Expr NodeId) (type : DataType) : Prop :=
  ∃ vars self, e.HasType a.methods.uses vars type ∧
    e.Recorded a.typeOf? (Expr.HasType a.methods.uses vars) ∧ a.Holds id vars self

inductive Declarator.Fits (a : Analysis) (id : Nat) (d : Declarator NodeId) : Prop where
  | bare (missing : d.init = none)
  | initial {e type v} (given : d.init = some e) (fits : e.Fits a id type)
      (value : type.isValue = true) (slot : a.scopes.lookup id d.name = some (.var v))
      (known : v.type = some type)

mutual

inductive Stmt.Fits (a : Analysis) (returns : DataType) : Nat → Stmt NodeId → Prop where
  | expr {id n e span type} (fits : e.Fits a id type)
      (recorded : (∃ m target value, e = .assign m target value) ∨ a.typeOf? n = some type) :
      Fits a returns id (.expr n e span)
  | declare {id n type vars span} (fits : ∀ d ∈ vars, d.Fits a id) :
      Fits a returns id (.declare n type vars span)
  | ret {id n e span} (fits : e.Fits a id returns) (recorded : a.typeOf? n = some returns) :
      Fits a returns id (.ret n (some e) span)
  | leave {id n span} (nothing : returns = .void) (recorded : a.typeOf? n = some .void) :
      Fits a returns id (.ret n none span)
  | block {id n body span inner} (scope : a.scopeIds.get? n = some inner)
      (fits : Stmt.FitAll a returns inner body) : Fits a returns id (.block n body span)
  | ifThen {id n cond yes span inner} (scope : a.scopeIds.get? n = some inner)
      (condition : cond.Fits a inner .bool) (fits : Fits a returns inner yes) :
      Fits a returns id (.ifThen n cond yes span)
  | ifElse {id n cond yes m no span inner other} (scope : a.scopeIds.get? n = some inner)
      (condition : cond.Fits a inner .bool) (fits : Fits a returns inner yes)
      (beside : a.scopeIds.get? m = some other) (otherwise : Fits a returns other no) :
      Fits a returns id (.ifElse n cond yes m no span)
  | loop {id n cond body span inner} (scope : a.scopeIds.get? n = some inner)
      (condition : cond.Fits a inner .bool) (fits : Fits a returns inner body) :
      Fits a returns id (.loop n cond body span)

inductive Stmt.FitAll (a : Analysis) (returns : DataType) : Nat → List (Stmt NodeId) → Prop where
  | nil {id} : FitAll a returns id []
  | cons {id s rest} (first : Stmt.Fits a returns id s) (others : FitAll a returns id rest) :
      FitAll a returns id (s :: rest)

end

def Declarator.need {τ : Type} (d : Declarator τ) : Nat := (d.init.map Expr.need).getD 0

def Declarator.needAll {τ : Type} : List (Declarator τ) → Nat
  | [] => 0
  | d :: rest => max d.need (Declarator.needAll rest)

mutual

def Stmt.need {τ : Type} : Stmt τ → Nat
  | .expr _ e _ => e.needDropped
  | .declare _ _ vars _ => Declarator.needAll vars
  | .ret _ (some e) _ => e.need
  | .ret _ none _ => 0
  | .block _ body _ => Stmt.needAll body
  | .ifThen _ cond yes _ => max cond.need yes.need
  | .ifElse _ cond yes _ no _ => max (max cond.need yes.need) no.need
  | .loop _ cond body _ => max cond.need body.need

def Stmt.needAll {τ : Type} : List (Stmt τ) → Nat
  | [] => 0
  | s :: rest => max s.need (Stmt.needAll rest)

end

structure Method.Fits (b : Analysis) (m : Method NodeId) : Prop where
  fits : ∃ outer inner, b.scopeIds.get? m.tag = some outer ∧
    b.scopeIds.get? m.body.tag = some inner ∧ Stmt.FitAll b m.returnType inner m.body.stmts ∧
    (b.scopes.scope outer).maxStack = Stmt.needAll m.body.stmts

end ClassCompiler
