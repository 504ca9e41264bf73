import ClassCompiler.Proofs.Lexical
import ClassCompiler.Proofs.Machine

/-! The meaning of programs. Expressions are evaluated from left to right in a memory of variables;
which variable a name means is left to a view, so that variables can be the declarations of a program
or the slots of its code. A body is run in the order of its text. Every declaration has a variable of
its own, which is without a value until one is given to it; to read it before is to get stuck. -/
namespace ClassCompiler
variable {ρ W κ : Type}

structure Memory (κ ρ W : Type) where
  vars : κ → Option (Value ρ)
  world : W

def Memory.set [DecidableEq κ] (s : Memory κ ρ W) (k : κ) (v : Option (Value ρ)) : Memory κ ρ W :=
  { s with vars := Function.update s.vars k v }

/-- How an expression is understood: the variables that names mean, the variable of the object, the
type of the operands of an operator or of what is printed, and the methods that can be called. -/
structure View (κ : Type) where
  cell : String → Option κ
  object : κ
  operand : Expr NodeId → DataType → Prop
  methods : String → Option MethodUse

/-- Floating-point numbers are compared by the machine, and the truth is read off its answer. -/
def Interpretation.compare [DecidableEq ρ] (I : Interpretation ρ W) (c : Condition) :
    DataType → Value ρ → Value ρ → Option Bool
  | .float, l, r => (I.fcmpl l r).map c.holds
  | .int, .int l, .int r | .bool, .int l, .int r | .char, .int l, .int r =>
    some (c.holds (Ord.compare l r))
  | .string, .ref l, .ref r | .self, .ref l, .ref r => c.holdsRef (l = r)
  | _, _, _ => none

section
variable [DecidableEq ρ] [DecidableEq κ] (I : Interpretation ρ W) (V : View κ)

mutual

inductive Expr.Evaluates : Memory κ ρ W → Expr NodeId → Option (Value ρ) → Memory κ ρ W → Prop where
  | literal {s n value span} :
      Evaluates s (.literal n value span) (some (I.literal value)) s
  | var {s n x span k v} (meant : V.cell x = some k) (given : s.vars k = some v) :
      Evaluates s (.var n x span) (some v) s
  | arith {s n op left right o l s₁ r s₂ type kind v} (action : op.action = .arith o)
      (first : Evaluates s left (some l) s₁) (second : Evaluates s₁ right (some r) s₂)
      (typed : V.operand (.binary n op left right) type) (kinds : ValueKind.of? type = some kind)
      (result : I.arith kind o l r = some v) :
      Evaluates s (.binary n op left right) (some v) s₂
  | compare {s n op left right c l s₁ r s₂ type truth} (action : op.action = .compare c)
      (first : Evaluates s left (some l) s₁) (second : Evaluates s₁ right (some r) s₂)
      (typed : V.operand (.binary n op left right) type)
      (result : I.compare c type l r = some truth) :
      Evaluates s (.binary n op left right) (some (.ofBool truth)) s₂
  | decided {s n op left right isAnd l s₁} (action : op.action = .logical isAnd)
      (first : Evaluates s left (some (.int l)) s₁) (decides : (l == 0) = isAnd) :
      Evaluates s (.binary n op left right) (some (.ofBool !isAnd)) s₁
  | joined {s n op left right isAnd l s₁ r s₂} (action : op.action = .logical isAnd)
      (first : Evaluates s left (some (.int l)) s₁) (leaves : (l == 0) = !isAnd)
      (second : Evaluates s₁ right (some (.int r)) s₂) :
      Evaluates s (.binary n op left right) (some (.ofBool (r != 0))) s₂
  | not {s n operand span l s₁} (inner : Evaluates s operand (some (.int l)) s₁) :
      Evaluates s (.not n operand span) (some (.ofBool (l == 0))) s₁
  | assign {s n m x span value v s₁ k} (assigned : Evaluates s value (some v) s₁)
      (meant : V.cell x = some k) :
      Evaluates s (.assign n (.var m x span) value) (some v) (s₁.set k (some v))
  | call {s n m args span use object vs s₁ result w} (found : V.methods m = some use)
      (receiver : s.vars V.object = some object) (given : Expr.EvaluateAll s args vs s₁)
      (called : I.call m object vs s₁.world = some (result, w))
      (shaped : result.isSome = (use.returns != .void)) :
      Evaluates s (.call n m args span) result { s₁ with world := w }
  | writeLine {s n value span v s₁ type w} (printed : Evaluates s value (some v) s₁)
      (typed : V.operand (.writeLine n value span) type)
      (written : I.print type v s₁.world = some w) :
      Evaluates s (.writeLine n value span) none { s₁ with world := w }
  | read {s n input span v w} (got : I.read input s.world = some (v, w)) :
      Evaluates s (.read n input span) (some v) { s with world := w }
  | random {s n span v w} (got : I.random s.world = some (v, w)) :
      Evaluates s (.random n span) (some v) { s with world := w }
  | randomBelow {s n bound span l s₁ v w} (limit : Evaluates s bound (some l) s₁)
      (got : I.randomBelow l s₁.world = some (v, w)) :
      Evaluates s (.randomBelow n bound span) (some v) { s₁ with world := w }

inductive Expr.EvaluateAll : Memory κ ρ W → List (Expr NodeId) → List (Value ρ) → Memory κ ρ W →
    Prop where
  | nil {s} : EvaluateAll s [] [] s
  | cons {s e rest v s₁ vs s₂} (first : Expr.Evaluates s e (some v) s₁)
      (others : EvaluateAll s₁ rest vs s₂) : EvaluateAll s (e :: rest) (v :: vs) s₂

end
end

structure Binding where
  name : String
  node : NodeId
  type : DataType
  deriving DecidableEq, Repr

/-- The variables that can be used at a point of a body, the newest first. -/
abbrev Bindings := List Binding

namespace Bindings

def find? (env : Bindings) (x : String) : Option Binding := List.find? (fun b => b.name == x) env

def types (env : Bindings) (x : String) : Option DataType := (find? env x).map Binding.type

end Bindings

namespace Program

def methodUses (p : Program NodeId) (x : String) : Option MethodUse :=
  (p.findMethod? x).map fun m => ⟨m.returnType, m.paramTypes⟩

def view (p : Program NodeId) (env : Bindings) : View NodeId where
  cell x := (Bindings.find? env x).map Binding.node
  object := p.tag
  operand e type :=
    match e with
    | .binary _ _ left _ => left.HasType p.methodUses (Bindings.types env) type
    | .writeLine _ value _ => value.HasType p.methodUses (Bindings.types env) type
    | _ => False
  methods := p.methodUses

end Program

inductive Flow (ρ : Type) where
  | onward
  | returned (result : Option (Value ρ))

section
variable [DecidableEq ρ] (I : Interpretation ρ W) (p : Program NodeId)

inductive Declarator.Executes (type : Option DataType) : Bindings → Memory NodeId ρ W →
    Declarator NodeId → Bindings → Memory NodeId ρ W → Prop where
  | bare {env s d known} (missing : d.init = none) (given : type = some known) :
      Executes type env s d (⟨d.name, d.tag, known⟩ :: env) (s.set d.tag none)
  | initial {env s d e found v s₁} (given : d.init = some e)
      (typed : e.HasType p.methodUses (Bindings.types env) found)
      (value : e.Evaluates I (p.view env) s (some v) s₁) :
      Executes type env s d (⟨d.name, d.tag, type.getD found⟩ :: env) (s₁.set d.tag (some v))

inductive Declarator.ExecuteAll (type : Option DataType) : Bindings → Memory NodeId ρ W →
    List (Declarator NodeId) → Bindings → Memory NodeId ρ W → Prop where
  | nil {env s} : ExecuteAll type env s [] env s
  | cons {env s d env₁ s₁ rest env₂ s₂} (first : d.Executes I p type env s env₁ s₁)
      (others : ExecuteAll type env₁ s₁ rest env₂ s₂) : ExecuteAll type env s (d :: rest) env₂ s₂

mutual

/-- The variables behind a statement are those before it and what it declares in its own scope. -/
inductive Stmt.Executes : Bindings → Memory NodeId ρ W → Stmt NodeId → Flow ρ → Bindings →
    Memory NodeId ρ W → Prop where
  | expr {env s n e span r s₁} (value : e.Evaluates I (p.view env) s r s₁) :
      Executes env s (.expr n e span) .onward env s₁
  | declare {env s n type vars span env₁ s₁}
      (declared : Declarator.ExecuteAll I p type env s vars env₁ s₁) :
      Executes env s (.declare n type vars span) .onward env₁ s₁
  | ret {env s n e span r s₁} (value : e.Evaluates I (p.view env) s r s₁) :
      Executes env s (.ret n (some e) span) (.returned r) env s₁
  | leave {env s n span} : Executes env s (.ret n none span) (.returned none) env s
  | block {env s n body span flow inner s₁}
      (inside : Stmt.ExecuteAll env s body flow inner s₁) :
      Executes env s (.block n body span) flow env s₁
  | ifTrue {env s n cond yes span l s₁ flow inner s₂}
      (condition : cond.Evaluates I (p.view env) s (some (.int l)) s₁) (holds : l ≠ 0)
      (inside : Executes env s₁ yes flow inner s₂) :
      Executes env s (.ifThen n cond yes span) flow env s₂
  | ifFalse {env s n cond yes span s₁}
      (condition : cond.Evaluates I (p.view env) s (some (.int 0)) s₁) :
      Executes env s (.ifThen n cond yes span) .onward env s₁
  | elseTrue {env s n cond yes m no span l s₁ flow inner s₂}
      (condition : cond.Evaluates I (p.view env) s (some (.int l)) s₁) (holds : l ≠ 0)
      (inside : Executes env s₁ yes flow inner s₂) :
      Executes env s (.ifElse n cond yes m no span) flow env s₂
  | elseFalse {env s n cond yes m no span s₁ flow inner s₂}
      (condition : cond.Evaluates I (p.view env) s (some (.int 0)) s₁)
      (inside : Executes env s₁ no flow inner s₂) :
      Executes env s (.ifElse n cond yes m no span) flow env s₂
  | loopEnds {env s n cond body span s₁}
      (condition : cond.Evaluates I (p.view env) s (some (.int 0)) s₁) :
      Executes env s (.loop n cond body span) .onward env s₁
  | loopReturns {env s n cond body span l s₁ r inner s₂}
      (condition : cond.Evaluates I (p.view env) s (some (.int l)) s₁) (holds : l ≠ 0)
      (inside : Executes env s₁ body (.returned r) inner s₂) :
      Executes env s (.loop n cond body span) (.returned r) env s₂
  | loopAgain {env s n cond body span l s₁ inner s₂ flow s₃}
      (condition : cond.Evaluates I (p.view env) s (some (.int l)) s₁) (holds : l ≠ 0)
      (inside : Executes env s₁ body .onward inner s₂)
      (again : Executes env s₂ (.loop n cond body span) flow env s₃) :
      Executes env s (.loop n cond body span) flow env s₃

inductive Stmt.ExecuteAll : Bindings → Memory NodeId ρ W → List (Stmt NodeId) → Flow ρ → Bindings →
    Memory NodeId ρ W → Prop where
  | nil {env s} : ExecuteAll env s [] .onward env s
  | returned {env s stmt rest r env₁ s₁} (first : Stmt.Executes env s stmt (.returned r) env₁ s₁) :
      ExecuteAll env s (stmt :: rest) (.returned r) env₁ s₁
  | cons {env s stmt rest env₁ s₁ flow env₂ s₂} (first : Stmt.Executes env s stmt .onward env₁ s₁)
      (others : ExecuteAll env₁ s₁ rest flow env₂ s₂) : ExecuteAll env s (stmt :: rest) flow env₂ s₂

end

def Method.bindings (m : Method NodeId) : Bindings :=
  (m.params.map fun param => ⟨param.name, param.tag, param.type⟩).reverse ++ [⟨selfName, p.tag, .self⟩]

def Method.start (m : Method NodeId) (object : Value ρ) (args : List (Value ρ)) (w : W) :
    Memory NodeId ρ W where
  vars n := if n = p.tag then some object
    else ((m.params.zip args).find? fun g => g.1.tag = n).map Prod.snd
  world := w

/-- A method returns from inside its body; one without a value also at the end of it. -/
inductive Method.Executes (m : Method NodeId) (object : Value ρ) (args : List (Value ρ)) (w : W) :
    Option (Value ρ) → W → Prop where
  | returned {r env s} (count : args.length = m.params.length)
      (body : Stmt.ExecuteAll I p (m.bindings p) (m.start p object args w) m.body.stmts
        (.returned r) env s) : Executes m object args w r s.world
  | ended {env s} (count : args.length = m.params.length) (void : m.returnType = .void)
      (body : Stmt.ExecuteAll I p (m.bindings p) (m.start p object args w) m.body.stmts
        .onward env s) : Executes m object args w none s.world

end
end ClassCompiler
