import ClassCompiler.NodeListing
import ClassCompiler.Proofs.Typing
import ClassCompiler.RuleCheck

/-! The static rules of the language as a judgement over the text alone. A body is read once from top
to bottom. On the way stand the variables that can be used, scope by scope, each with its type and
whether it has a value yet; a scope that ends takes its variables with it, and a value that was given
to a variable outside stays. -/
namespace ClassCompiler
variable {τ : Type}

structure Local where
  type : DataType
  initialized : Bool
  deriving DecidableEq, Repr

abbrev Frame := Table String Local

/-- The scopes around a point of a body, nearest first. -/
abbrev Env := List Frame

namespace Env

def find? : Env → String → Option Local
  | [], _ => none
  | f :: rest, x => (f.get? x).or (find? rest x)

def types (env : Env) (x : String) : Option DataType := (find? env x).map Local.type

def mark : Env → String → Env
  | [], _ => []
  | f :: rest, x =>
    match f.get? x with
    | some v => f.insert x { v with initialized := true } :: rest
    | none => f :: mark rest x

/-- A variable can be read once it has a value; writing to it gives it one. -/
def access? (env : Env) : VarAccess → Option Env
  | .read x =>
    match find? env x with
    | some v => if v.initialized then some env else none
    | none => none
  | .write x => (find? env x).map fun _ => mark env x

def accessAll? (env : Env) (uses : List VarAccess) : Option Env := uses.foldlM access? env

def declare : Env → String → Local → Env
  | [], _, _ => []
  | f :: rest, x, v => f.insert x v :: rest

end Env

/-- What a body reads of the program around it: the methods that can be called, the names that
variables may not have, and the type that the body has to give. -/
structure Setting where
  methods : String → Option MethodUse
  taken : List String
  returns : DataType

structure Expr.WellFormed (g : Setting) (env : Env) (e : Expr τ) (type : DataType) (after : Env) :
    Prop where
  typed : e.HasType g.methods (Env.types env) type
  used : Env.accessAll? env e.accesses = some after

/-- `around` has the names that are declared in the scope and in the scopes around it, those of
declarations further down included, so that a name stands there more than once if it is declared
more than once. -/
inductive Declarator.WellFormed (g : Setting) (around : List String) (type : Option DataType)
    (env : Env) (d : Declarator τ) : Env → Prop where
  | bare {known} (free : d.name ∉ g.taken) (alone : around.count d.name ≤ 1)
      (missing : d.init = none) (given : type = some known) (value : known.isValue = true) :
      WellFormed g around type env d (Env.declare env d.name ⟨known, false⟩)
  | initial {e found after} (free : d.name ∉ g.taken) (alone : around.count d.name ≤ 1)
      (given : d.init = some e) (initial : e.WellFormed g env found after)
      (agrees : ∀ expected, type = some expected → found = expected)
      (value : found.isValue = true) :
      WellFormed g around type env d (Env.declare after d.name ⟨found, true⟩)

inductive Declarator.AllWellFormed (g : Setting) (around : List String) (type : Option DataType) :
    Env → List (Declarator τ) → Env → Prop where
  | nil {env} : AllWellFormed g around type env [] env
  | cons {env d middle rest after} (first : d.WellFormed g around type env middle)
      (others : AllWellFormed g around type middle rest after) :
      AllWellFormed g around type env (d :: rest) after

def Stmt.names : Stmt τ → List String
  | .declare _ _ vars _ => vars.map Declarator.name
  | _ => []

def Stmt.isReturn : Stmt τ → Bool
  | .ret .. => true
  | _ => false

mutual

/-- A condition stands in the scope of what it decides about. -/
inductive Stmt.WellFormed (g : Setting) : List String → Env → Stmt τ → Env → Prop where
  | expr {around env n e span type after} (value : e.WellFormed g env type after) :
      WellFormed g around env (.expr n e span) after
  | declare {around env n type vars span after}
      (declared : Declarator.AllWellFormed g around type env vars after) :
      WellFormed g around env (.declare n type vars span) after
  | ret {around env n e span after} (value : e.WellFormed g env g.returns after) :
      WellFormed g around env (.ret n (some e) span) after
  | leave {around env n span} (nothing : g.returns = .void) :
      WellFormed g around env (.ret n none span) env
  | block {around env n body span frame after}
      (inside : Stmt.AllWellFormed g (body.flatMap Stmt.names ++ around) ({} :: env) body
        (frame :: after)) :
      WellFormed g around env (.block n body span) after
  | ifThen {around env n cond yes span middle frame after}
      (condition : cond.WellFormed g ({} :: env) .bool middle)
      (inside : WellFormed g (yes.names ++ around) middle yes (frame :: after)) :
      WellFormed g around env (.ifThen n cond yes span) after
  | ifElse {around env n cond yes m no span middle frame between other after}
      (condition : cond.WellFormed g ({} :: env) .bool middle)
      (inside : WellFormed g (yes.names ++ around) middle yes (frame :: between))
      (otherwise : WellFormed g (no.names ++ around) ({} :: between) no (other :: after)) :
      WellFormed g around env (.ifElse n cond yes m no span) after
  | loop {around env n cond body span middle frame after}
      (condition : cond.WellFormed g ({} :: env) .bool middle)
      (inside : WellFormed g (body.names ++ around) middle body (frame :: after)) :
      WellFormed g around env (.loop n cond body span) after

inductive Stmt.AllWellFormed (g : Setting) : List String → Env → List (Stmt τ) → Env → Prop where
  | nil {around env} : AllWellFormed g around env [] env
  | cons {around env s middle rest after} (first : Stmt.WellFormed g around env s middle)
      (others : AllWellFormed g around middle rest after) :
      AllWellFormed g around env (s :: rest) after

end

def Frame.object : Frame := ({} : Frame).insert selfName ⟨.self, true⟩

def Frame.ofParams (params : List (Param τ)) : Frame :=
  params.foldl (fun f param => f.insert param.name ⟨param.type, true⟩) {}

def Node.intrinsic? (n : Node τ) : Option Intrinsic :=
  match n.kind with
  | .intrinsic i => some i
  | _ => none

namespace Program

def intrinsics (p : Program τ) : List Intrinsic := p.nodes.filterMap Node.intrinsic?

def taken (p : Program τ) : List String :=
  p.methods.map Method.name ++ p.intrinsics.map Intrinsic.name

def setting (p : Program τ) (m : Method τ) : Setting where
  methods x := (p.findMethod? x).map fun m => ⟨m.returnType, m.paramTypes⟩
  taken := p.taken
  returns := m.returnType

end Program

structure Method.WellFormed (p : Program τ) (m : Method τ) : Prop where
  returning : m.returnType ≠ .void → m.body.stmts.any Stmt.isReturn = true
  body : ∃ after, Stmt.AllWellFormed (p.setting m)
    (m.body.stmts.flatMap Stmt.names ++ m.params.map Param.name)
    [{}, Frame.ofParams m.params, Frame.object] m.body.stmts after

structure Program.WellFormed (p : Program τ) : Prop where
  main : ∃ m, p.findMethod? mainName = some m ∧ m.params = []
  distinct : (p.methods.map Method.name).Nodup
  apart : ∀ m ∈ p.methods, ∀ i ∈ p.intrinsics, m.name ≠ i.name
  methods : ∀ m ∈ p.methods, m.WellFormed p

end ClassCompiler
