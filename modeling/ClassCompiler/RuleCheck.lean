import ClassCompiler.Annotation

/-!
The rules of the language. A second walk over the bodies reports every rule that is broken and
then goes on; a type that is not known breaks no rule, since what made it unknown is reported
where it stands.

The scopes are complete when this walk starts. A variable can be read only once the walk has
passed its declaration, so the walk keeps the declarations that it has reached and passes over
the symbols of others. Of the scopes it changes only that variables become initialized.
-/
namespace ClassCompiler

structure Progress where
  scopes : ScopeTree
  reached : List NodeId
  diagnostics : List Diagnostic
  deriving DecidableEq, Repr

structure Stopped where
  fault : Fault
  progress : Progress
  deriving DecidableEq, Repr

namespace Progress

def report (p : Progress) (v : Violation) (span : Span) : Progress :=
  { p with diagnostics := p.diagnostics ++ [⟨v, span, .start⟩] }

def reach (p : Progress) (node : NodeId) : Progress := { p with reached := node :: p.reached }

def expectType (p : Progress) (expected : DataType) (found : Option DataType) (span : Span) :
    Progress :=
  match found with
  | some found =>
    if found = expected then p else p.report (.mismatch (some expected) (some found)) span
  | none => p

def sees (p : Progress) : Symbol → Bool
  | .var v => p.reached.contains v.declaredAt
  | .method _ => true

def resolve (p : Progress) (id : Nat) (name : String) : Option (Nat × Symbol) :=
  p.scopes.resolve id name p.sees

def scopeOf (p : Progress) (a : Analysis) (node : NodeId) : Except Stopped Nat :=
  match a.scopeOf node with
  | .ok id => .ok id
  | .error fault => .error ⟨fault, p⟩

end Progress

def MethodTable.unresolved (t : MethodTable) (name : String) : Violation :=
  if t.contains name then .notAVariable name else .unknownVariable name

namespace Progress

def checkRead (p : Progress) (a : Analysis) (id : Nat) (name : String) (span : Span) :
    Option DataType × Progress :=
  match p.resolve id name with
  | some (_, .var v) =>
    (v.type, if v.initialized then p else p.report (.uninitialized name) span)
  | some (_, .method m) => (some m.returns, p.report (.notAVariable name) span)
  | none => (none, p.report (a.methods.unresolved name) span)

def checkStore (p : Progress) (a : Analysis) (id : Nat) (name : String) (span : Span) :
    Option (Nat × Variable) × Progress :=
  match p.resolve id name with
  | some (home, .var v) => (some (home, v), p)
  | some (_, .method _) => (none, p.report (.notAVariable name) span)
  | none => (none, p.report (a.methods.unresolved name) span)

def assigned (p : Progress) (home : Nat) (name : String) (v : Variable)
    (found : Option DataType) (span : Span) : Progress :=
  let checked := match v.type with
    | some type => p.expectType type found span
    | none => p
  { checked with scopes := checked.scopes.markInitialized home name }

end Progress

namespace BinaryOp

def clash (left right : Option DataType) : Bool :=
  match left, right with
  | some l, some r => l != r
  | _, _ => false

/-- The operands of an arithmetic operator are of one numeric type, those of a comparison of one
type that can be compared, and those of a logical operator are `bool`. -/
def violation? (op : BinaryOp) (left right : Option DataType) : Option Violation :=
  match op.group with
  | .arithmetic =>
    if clash left right then some (.mismatch left right)
    else (left.filter fun l => !l.isNumeric).map fun l => .unsupported (some l) op
  | .relational =>
    if clash left right then some (.mismatch left right)
    else (left.filter fun l => !l.isValue || (l == .string && !op.isEquality)).map fun l =>
      .unsupported (some l) op
  | .logical =>
    match left.filter (· ≠ .bool) with
    | some l => some (.unsupported (some l) op)
    | none => if clash left right then some (.mismatch left right) else none

def resultType (op : BinaryOp) (left right : Option DataType) : Option DataType :=
  match op.group with
  | .arithmetic => left.or right
  | .relational | .logical => some .bool

end BinaryOp

mutual

/-- The type of the value, if it is known, and the progress after the walk. -/
def Expr.check (a : Analysis) (id : Nat) : Expr NodeId → Progress → Option DataType × Progress
  | .literal _ value _, p => (some value.dataType, p)
  | .var _ x span, p => p.checkRead a id x span
  | .binary _ op left right, p =>
    let l := left.check a id p
    let r := right.check a id l.2
    (op.resultType l.1 r.1, match op.violation? l.1 r.1 with
      | some v => r.2.report v (left.span.merge right.span)
      | none => r.2)
  | .not _ operand span, p =>
    let e := operand.check a id p
    (some .bool, e.2.expectType .bool e.1 span)
  | .assign _ target value, p =>
    match target.asName with
    | some x =>
      let t := p.checkStore a id x target.span
      let v := value.check a id t.2
      (v.1, match t.1 with
        | some (home, found) =>
          v.2.assigned home x found v.1 (target.span.merge value.span)
        | none => v.2)
    | none =>
      let t := target.check a id (p.report .invalidAssignmentTarget target.span)
      value.check a id t.2
  | .call _ m args span, p =>
    match a.methods.find? m with
    | some s =>
      (some s.returns, Expr.checkArgs a id args s.params
        (if s.params.length = args.length then p
         else p.report (.argumentCount m s.params.length args.length) span))
    | none => (some .void, Expr.checkArgs a id args [] (p.report (.unknownMethod m) span))
  | .writeLine _ value span, p =>
    let v := value.check a id p
    (some .void, match v.1.filter fun type => !type.isValue with
      | some type => v.2.report (.unprintable type) span
      | none => v.2)
  | .read _ input _, p => (some (Intrinsic.read input).resultType, p)
  | .random _ _, p => (some .int, p)
  | .randomBelow _ bound _, p =>
    let b := bound.check a id p
    (some .int, b.2.expectType .int b.1 bound.span)

def Expr.checkArgs (a : Analysis) (id : Nat) :
    List (Expr NodeId) → List DataType → Progress → Progress
  | [], _, p => p
  | e :: rest, [], p => Expr.checkArgs a id rest [] (e.check a id p).2
  | e :: rest, type :: types, p =>
    let r := e.check a id p
    Expr.checkArgs a id rest types (r.2.expectType type r.1 e.span)

end

def Declarator.violations (a : Analysis) (scopes : ScopeTree) (id : Nat)
    (d : Declarator NodeId) : List Violation :=
  let type := a.typeOf? d.tag
  (if a.methods.contains d.name then [.notAVariable d.name] else []) ++
  (if type.isNone then [.unknownType d.name] else []) ++
  (if 1 < scopes.declarationCount id d.name then [.duplicateVariable d.name] else []) ++
  ((type.filter fun t => !t.isValue).map fun t => Violation.invalidVariableType t d.name).toList

def Declarator.check (a : Analysis) (type : Option DataType) (span : Span) (id : Nat)
    (d : Declarator NodeId) (p : Progress) : Progress :=
  let reported := (d.violations a p.scopes id).foldl (fun p v => p.report v d.span) p
  let r := match d.init with
    | some e => e.check a id reported
    | none => (none, reported)
  -- The variable can be used from behind its initial value on.
  let reached := r.2.reach d.tag
  match type with
  | some type => reached.expectType type r.1 span
  | none => reached

def Declarator.checkAll (a : Analysis) (type : Option DataType) (span : Span) (id : Nat) :
    List (Declarator NodeId) → Progress → Progress
  | [], p => p
  | d :: rest, p => Declarator.checkAll a type span id rest (d.check a type span id p)

def Expr.checkCondition (a : Analysis) (id : Nat) (e : Expr NodeId) (span : Span)
    (p : Progress) : Progress :=
  let r := e.check a id p
  r.2.expectType .bool r.1 span

mutual

def Stmt.check (a : Analysis) (returns : DataType) :
    Stmt NodeId → Nat → Progress → Except Stopped Progress
  | .expr _ e _, id, p => .ok (e.check a id p).2
  | .declare _ type vars span, id, p => .ok (Declarator.checkAll a type span id vars p)
  | .ret n (some e) span, id, p =>
    .ok ((e.check a id p).2.expectType returns (a.typeOf? n) span)
  | .ret n none span, _, p => .ok (p.expectType returns (a.typeOf? n) span)
  | .block n body _, _, p => do
    let inner ← p.scopeOf a n
    Stmt.checkAll a returns body inner p
  | .ifThen n cond yes span, _, p => do
    let inner ← p.scopeOf a n
    yes.check a returns inner (cond.checkCondition a inner span p)
  | .ifElse n cond yes m no span, _, p => do
    let inner ← p.scopeOf a n
    let p ← yes.check a returns inner (cond.checkCondition a inner span p)
    let other ← p.scopeOf a m
    no.check a returns other p
  | .loop n cond body span, _, p => do
    let inner ← p.scopeOf a n
    body.check a returns inner (cond.checkCondition a inner span p)

def Stmt.checkAll (a : Analysis) (returns : DataType) :
    List (Stmt NodeId) → Nat → Progress → Except Stopped Progress
  | [], _, p => .ok p
  | s :: rest, id, p => do
    let p ← s.check a returns id p
    Stmt.checkAll a returns rest id p

end

/-- A method that gives a value has a return statement directly in its body. It is reported where
the body ends, ahead of what is wrong inside. -/
def Method.checkReturn (a : Analysis) (m : Method NodeId) (p : Progress) :
    Except Stopped Progress :=
  if m.returnType = .void then .ok p
  else do
    let body ← p.scopeOf a m.body.tag
    pure (if (p.scopes.scope body).hasReturn then p
      else { p with
        diagnostics := p.diagnostics ++ [⟨.missingReturn m.name, m.body.span, .stop⟩] })

def Method.check (a : Analysis) (m : Method NodeId) (p : Progress) : Except Stopped Progress := do
  let p := if 1 < a.methods.count m.name then p.report (.duplicateMethod m.name) m.span else p
  let _ ← p.scopeOf a m.tag
  let p ← m.checkReturn a (m.params.foldl (fun p param => p.reach param.tag) p)
  let inner ← p.scopeOf a m.body.tag
  Stmt.checkAll a m.returnType m.body.stmts inner p

def Method.checkAll (a : Analysis) : List (Method NodeId) → Progress → Except Stopped Progress
  | [], p => .ok p
  | m :: rest, p => do
    let p ← m.check a p
    Method.checkAll a rest p

def mainName : String := "Main"

def MethodTable.mainViolation? (t : MethodTable) : Option Violation :=
  match t.find? mainName with
  | none => some .missingMain
  | some s => if s.params.isEmpty then none else some .mainHasParameters

namespace Analysis

def startCheck (a : Analysis) (p : Program NodeId) : Progress :=
  let start : Progress := ⟨a.scopes, [p.tag], a.diagnostics⟩
  match a.methods.mainViolation? with
  | some v => start.report v p.span
  | none => start

/-- Checks a program that has been annotated. At the end all diagnostics are handed out; if the
check is stopped, those made so far stay. -/
def check (a : Analysis) (p : Program NodeId) : Except Failure Unit × Analysis :=
  match a.scopeOf p.tag with
  | .error fault => (.error (.fault fault), a)
  | .ok _ =>
    match Method.checkAll a p.methods (a.startCheck p) with
    | .error stopped =>
      (.error (.fault stopped.fault),
        { a with
          scopes := stopped.progress.scopes
          diagnostics := stopped.progress.diagnostics })
    | .ok done =>
      (if done.diagnostics.isEmpty then .ok () else .error (.violations done.diagnostics),
        { a with scopes := done.scopes, diagnostics := [] })

end Analysis
end ClassCompiler
