import ClassCompiler.Analysis

/-!
The first walk over the bodies. It opens a scope for every method, block, branch and loop, gives
variables their slots, records the types of nodes as far as names are known, and moves the stack
counter of the current scope as the code of each construct will move the operand stack:

    literal, variable            +1
    a + b, a < b                 a, b, -1
    a && b, a || b               a, -1, b, -1, +1
    x = v                        v, +1 for a copy if the value is used, -1
    m(args)                      +1 for the object, args, -(1 + args), +1 unless void
    WriteLine(v)                 +1, v, -2
    ReadInt()                    +3, -3, +1
    RandomInt(n)                 +2, -1, n, -(1 + args), +1
    condition, initial value, returned value, dropped value    -1
-/
namespace ClassCompiler

def Analysis.inScope (a : Analysis) (id : Nat) (node : NodeId)
    (inside : Nat → Analysis → Analysis) : Analysis :=
  let child := a.scopes.size
  let entered := (a.mapScopes fun t => t.enter id).bindScope node child
  (inside child entered).mapScopes fun t => t.leave child

/-- Notes a call of a declared method, and gives the type of the call. A call of a method that
does not exist counts as void. -/
def Analysis.useMethod (a : Analysis) (id : Nat) (name : String) : DataType × Analysis :=
  match a.methods.find? name with
  | some s =>
    let used := a.mapScopes fun t => t.useMethod id name ⟨s.returns, s.params⟩
    (s.returns, if s.returns = .void then used else used.push id 1)
  | none => (.void, a)

def Analysis.useIntrinsic (a : Analysis) (id : Nat) (i : Intrinsic) (params : List DataType)
    (span : Span) : Analysis :=
  { a with
    scopes := a.scopes.useMethod id i.name ⟨i.resultType, params⟩
    methods := a.methods.useIntrinsic i.name i.resultType params span }

/-- An assignment, given the walks over its two sides. The value comes first; a target that is a
name is not read. With `keep` the value is copied and stays on the stack. -/
def Analysis.annotateAssign (a : Analysis) (id : Nat) (node : NodeId) (keep : Bool)
    (target : Expr NodeId) (walkTarget walkValue : Analysis → Option DataType × Analysis) :
    Option DataType × Analysis :=
  let v := walkValue a
  let stored := match target.asName with
    | some x => v.2.setType target.tag (v.2.nameType? id x)
    | none => (walkTarget v.2).2.pop id 1
  let copied := if keep then stored.push id 1 else stored
  (v.1, (copied.pop id 1).setType node v.1)

mutual

/-- The type of the value, if it is known, and the analysis after the walk. -/
def Expr.annotate (id : Nat) : Expr NodeId → Analysis → Option DataType × Analysis
  | .literal n value _, a =>
    (some value.dataType, (a.push id 1).setType n (some value.dataType))
  | .var n x _, a => (a.nameType? id x, (a.push id 1).setType n (a.nameType? id x))
  | .binary n op left right, a =>
    let l := left.annotate id a
    match op.group with
    | .arithmetic =>
      let r := right.annotate id l.2
      (l.1.or r.1, (r.2.pop id 1).setType n (l.1.or r.1))
    | .relational =>
      let r := right.annotate id l.2
      (some .bool, (r.2.pop id 1).setType n (l.1.or r.1))
    | .logical =>
      let r := right.annotate id (l.2.pop id 1)
      (some .bool, ((r.2.pop id 1).push id 1).setType n (l.1.or r.1))
  | .not n operand _, a => (some .bool, (operand.annotate id a).2.setType n (some .bool))
  | .assign n target value, a =>
    a.annotateAssign id n true target (fun a => target.annotate id a) fun a => value.annotate id a
  | .call n m args _, a =>
    let walked := (Expr.annotateAll id args (a.push id 1)).pop id (1 + args.length)
    let used := walked.useMethod id m
    (some used.1, used.2.setType n (some used.1))
  | .writeLine n value span, a =>
    let v := value.annotate id (a.push id 1)
    (some .void, ((v.2.pop id 2).useIntrinsic id .writeLine v.1.toList span).setType n v.1)
  | .read n input span, a =>
    let type := (Intrinsic.read input).resultType
    (some type, ((((a.push id 3).pop id 3).push id 1).useIntrinsic id (.read input) [] span).setType
      n (some type))
  | .random n span, a =>
    (some .int, (((((a.push id 2).pop id 1).pop id 1).push id 1).useIntrinsic id .randomInt []
      span).setType n (some .int))
  | .randomBelow n bound span, a =>
    let b := bound.annotate id ((a.push id 2).pop id 1)
    (some .int, (((b.2.pop id 2).push id 1).useIntrinsic id .randomInt [.int] span).setType
      n (some .int))

def Expr.annotateAll (id : Nat) : List (Expr NodeId) → Analysis → Analysis
  | [], a => a
  | e :: rest, a => Expr.annotateAll id rest (e.annotate id a).2

end

def Expr.annotateDropped (id : Nat) (node : NodeId) (e : Expr NodeId) (a : Analysis) :
    Analysis :=
  match e with
  -- An assignment as a statement makes no copy of the value, so there is nothing to drop.
  | .assign n target value =>
    (a.annotateAssign id n false target (fun a => target.annotate id a)
      fun a => value.annotate id a).2
  | e =>
    let r := e.annotate id a
    match r.1 with
    | none => r.2
    | some .void => r.2.setType node (some .void)
    | some type => (r.2.pop id 1).setType node (some type)

def Declarator.annotate (type : Option DataType) (id : Nat) (d : Declarator NodeId)
    (a : Analysis) : Analysis :=
  match d.init with
  | some e =>
    let r := e.annotate id a
    let varType := type.or r.1
    ((r.2.pop id 1).mapScopes fun t =>
      t.declareVariable id d.name varType true d.tag).setType d.tag varType
  | none => (a.mapScopes fun t => t.declareVariable id d.name type false d.tag).setType d.tag type

def Declarator.annotateAll (type : Option DataType) (id : Nat) :
    List (Declarator NodeId) → Analysis → Analysis
  | [], a => a
  | d :: rest, a => Declarator.annotateAll type id rest (d.annotate type id a)

mutual

def Stmt.annotate : Stmt NodeId → Nat → Analysis → Analysis
  | .expr n e _, id, a => e.annotateDropped id n a
  | .declare _ type vars _, id, a => Declarator.annotateAll type id vars a
  | .ret n (some e) _, id, a =>
    let r := e.annotate id a
    ((r.2.pop id 1).setType n r.1).mapScopes fun t => t.markReturn id
  | .ret n none _, id, a => (a.setType n (some .void)).mapScopes fun t => t.markReturn id
  | .block n body _, id, a => a.inScope id n fun inner a => Stmt.annotateAll body inner a
  | .ifThen n cond yes _, id, a =>
    a.inScope id n fun inner a => yes.annotate inner ((cond.annotate inner a).2.pop inner 1)
  | .ifElse n cond yes m no _, id, a =>
    (a.inScope id n fun inner a =>
      yes.annotate inner ((cond.annotate inner a).2.pop inner 1)).inScope id m
        fun inner a => no.annotate inner a
  | .loop n cond body _, id, a =>
    a.inScope id n fun inner a => body.annotate inner ((cond.annotate inner a).2.pop inner 1)

def Stmt.annotateAll : List (Stmt NodeId) → Nat → Analysis → Analysis
  | [], _, a => a
  | s :: rest, id, a => Stmt.annotateAll rest id (s.annotate id a)

end

def Block.annotate (b : Block NodeId) (id : Nat) (a : Analysis) : Analysis :=
  a.inScope id b.tag fun inner a => Stmt.annotateAll b.stmts inner a

def Param.annotateAll (id : Nat) : List (Param NodeId) → Analysis → Analysis
  | [], a => a
  | p :: rest, a =>
    Param.annotateAll id rest
      (a.mapScopes fun t => t.declareVariable id p.name (some p.type) true p.tag)

def Method.annotate (m : Method NodeId) (a : Analysis) : Analysis :=
  a.inScope ScopeTree.root m.tag fun inner a =>
    m.body.annotate inner (Param.annotateAll inner m.params a)

def Method.annotateAll : List (Method NodeId) → Analysis → Analysis
  | [], a => a
  | m :: rest, a => Method.annotateAll rest (m.annotate a)

def selfName : String := "this"

namespace Analysis

def declareMethods (a : Analysis) (p : Program NodeId) : Analysis :=
  { a with
    methods := p.methods.foldl
      (fun t m => t.declare m.name m.returnType m.paramTypes m.span) a.methods }

/-- The object takes slot 0 in the root scope, ahead of all parameters. -/
def annotate (a : Analysis) (p : Program NodeId) : Analysis :=
  Method.annotateAll p.methods
    ((a.bindScope p.tag ScopeTree.root).mapScopes fun t =>
      t.declareVariable ScopeTree.root selfName (some .self) true p.tag)

end Analysis
end ClassCompiler
