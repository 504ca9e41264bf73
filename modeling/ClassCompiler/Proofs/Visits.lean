import ClassCompiler.Proofs.Compilation

/-! The first walk and the check at the nodes of a program. The nodes are listed in pre-order, and with
each of them the scope and the state in which the walk comes to it, and the progress in which the check
does. -/
namespace ClassCompiler

section
variable {τ : Type}

def Expr.kind : Expr τ → NodeKind
  | .literal _ value _ => .literal value.dataType
  | .var _ x _ => .var x
  | .binary _ op _ _ => .binary op
  | .not .. => .not
  | .assign _ target _ => .assign target.asName
  | .call _ m _ _ => .call m
  | .writeLine .. => .intrinsic .writeLine
  | .read _ input _ => .intrinsic (.read input)
  | .random .. | .randomBelow .. => .intrinsic .randomInt

def Expr.node (e : Expr τ) : Node τ := ⟨e.tag, e.kind, e.span⟩

def Stmt.kind : Stmt τ → NodeKind
  | .expr .. => .exprStmt
  | .declare _ type _ _ => .declaration type
  | .ret .. => .ret
  | .block .. => .block
  | .ifThen .. | .ifElse .. => .ifStmt
  | .loop .. => .loop

def Stmt.node (s : Stmt τ) : Node τ := ⟨s.tag, s.kind, s.span⟩

end

/-- What the check does with a node: it evaluates an expression, or takes a name for the target of an
assignment, or else does something that gives no type. -/
inductive Part where
  | value (e : Expr NodeId)
  | target
  | other
  deriving Repr

/-- The walk knows the scope as `here`, and the finished analysis knows it as `id`. -/
structure Visit where
  node : Node NodeId
  part : Part
  here : Nat
  id : Nat
  walk : Analysis
  check : Progress
  deriving Repr

def Expr.visit (e : Expr NodeId) (here id : Nat) (a : Analysis) (q : Progress) : Visit :=
  ⟨e.node, .value e, here, id, a, q⟩

def Stmt.visit (s : Stmt NodeId) (here id : Nat) (a : Analysis) (q : Progress) : Visit :=
  ⟨s.node, .other, here, id, a, q⟩

def Declarator.ready (d : Declarator NodeId) (here : Nat) (a : Analysis) : Analysis :=
  match d.init with
  | some e => (e.annotate here a).2.pop here 1
  | none => a

section
variable (F : Analysis)

def Stmt.checked (returns : DataType) (s : Stmt NodeId) (id : Nat) (q : Progress) : Progress :=
  (s.check F returns id q).toOption.getD q

mutual

/-- The walk comes to the target of an assignment behind the value, and the check before it. -/
def Expr.visits (here id : Nat) : Expr NodeId → Analysis → Progress → List Visit
  | .literal n value span, a, q => [(Expr.literal n value span).visit here id a q]
  | .var n x span, a, q => [(Expr.var n x span).visit here id a q]
  | .binary n op left right, a, q =>
    let l := (left.annotate here a).2
    (Expr.binary n op left right).visit here id a q ::
      (left.visits here id a q ++
        right.visits here id (if op.group = .logical then l.pop here 1 else l) (left.check F id q).2)
  | .not n operand span, a, q =>
    (Expr.not n operand span).visit here id a q :: operand.visits here id a q
  | .assign n target value, a, q =>
    (Expr.assign n target value).visit here id a q ::
      match target.asName with
      | some x =>
        ⟨target.node, .target, here, id, (value.annotate here a).2, q⟩ ::
          value.visits here id a (q.checkStore F id x target.span).2
      | none =>
        let reported := q.report .invalidAssignmentTarget target.span
        target.visits here id (value.annotate here a).2 reported ++
          value.visits here id a (target.check F id reported).2
  | .call n m args span, a, q =>
    (Expr.call n m args span).visit here id a q :: Expr.visitsAll here id args (a.push here 1) q
  | .writeLine n value span, a, q =>
    (Expr.writeLine n value span).visit here id a q :: value.visits here id (a.push here 1) q
  | .read n input span, a, q => [(Expr.read n input span).visit here id a q]
  | .random n span, a, q => [(Expr.random n span).visit here id a q]
  | .randomBelow n bound span, a, q =>
    (Expr.randomBelow n bound span).visit here id a q ::
      bound.visits here id ((a.push here 2).pop here 1) q

def Expr.visitsAll (here id : Nat) : List (Expr NodeId) → Analysis → Progress → List Visit
  | [], _, _ => []
  | e :: rest, a, q =>
    e.visits here id a q ++ Expr.visitsAll here id rest (e.annotate here a).2 (e.check F id q).2

end

def Expr.visitsOption (here id : Nat) (e : Option (Expr NodeId)) (a : Analysis) (q : Progress) :
    List Visit :=
  match e with
  | none => []
  | some e => e.visits F here id a q

def Declarator.visitsAll (type : Option DataType) (span : Span) (here id : Nat) :
    List (Declarator NodeId) → Analysis → Progress → List Visit
  | [], _, _ => []
  | d :: rest, a, q =>
    ⟨⟨d.tag, .declarator d.name, d.span⟩, .other, here, id, d.ready here a, q⟩ ::
      (Expr.visitsOption F here id d.init a q ++
        Declarator.visitsAll type span here id rest (d.annotate type here a) (d.check F type span id q))

mutual

def Stmt.visits (returns : DataType) : Stmt NodeId → Nat → Nat → Analysis → Progress → List Visit
  | .expr n e span, here, id, a, q =>
    (Stmt.expr n e span).visit here id a q :: e.visits F here id a q
  | .declare n type vars span, here, id, a, q =>
    (Stmt.declare n type vars span).visit here id a q ::
      Declarator.visitsAll F type span here id vars a q
  | .ret n e span, here, id, a, q =>
    (Stmt.ret n e span).visit here id a q :: Expr.visitsOption F here id e a q
  | .block n body span, here, id, a, q =>
    (Stmt.block n body span).visit here id a q ::
      Stmt.visitsAll returns body a.scopes.size (F.scopeAt n) (a.entered here n) q
  | .ifThen n cond yes span, here, id, a, q =>
    let inner := a.scopes.size
    (Stmt.ifThen n cond yes span).visit here id a q ::
      (cond.visits F inner (F.scopeAt n) (a.entered here n) q ++
        yes.visits returns inner (F.scopeAt n)
          ((cond.annotate inner (a.entered here n)).2.pop inner 1)
          (cond.checkCondition F (F.scopeAt n) span q))
  | .ifElse n cond yes m no span, here, id, a, q =>
    let inner := a.scopes.size
    let walked := (Stmt.ifThen n cond yes span).annotate here a
    let checked := (Stmt.ifThen n cond yes span).checked F returns id q
    (Stmt.ifElse n cond yes m no span).visit here id a q ::
      (cond.visits F inner (F.scopeAt n) (a.entered here n) q ++
        yes.visits returns inner (F.scopeAt n)
          ((cond.annotate inner (a.entered here n)).2.pop inner 1)
          (cond.checkCondition F (F.scopeAt n) span q) ++
        ⟨⟨m, .elseClause, no.span⟩, .other, here, id, walked, checked⟩ ::
          no.visits returns walked.scopes.size (F.scopeAt m) (walked.entered here m) checked)
  | .loop n cond body span, here, id, a, q =>
    let inner := a.scopes.size
    (Stmt.loop n cond body span).visit here id a q ::
      (cond.visits F inner (F.scopeAt n) (a.entered here n) q ++
        body.visits returns inner (F.scopeAt n)
          ((cond.annotate inner (a.entered here n)).2.pop inner 1)
          (cond.checkCondition F (F.scopeAt n) span q))

def Stmt.visitsAll (returns : DataType) :
    List (Stmt NodeId) → Nat → Nat → Analysis → Progress → List Visit
  | [], _, _, _, _ => []
  | s :: rest, here, id, a, q =>
    s.visits returns here id a q ++
      Stmt.visitsAll returns rest here id (s.annotate here a) (s.checked F returns id q)

end

def Param.visitsAll (here id : Nat) : List (Param NodeId) → Analysis → Progress → List Visit
  | [], _, _ => []
  | p :: rest, a, q =>
    ⟨p.node, .other, here, id, a, q⟩ ::
      Param.visitsAll here id rest
        (a.mapScopes fun t => t.declareVariable here p.name (some p.type) true p.tag) (q.reach p.tag)

def Method.visits (m : Method NodeId) (a : Analysis) (q : Progress) : List Visit :=
  let opened := Method.opened a m
  let given := q.receive m.params
  ⟨⟨m.tag, .method m.name m.returnType m.paramTypes, m.span⟩, .other, ScopeTree.root, ScopeTree.root,
      a, q⟩ ::
    (Param.visitsAll a.scopes.size (F.scopeAt m.tag) m.params (a.entered ScopeTree.root m.tag) q ++
      ⟨⟨m.body.tag, .block, m.body.span⟩, .other, a.scopes.size, F.scopeAt m.tag, opened, given⟩ ::
        Stmt.visitsAll F m.returnType m.body.stmts opened.scopes.size (F.scopeAt m.body.tag)
          (opened.entered a.scopes.size m.body.tag) given)

def Method.visitsAll : List (Method NodeId) → Analysis → Progress → List Visit
  | [], _, _ => []
  | m :: rest, a, q =>
    m.visits F a q ++ Method.visitsAll rest (m.annotate a) ((m.check F q).toOption.getD q)

end

def Program.visits (p : Program NodeId) : List Visit :=
  let start := p.annotated.startCheck p
  ⟨⟨p.tag, .program, p.span⟩, .other, ScopeTree.root, ScopeTree.root,
      (({} : Analysis).declareMethods p).bindScope p.tag ScopeTree.root, start⟩ ::
    Method.visitsAll p.annotated p.methods p.begun start

section
variable {F : Analysis}

mutual

theorem Expr.visitsNodes (here id : Nat) : ∀ (e : Expr NodeId) (a : Analysis) (q : Progress),
    (e.visits F here id a q).map Visit.node = e.nodes
  | .literal .., a, q | .var .., a, q | .read .., a, q | .random .., a, q => rfl
  | .binary n op left right, a, q => by
    rw [Expr.visits, List.map_cons, List.map_append, left.visitsNodes, right.visitsNodes]
    rfl
  | .not n operand span, a, q => by
    rw [Expr.visits, List.map_cons, operand.visitsNodes]
    rfl
  | .assign n target value, a, q => by
    rw [Expr.visits, List.map_cons]
    cases target with
    | var k x place =>
      rw [Expr.asName, List.map_cons, value.visitsNodes]
      rfl
    | _ =>
      simp only [Expr.asName]
      rw [List.map_append, Expr.visitsNodes, value.visitsNodes]
      rfl
  | .call n m args span, a, q => by
    rw [Expr.visits, List.map_cons, Expr.visitsAllNodes here id args]
    rfl
  | .writeLine n value span, a, q => by
    rw [Expr.visits, List.map_cons, value.visitsNodes]
    rfl
  | .randomBelow n bound span, a, q => by
    rw [Expr.visits, List.map_cons, bound.visitsNodes]
    rfl

theorem Expr.visitsAllNodes (here id : Nat) : ∀ (es : List (Expr NodeId)) (a : Analysis)
    (q : Progress), (Expr.visitsAll F here id es a q).map Visit.node = Expr.nodesAll es
  | [], a, q => rfl
  | e :: rest, a, q => by
    rw [Expr.visitsAll, List.map_append, e.visitsNodes, Expr.visitsAllNodes here id rest]
    rfl

end

theorem Expr.visitsOptionNodes (here id : Nat) (e : Option (Expr NodeId)) (a : Analysis)
    (q : Progress) : (Expr.visitsOption F here id e a q).map Visit.node = Expr.nodesOption e := by
  cases e with
  | none => rfl
  | some e => exact e.visitsNodes here id a q

theorem Declarator.visitsAllNodes (type : Option DataType) (span : Span) (here id : Nat)
    (ds : List (Declarator NodeId)) (a : Analysis) (q : Progress) :
    (Declarator.visitsAll F type span here id ds a q).map Visit.node =
      ds.flatMap Declarator.nodes := by
  induction ds generalizing a q with
  | nil => rfl
  | cons d rest ih =>
    rw [Declarator.visitsAll, List.map_cons, List.map_append, Expr.visitsOptionNodes, ih]
    rfl

mutual

theorem Stmt.visitsNodes (returns : DataType) : ∀ (s : Stmt NodeId) (here id : Nat) (a : Analysis)
    (q : Progress), (s.visits F returns here id a q).map Visit.node = s.nodes
  | .expr n e span, here, id, a, q => by
    rw [Stmt.visits, List.map_cons, Expr.visitsNodes]
    rfl
  | .declare n type vars span, here, id, a, q => by
    rw [Stmt.visits, List.map_cons, Declarator.visitsAllNodes]
    rfl
  | .ret n e span, here, id, a, q => by
    rw [Stmt.visits, List.map_cons, Expr.visitsOptionNodes]
    rfl
  | .block n body span, here, id, a, q => by
    rw [Stmt.visits, List.map_cons, Stmt.visitsAllNodes returns body]
    rfl
  | .ifThen n cond yes span, here, id, a, q => by
    rw [Stmt.visits, List.map_cons, List.map_append, Expr.visitsNodes, yes.visitsNodes]
    rfl
  | .ifElse n cond yes m no span, here, id, a, q => by
    rw [Stmt.visits, List.map_cons, List.map_append, List.map_append, List.map_cons,
      Expr.visitsNodes, yes.visitsNodes, no.visitsNodes]
    rfl
  | .loop n cond body span, here, id, a, q => by
    rw [Stmt.visits, List.map_cons, List.map_append, Expr.visitsNodes, body.visitsNodes]
    rfl

theorem Stmt.visitsAllNodes (returns : DataType) : ∀ (ss : List (Stmt NodeId)) (here id : Nat)
    (a : Analysis) (q : Progress),
    (Stmt.visitsAll F returns ss here id a q).map Visit.node = Stmt.nodesAll ss
  | [], here, id, a, q => rfl
  | s :: rest, here, id, a, q => by
    rw [Stmt.visitsAll, List.map_append, s.visitsNodes, Stmt.visitsAllNodes returns rest]
    rfl

end

theorem Param.visitsAllNodes (here id : Nat) (ps : List (Param NodeId)) (a : Analysis)
    (q : Progress) : (Param.visitsAll here id ps a q).map Visit.node = ps.map Param.node := by
  induction ps generalizing a q with
  | nil => rfl
  | cons p rest ih => rw [Param.visitsAll, List.map_cons, List.map_cons, ih]

theorem Method.visitsNodes (m : Method NodeId) (a : Analysis) (q : Progress) :
    (m.visits F a q).map Visit.node = m.nodes := by
  rw [Method.visits, List.map_cons, List.map_append, List.map_cons, Param.visitsAllNodes,
    Stmt.visitsAllNodes]
  rfl

theorem Method.visitsAllNodes (ms : List (Method NodeId)) (a : Analysis) (q : Progress) :
    (Method.visitsAll F ms a q).map Visit.node = ms.flatMap Method.nodes := by
  induction ms generalizing a q with
  | nil => rfl
  | cons m rest ih => rw [Method.visitsAll, List.map_append, m.visitsNodes, ih, List.flatMap_cons]

end

theorem Program.visitsNodes (p : Program NodeId) : p.visits.map Visit.node = p.nodes := by
  rw [Program.visits, List.map_cons, Method.visitsAllNodes]
  rfl

end ClassCompiler
