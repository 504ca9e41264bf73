import ClassCompiler.Proofs.Growth

/-! The nodes that open a scope: the program, its methods, and every block, conditional, else clause
and loop. The first walk binds a scope to each of them and to no other node, and takes away no scope
that was bound before. -/
namespace ClassCompiler

def NodeKind.opensScope : NodeKind → Bool
  | .program | .method .. | .block | .ifStmt | .elseClause | .loop => true
  | _ => false

def openers {τ : Type} (nodes : List (Node τ)) : List τ :=
  (nodes.filter fun n => n.kind.opensScope).map Node.tag

section
variable {τ : Type}

@[simp] theorem openersNil : openers ([] : List (Node τ)) = [] := rfl

@[simp] theorem openersCons (n : Node τ) (rest : List (Node τ)) : openers (n :: rest) =
    if n.kind.opensScope then n.tag :: openers rest else openers rest := by
  unfold openers
  rw [List.filter_cons]
  split <;> rfl

@[simp] theorem openersAppend (first second : List (Node τ)) :
    openers (first ++ second) = openers first ++ openers second := by
  simp [openers]

mutual

@[simp] theorem Expr.nodesOpeners : ∀ e : Expr τ, openers e.nodes = []
  | .literal .. | .var .. | .read .. | .random .. => by simp [Expr.nodes, NodeKind.opensScope]
  | .binary _ _ left right => by
    simp [Expr.nodes, NodeKind.opensScope, left.nodesOpeners, right.nodesOpeners]
  | .not _ operand _ => by simp [Expr.nodes, NodeKind.opensScope, operand.nodesOpeners]
  | .assign _ target value => by
    simp [Expr.nodes, NodeKind.opensScope, target.nodesOpeners, value.nodesOpeners]
  | .call _ _ args _ => by simp [Expr.nodes, NodeKind.opensScope, Expr.nodesAllOpeners args]
  | .writeLine _ value _ => by simp [Expr.nodes, NodeKind.opensScope, value.nodesOpeners]
  | .randomBelow _ bound _ => by simp [Expr.nodes, NodeKind.opensScope, bound.nodesOpeners]

theorem Expr.nodesAllOpeners : ∀ es : List (Expr τ), openers (Expr.nodesAll es) = []
  | [] => rfl
  | e :: rest => by simp [Expr.nodesAll, e.nodesOpeners, Expr.nodesAllOpeners rest]

end

@[simp] theorem Expr.nodesOptionOpeners (e : Option (Expr τ)) : openers (Expr.nodesOption e) = [] := by
  cases e <;> simp [Expr.nodesOption]

@[simp] theorem Declarator.nodesOpeners (ds : List (Declarator τ)) :
    openers (ds.flatMap Declarator.nodes) = [] := by
  induction ds with
  | nil => rfl
  | cons d rest ih => simp [Declarator.nodes, NodeKind.opensScope, ih]

@[simp] theorem Param.nodesOpeners (ps : List (Param τ)) : openers (ps.map Param.node) = [] := by
  induction ps with
  | nil => rfl
  | cons param rest ih => simp [Param.node, NodeKind.opensScope, ih]

end

namespace Analysis

structure Rests (a b : Analysis) : Prop where
  scopeIds : b.scopeIds = a.scopeIds
  quiet : b.diagnostics = a.diagnostics

namespace Rests
variable {a b c : Analysis}

theorem refl (a : Analysis) : a.Rests a := ⟨rfl, rfl⟩

theorem trans (left : a.Rests b) (right : b.Rests c) : a.Rests c :=
  ⟨right.scopeIds.trans left.scopeIds, right.quiet.trans left.quiet⟩

theorem mapScopes (a : Analysis) (f : ScopeTree → ScopeTree) : a.Rests (a.mapScopes f) := ⟨rfl, rfl⟩

theorem push (a : Analysis) (id n : Nat) : a.Rests (a.push id n) := ⟨rfl, rfl⟩

theorem pop (a : Analysis) (id n : Nat) : a.Rests (a.pop id n) := ⟨rfl, rfl⟩

theorem setType (a : Analysis) (n : NodeId) (type : Option DataType) : a.Rests (a.setType n type) := by
  cases type <;> exact ⟨rfl, rfl⟩

theorem useMethod (a : Analysis) (id : Nat) (name : String) : a.Rests (a.useMethod id name).2 := by
  unfold Analysis.useMethod
  split
  · dsimp only
    split <;> exact ⟨rfl, rfl⟩
  · exact refl a

theorem useIntrinsic (a : Analysis) (id : Nat) (i : Intrinsic) (params : List DataType) (span : Span) :
    a.Rests (a.useIntrinsic id i params span) := ⟨rfl, rfl⟩

theorem assign (a : Analysis) (id : Nat) (n : NodeId) (keep : Bool) (target : Expr NodeId)
    {walkTarget walkValue : Analysis → Option DataType × Analysis}
    (first : ∀ b : Analysis, b.Rests (walkTarget b).2)
    (second : ∀ b : Analysis, b.Rests (walkValue b).2) :
    a.Rests (a.annotateAssign id n keep target walkTarget walkValue).2 := by
  have value := second a
  unfold annotateAssign
  cases target.asName with
  | some x =>
    have stored := value.trans (setType _ target.tag ((walkValue a).2.nameType? id x))
    cases keep with
    | true => exact ((stored.trans (push _ id 1)).trans (pop _ id 1)).trans (setType _ n _)
    | false => exact (stored.trans (pop _ id 1)).trans (setType _ n _)
  | none =>
    have stored := (value.trans (first _)).trans (pop _ id 1)
    cases keep with
    | true => exact ((stored.trans (push _ id 1)).trans (pop _ id 1)).trans (setType _ n _)
    | false => exact (stored.trans (pop _ id 1)).trans (setType _ n _)

end Rests
end Analysis

open Analysis (Rests)

mutual

theorem Expr.annotateRests (id : Nat) : ∀ (e : Expr NodeId) (a : Analysis), a.Rests (e.annotate id a).2
  | .literal n .., a | .var n .., a => by
    simp only [Expr.annotate]
    exact (Rests.push a id 1).trans (.setType _ n _)
  | .binary n op left right, a => by
    have l := left.annotateRests id a
    simp only [Expr.annotate]
    cases op.group with
    | logical =>
      have r := (l.trans (.pop _ id 1)).trans (right.annotateRests id _)
      exact ((r.trans (.pop _ id 1)).trans (.push _ id 1)).trans (.setType _ n _)
    | arithmetic => exact ((l.trans (right.annotateRests id _)).trans (.pop _ id 1)).trans (.setType _ n _)
    | relational => exact ((l.trans (right.annotateRests id _)).trans (.pop _ id 1)).trans (.setType _ n _)
  | .not n operand _, a => by
    simp only [Expr.annotate]
    exact (operand.annotateRests id a).trans (.setType _ n _)
  | .assign n target value, a =>
    .assign a id n true target (fun b => target.annotateRests id b) fun b => value.annotateRests id b
  | .call n m args _, a => by
    have walked := (Rests.push a id 1).trans (Expr.annotateAllRests id args _)
    simp only [Expr.annotate]
    exact ((walked.trans (.pop _ id _)).trans (.useMethod _ id m)).trans (.setType _ n _)
  | .writeLine n value span, a => by
    have walked := (Rests.push a id 1).trans (value.annotateRests id _)
    simp only [Expr.annotate]
    exact ((walked.trans (.pop _ id 2)).trans (.useIntrinsic _ id .writeLine _ span)).trans
      (.setType _ n _)
  | .read n input span, a => by
    have moved := ((Rests.push a id 3).trans (.pop _ id 3)).trans (.push _ id 1)
    simp only [Expr.annotate]
    exact (moved.trans (.useIntrinsic _ id (.read input) [] span)).trans (.setType _ n _)
  | .random n span, a => by
    have moved := (((Rests.push a id 2).trans (.pop _ id 1)).trans (.pop _ id 1)).trans (.push _ id 1)
    simp only [Expr.annotate]
    exact (moved.trans (.useIntrinsic _ id .randomInt [] span)).trans (.setType _ n _)
  | .randomBelow n bound span, a => by
    have walked := ((Rests.push a id 2).trans (.pop _ id 1)).trans (bound.annotateRests id _)
    simp only [Expr.annotate]
    exact (((walked.trans (.pop _ id 2)).trans (.push _ id 1)).trans
      (.useIntrinsic _ id .randomInt [.int] span)).trans (.setType _ n _)

theorem Expr.annotateAllRests (id : Nat) : ∀ (es : List (Expr NodeId)) (a : Analysis),
    a.Rests (Expr.annotateAll id es a)
  | [], a => .refl a
  | e :: rest, a => (e.annotateRests id a).trans (Expr.annotateAllRests id rest _)

end

theorem Expr.droppedRests (id : Nat) (n : NodeId) (e : Expr NodeId) (a : Analysis) :
    a.Rests (e.annotateDropped id n a) := by
  unfold Expr.annotateDropped
  split
  · exact .assign a id _ false _ (fun b => Expr.annotateRests id _ b)
      fun b => Expr.annotateRests id _ b
  · have walked := e.annotateRests id a
    dsimp only
    split
    · exact walked
    · exact walked.trans (.setType _ n _)
    · exact (walked.trans (.pop _ id 1)).trans (.setType _ n _)

theorem Declarator.annotateRests (type : Option DataType) (id : Nat) (d : Declarator NodeId)
    (a : Analysis) : a.Rests (d.annotate type id a) := by
  unfold Declarator.annotate
  split
  · rename_i e _
    exact (((e.annotateRests id a).trans (.pop _ id 1)).trans (.mapScopes _ _)).trans (.setType _ d.tag _)
  · exact (Rests.mapScopes a _).trans (.setType _ d.tag type)

theorem Declarator.annotateAllRests (type : Option DataType) (id : Nat)
    (ds : List (Declarator NodeId)) (a : Analysis) : a.Rests (Declarator.annotateAll type id ds a) := by
  induction ds generalizing a with
  | nil => exact .refl a
  | cons d rest ih => exact (d.annotateRests type id a).trans (ih _)

theorem Param.annotateAllRests (id : Nat) (ps : List (Param NodeId)) (a : Analysis) :
    a.Rests (Param.annotateAll id ps a) := by
  induction ps generalizing a with
  | nil => exact .refl a
  | cons param rest ih => exact (Rests.mapScopes a _).trans (ih _)

namespace Analysis

def Binds (a : Analysis) (n : NodeId) : Prop := ∃ id, a.scopeIds.get? n = some id

/-- From `a` to `b` these nodes and no others have got a scope, and nothing has been reported. -/
structure Opens (nodes : List NodeId) (a b : Analysis) : Prop where
  binds : ∀ n, b.Binds n ↔ a.Binds n ∨ n ∈ nodes
  quiet : b.diagnostics = a.diagnostics

namespace Opens
variable {a b c : Analysis}

theorem rest (rests : a.Rests b) : a.Opens [] b where
  binds n := by simp [Binds, rests.scopeIds]
  quiet := rests.quiet

theorem trans {first second : List NodeId} (left : a.Opens first b) (right : b.Opens second c) :
    a.Opens (first ++ second) c where
  binds n := by rw [right.binds n, left.binds n, List.mem_append, or_assoc]
  quiet := right.quiet.trans left.quiet

theorem bindScope (a : Analysis) (n : NodeId) (id : Nat) : a.Opens [n] (a.bindScope n id) where
  binds other := by
    unfold Binds Analysis.bindScope
    rw [Table.getInsert]
    by_cases here : n = other
    · simp [here]
    · have away : other ≠ n := fun same => here same.symm
      simp [here, away]
  quiet := rfl

theorem inScope {nodes : List NodeId} {n : NodeId} {id : Nat} (inside : Nat → Analysis → Analysis)
    (inner : (a.entered id n).Opens nodes (inside a.scopes.size (a.entered id n))) :
    a.Opens (n :: nodes) (a.inScope id n inside) := by
  have entered : a.Opens [n] (a.entered id n) :=
    (rest (.mapScopes a fun t => t.enter id)).trans (bindScope _ n _)
  have left : (inside a.scopes.size (a.entered id n)).Opens [] (a.inScope id n inside) :=
    rest ⟨rfl, rfl⟩
  simpa using (entered.trans inner).trans left

end Opens
end Analysis

open Analysis (Opens)

theorem Stmt.conditionalOpens (id : Nat) (a : Analysis) (n : NodeId) (cond : Expr NodeId)
    (body : Stmt NodeId) {nodes : List NodeId}
    (rest : ∀ b : Analysis, b.Opens nodes (body.annotate a.scopes.size b)) :
    a.Opens (n :: nodes) (a.inScope id n fun inner a =>
      body.annotate inner ((cond.annotate inner a).2.pop inner 1)) := by
  have first : (a.entered id n).Opens []
      ((cond.annotate a.scopes.size (a.entered id n)).2.pop a.scopes.size 1) :=
    .rest ((cond.annotateRests a.scopes.size _).trans (.pop _ _ 1))
  exact .inScope _ (first.trans (rest _))

mutual

theorem Stmt.annotateOpens : ∀ (s : Stmt NodeId) (id : Nat) (a : Analysis),
    a.Opens (openers s.nodes) (s.annotate id a)
  | .expr n e _, id, a => by
    simpa [Stmt.annotate, Stmt.nodes, NodeKind.opensScope] using
      Opens.rest (e.droppedRests id n a)
  | .declare n type vars _, id, a => by
    simpa [Stmt.annotate, Stmt.nodes, NodeKind.opensScope] using
      Opens.rest (Declarator.annotateAllRests type id vars a)
  | .ret n value span, id, a => by
    have rests : a.Rests ((Stmt.ret n value span).annotate id a) := by
      cases value with
      | none => exact (Rests.setType a n _).trans (.mapScopes _ _)
      | some e =>
        simp only [Stmt.annotate]
        exact (((e.annotateRests id a).trans (.pop _ id 1)).trans (.setType _ n _)).trans
          (.mapScopes _ _)
    simpa [Stmt.nodes, NodeKind.opensScope] using Opens.rest rests
  | .block n body _, id, a => by
    simpa [Stmt.annotate, Stmt.nodes, NodeKind.opensScope] using
      Opens.inScope (fun inner a => Stmt.annotateAll body inner a) (Stmt.annotateAllOpens body _ _)
  | .ifThen n cond yes _, id, a => by
    simpa [Stmt.annotate, Stmt.nodes, NodeKind.opensScope] using
      Stmt.conditionalOpens id a n cond yes (yes.annotateOpens _)
  | .ifElse n cond yes m no _, id, a => by
    simpa [Stmt.annotate, Stmt.nodes, NodeKind.opensScope] using
      (Stmt.conditionalOpens id a n cond yes (yes.annotateOpens _)).trans
        (Opens.inScope (fun inner a => no.annotate inner a) (no.annotateOpens _ _))
  | .loop n cond body _, id, a => by
    simpa [Stmt.annotate, Stmt.nodes, NodeKind.opensScope] using
      Stmt.conditionalOpens id a n cond body (body.annotateOpens _)

theorem Stmt.annotateAllOpens : ∀ (ss : List (Stmt NodeId)) (id : Nat) (a : Analysis),
    a.Opens (openers (Stmt.nodesAll ss)) (Stmt.annotateAll ss id a)
  | [], id, a => .rest (.refl a)
  | s :: rest, id, a => by
    simpa [Stmt.nodesAll, Stmt.annotateAll] using
      (s.annotateOpens id a).trans (Stmt.annotateAllOpens rest id _)

end

theorem Method.annotateOpens (m : Method NodeId) (a : Analysis) :
    a.Opens (openers m.nodes) (m.annotate a) := by
  let params := Param.annotateAll a.scopes.size m.params (a.entered ScopeTree.root m.tag)
  have first : (a.entered ScopeTree.root m.tag).Opens [] params :=
    .rest (Param.annotateAllRests _ m.params _)
  have body : params.Opens (m.body.tag :: openers (Stmt.nodesAll m.body.stmts))
      (m.body.annotate a.scopes.size params) :=
    .inScope _ (Stmt.annotateAllOpens m.body.stmts _ _)
  simpa [Method.annotate, Method.nodes, Block.nodes, NodeKind.opensScope] using
    Opens.inScope (fun inner a => m.body.annotate inner (Param.annotateAll inner m.params a))
      (first.trans body)

theorem Method.annotateAllOpens (ms : List (Method NodeId)) (a : Analysis) :
    a.Opens (openers (ms.flatMap Method.nodes)) (Method.annotateAll ms a) := by
  induction ms generalizing a with
  | nil => exact .rest (.refl a)
  | cons m rest ih =>
    simpa [Method.annotateAll] using (m.annotateOpens a).trans (ih (m.annotate a))

theorem Program.annotateOpens (p : Program NodeId) (start : Analysis) :
    start.Opens (openers p.nodes) ((start.declareMethods p).annotate p) := by
  have declared : start.Opens [] (start.declareMethods p) := .rest ⟨rfl, rfl⟩
  have bound := declared.trans (.bindScope (start.declareMethods p) p.tag ScopeTree.root)
  simpa [Analysis.annotate, Program.nodes, NodeKind.opensScope] using
    (bound.trans (.rest (.mapScopes _ _))).trans (Method.annotateAllOpens p.methods _)

end ClassCompiler
