import ClassCompiler.Proofs.CleanProgram
import ClassCompiler.Proofs.Segment
import Mathlib.Data.List.Nodup
import Mathlib.Data.List.Pairwise

/-! Where the variables of a finished analysis come from: each is the object, a parameter, or stands
at a declaration, in the scope of that declaration and with the type recorded there. -/
namespace ClassCompiler

namespace ScopeTree

theorem declaredSymbol (t : ScopeTree) (id i : Nat) (name x : String) (type : Option DataType)
    (initialized : Bool) (node : NodeId) :
    (t.declareVariable id name type initialized node).symbol? i x =
      if id = i ∧ i < t.size ∧ name = x then some (.var ⟨type, t.nextSlot id, initialized, node⟩)
      else t.symbol? i x := by
  unfold symbol? declareVariable
  rw [scopeModify]
  by_cases here : id = i ∧ i < t.size
  · rw [if_pos here]
    by_cases named : name = x
    · simp [Scope.declareVariable, here.1, here.2, named]
    · simp [Scope.declareVariable, Table.getInsert, named]
  · rw [if_neg here, if_neg fun all => here ⟨all.1, all.2.1⟩]

theorem leaveSymbol (t : ScopeTree) (child i : Nat) (x : String) :
    (t.leave child).symbol? i x = t.symbol? i x := by
  unfold leave
  split
  · simp only [symbol?, scopeModify]
    split <;> rfl
  · rfl

end ScopeTree

namespace Analysis

@[simp] theorem pushSize (a : Analysis) (id n : Nat) :
    (a.push id n).scopes.size = a.scopes.size := by simp [push, mapScopes, ScopeTree.push]

@[simp] theorem popSize (a : Analysis) (id n : Nat) :
    (a.pop id n).scopes.size = a.scopes.size := by simp [pop, mapScopes, ScopeTree.pop]

@[simp] theorem setTypeScopes (a : Analysis) (n : NodeId) (type : Option DataType) :
    (a.setType n type).scopes = a.scopes := by cases type <;> rfl

@[simp] theorem useMethodSize (a : Analysis) (id : Nat) (name : String) :
    (a.useMethod id name).2.scopes.size = a.scopes.size := by
  unfold useMethod
  split
  · dsimp only
    split <;> simp [mapScopes, ScopeTree.useMethod]
  · rfl

@[simp] theorem useIntrinsicSize (a : Analysis) (id : Nat) (i : Intrinsic) (params : List DataType)
    (span : Span) : (a.useIntrinsic id i params span).scopes.size = a.scopes.size := by
  simp [useIntrinsic, ScopeTree.useMethod]

theorem Walks.variables {a b : Analysis} {id : Nat} {passed : List NodeId}
    (walks : a.Walks id [] passed b) (size : b.scopes.size = a.scopes.size) {i : Nat} {x : String}
    {v : Variable} (found : b.scopes.symbol? i x = some (.var v)) :
    a.scopes.symbol? i x = some (.var v) := by
  by_cases inside : i < a.scopes.size
  · rcases (walks.scope i inside).symbol x with kept | ⟨_, _, new, _⟩ | ⟨_, m, planted⟩
    · exact kept.symm.trans found
    · contradiction
    · simpa using planted.symm.trans found
  · simp [ScopeTree.symbolBeyond (show b.scopes.size ≤ i by omega)] at found

end Analysis

theorem Analysis.assignSize (a : Analysis) (id : Nat) (n : NodeId) (keep : Bool)
    (target : Expr NodeId) {walkTarget walkValue : Analysis → Option DataType × Analysis}
    (first : ∀ b : Analysis, (walkTarget b).2.scopes.size = b.scopes.size)
    (second : ∀ b : Analysis, (walkValue b).2.scopes.size = b.scopes.size) :
    (a.annotateAssign id n keep target walkTarget walkValue).2.scopes.size = a.scopes.size := by
  unfold Analysis.annotateAssign
  cases target.asName <;> cases keep <;> simp [first, second]

mutual

theorem Expr.annotateSize (id : Nat) : ∀ (e : Expr NodeId) (a : Analysis),
    (e.annotate id a).2.scopes.size = a.scopes.size
  | .literal .., a | .var .., a | .read .., a | .random .., a => by simp [Expr.annotate]
  | .binary n op left right, a => by
    by_cases logical : op.group = .logical
    · simp [Expr.annotateLogical logical, left.annotateSize id, right.annotateSize id]
    · simp [Expr.annotateStrict logical, left.annotateSize id, right.annotateSize id]
  | .not n operand _, a => by simp [Expr.annotate, operand.annotateSize id]
  | .assign n target value, a =>
    a.assignSize id n true target (fun b => target.annotateSize id b)
      fun b => value.annotateSize id b
  | .call n m args _, a => by simp [Expr.annotate, Expr.annotateAllSize id args]
  | .writeLine n value _, a => by simp [Expr.annotate, value.annotateSize id]
  | .randomBelow n bound _, a => by simp [Expr.annotate, bound.annotateSize id]

theorem Expr.annotateAllSize (id : Nat) : ∀ (es : List (Expr NodeId)) (a : Analysis),
    (Expr.annotateAll id es a).scopes.size = a.scopes.size
  | [], a => rfl
  | e :: rest, a => by simp [Expr.annotateAll, e.annotateSize id, Expr.annotateAllSize id rest]

end

theorem Expr.droppedSize (id : Nat) (n : NodeId) (e : Expr NodeId) (a : Analysis) :
    (e.annotateDropped id n a).scopes.size = a.scopes.size := by
  unfold Expr.annotateDropped
  split
  · exact a.assignSize id _ false _ (fun b => Expr.annotateSize id _ b)
      fun b => Expr.annotateSize id _ b
  · dsimp only
    split <;> simp [Expr.annotateSize]

namespace Analysis

def scopeAt (a : Analysis) (n : NodeId) : Nat := (a.scopeIds.get? n).getD ScopeTree.root

end Analysis

mutual

/-- The variables that a statement declares, each with the scope it belongs to. -/
def Stmt.placed (F : Analysis) : Stmt NodeId → Nat → List (Nat × Declarator NodeId)
  | .expr .., _ | .ret .., _ => []
  | .declare _ _ vars _, id => vars.map fun d => (id, d)
  | .block n body _, _ => Stmt.placedAll F body (F.scopeAt n)
  | .ifThen n _ yes _, _ => yes.placed F (F.scopeAt n)
  | .ifElse n _ yes m no _, _ => yes.placed F (F.scopeAt n) ++ no.placed F (F.scopeAt m)
  | .loop n _ body _, _ => body.placed F (F.scopeAt n)

def Stmt.placedAll (F : Analysis) : List (Stmt NodeId) → Nat → List (Nat × Declarator NodeId)
  | [], _ => []
  | s :: rest, id => s.placed F id ++ Stmt.placedAll F rest id

end

namespace Analysis

/-- The variables of `b` are those of `a` and the declared ones, whose types `F` has recorded. -/
def Declares (F : Analysis) (ds : List (Nat × Declarator NodeId)) (a b : Analysis) : Prop :=
  ∀ i x v, b.scopes.symbol? i x = some (.var v) → a.scopes.symbol? i x = some (.var v) ∨
    ∃ d, (i, d) ∈ ds ∧ d.name = x ∧ d.tag = v.declaredAt ∧ F.typeOf? d.tag = v.type

namespace Declares
variable {F a b c : Analysis} {ds es : List (Nat × Declarator NodeId)}

theorem trans (left : F.Declares ds a b) (right : F.Declares es b c) :
    F.Declares (ds ++ es) a c := by
  intro i x v found
  rcases right i x v found with before | ⟨d, member, facts⟩
  · rcases left i x v before with start | ⟨d, member, facts⟩
    · exact .inl start
    · exact .inr ⟨d, List.mem_append_left _ member, facts⟩
  · exact .inr ⟨d, List.mem_append_right _ member, facts⟩

theorem same (symbols : ∀ i x, b.scopes.symbol? i x = a.scopes.symbol? i x) :
    F.Declares [] a b := fun i x _ found => .inl ((symbols i x).symm.trans found)

theorem walks {id : Nat} {passed : List NodeId} (walks : a.Walks id [] passed b)
    (size : b.scopes.size = a.scopes.size) : F.Declares [] a b :=
  fun _ _ _ found => .inl (walks.variables size found)

theorem entered (a : Analysis) {id : Nat} (n : NodeId) : F.Declares [] a (a.entered id n) := by
  intro i x v found
  by_cases old : i < a.scopes.size
  · exact .inl (by simpa [ScopeTree.symbol?, enteredOld a id n old] using found)
  · by_cases new : i = a.scopes.size
    · simp [ScopeTree.symbol?, new, enteredNew] at found
    · have beyond : (a.entered id n).scopes.size ≤ i := by
        rw [enteredSize]
        omega
      simp [ScopeTree.symbolBeyond beyond] at found

theorem leave (a : Analysis) (child : Nat) :
    F.Declares [] a (a.mapScopes fun t => t.leave child) :=
  same (a.scopes.leaveSymbol child)

theorem inScope (inside : Nat → Analysis → Analysis) {id : Nat} {n : NodeId}
    (inner : F.Declares ds (a.entered id n) (inside a.scopes.size (a.entered id n))) :
    F.Declares ds a (a.inScope id n inside) := by
  have all := ((entered a n).trans inner).trans (leave _ a.scopes.size)
  rw [inScopeEntered]
  simpa using all

end Declares
end Analysis

section
variable {F : Analysis}

theorem Declarator.tagApart {a : Analysis} {kept : List NodeId} {type : Option DataType} {id : Nat}
    {d : Declarator NodeId} {e : Expr NodeId} (run : d.Run F kept type id a)
    (given : d.init = some e) : d.tag ∉ e.tags :=
  (List.nodup_cons.mp (Declarator.tagsInit given ▸ run.unique)).1

theorem Analysis.Declares.declare {b : Analysis} {type : Option DataType} {ready : Bool} {id : Nat}
    {d : Declarator NodeId} (unseen : b.typeOf? d.tag = none)
    (recorded : F.typeOf? d.tag = ((b.mapScopes fun t =>
      t.declareVariable id d.name type ready d.tag).setType d.tag type).typeOf? d.tag) :
    F.Declares [(id, d)] b ((b.mapScopes fun t =>
      t.declareVariable id d.name type ready d.tag).setType d.tag type) := by
  intro i x v found
  rw [Analysis.setTypeScopes, Analysis.mapScopes, ScopeTree.declaredSymbol] at found
  split at found
  · rename_i here
    cases found
    refine .inr ⟨d, by simp [here.1], here.2.2, rfl, recorded.trans ?_⟩
    cases type with
    | none => exact unseen
    | some known => rw [Analysis.typeOfSetType, if_pos rfl]
  · exact .inl found

theorem Declarator.annotateDeclares {a : Analysis} {kept : List NodeId} {type : Option DataType}
    {id : Nat} {d : Declarator NodeId} (run : d.Run F kept type id a) :
    F.Declares [(id, d)] a (d.annotate type id a) := by
  have unseen := run.unseen d.tag d.tagMem
  have recorded := run.ahead.type (List.mem_append_left kept d.tagMem)
  unfold Declarator.annotate at recorded ⊢
  cases given : d.init with
  | none =>
    simp only [given] at recorded ⊢
    exact .declare unseen recorded
  | some e =>
    simp only [given] at recorded ⊢
    have walks := (e.annotateWalks id a).trans (Analysis.Walks.pop _ id 1)
    have away := walks.type d.tag (by simpa using Declarator.tagApart run given)
    have before : F.Declares [] a _ := .walks walks (by simp [Expr.annotateSize])
    exact before.trans (.declare (away.trans unseen) recorded)

theorem Declarator.annotateAllDeclares {kept : List NodeId} {type : Option DataType} {id : Nat}
    {ds : List (Declarator NodeId)} {a : Analysis} (run : Declarator.RunAll F kept type id ds a) :
    F.Declares (ds.map fun d => (id, d)) a (Declarator.annotateAll type id ds a) := by
  induction ds generalizing a kept with
  | nil => exact .same fun _ _ => rfl
  | cons d rest ih =>
    obtain ⟨first, others⟩ := run.cons
    exact (Declarator.annotateDeclares first).trans (ih others)

theorem Analysis.scopeAtBound {n : NodeId} {id : Nat} (bound : F.scopeIds.get? n = some id) :
    F.scopeAt n = id := by simp [Analysis.scopeAt, bound]

theorem Expr.conditionDeclares (id : Nat) (e : Expr NodeId) (a : Analysis) :
    F.Declares [] a ((e.annotate id a).2.pop id 1) :=
  .walks (e.conditionWalks id a) (by simp [Expr.annotateSize])

mutual

theorem Stmt.annotateDeclares : ∀ (s : Stmt NodeId) {kept : List NodeId} {id : Nat} {a : Analysis},
    s.Run F kept id a → F.Declares (s.placed F id) a (s.annotate id a)
  | .expr n e _, kept, id, a, run => .walks (e.droppedWalks id n a) (e.droppedSize id n a)
  | .declare n type vars span, kept, id, a, run => Declarator.annotateAllDeclares run.declare
  | .ret n (some e) _, kept, id, a, run => by
    refine (Expr.conditionDeclares id e a).trans (.same fun i x => ?_)
    simp only [Stmt.annotate, Analysis.mapScopes, Analysis.setTypeScopes, ScopeTree.symbol?,
      ScopeTree.markReturn, ScopeTree.scopeModify]
    split <;> rfl
  | .ret n none _, kept, id, a, run => by
    refine .same fun i x => ?_
    simp only [Stmt.annotate, Analysis.mapScopes, Analysis.setTypeScopes, ScopeTree.symbol?,
      ScopeTree.markReturn, ScopeTree.scopeModify]
    split <;> rfl
  | .block n body _, kept, id, a, run => by
    obtain ⟨bound, inner⟩ := run.block
    rw [Stmt.placed, F.scopeAtBound bound]
    exact .inScope _ (Stmt.annotateAllDeclares body inner)
  | .ifThen n cond yes _, kept, id, a, run => by
    obtain ⟨bound, _, inner⟩ := run.ifThen
    rw [Stmt.placed, F.scopeAtBound bound]
    exact .inScope _ ((Expr.conditionDeclares _ cond _).trans (yes.annotateDeclares inner))
  | .ifElse n cond yes m no span, kept, id, a, run => by
    obtain ⟨first, _, beside, otherwise⟩ := run.ifElse
    obtain ⟨bound, _, inner⟩ := first.ifThen
    rw [Stmt.placed, F.scopeAtBound bound, F.scopeAtBound beside]
    have before : F.Declares _ a ((Stmt.ifThen n cond yes span).annotate id a) :=
      .inScope _ ((Expr.conditionDeclares _ cond _).trans (yes.annotateDeclares inner))
    exact before.trans (.inScope _ (no.annotateDeclares otherwise))
  | .loop n cond body _, kept, id, a, run => by
    obtain ⟨bound, _, inner⟩ := run.loop
    rw [Stmt.placed, F.scopeAtBound bound]
    exact .inScope _ ((Expr.conditionDeclares _ cond _).trans (body.annotateDeclares inner))

theorem Stmt.annotateAllDeclares : ∀ (ss : List (Stmt NodeId)) {kept : List NodeId} {id : Nat}
    {a : Analysis}, Stmt.RunAll F kept id ss a →
      F.Declares (Stmt.placedAll F ss id) a (Stmt.annotateAll ss id a)
  | [], kept, id, a, run => .same fun _ _ => rfl
  | s :: rest, kept, id, a, run => by
    obtain ⟨first, others⟩ := run.cons
    exact (s.annotateDeclares first).trans (Stmt.annotateAllDeclares rest others)

end
end

theorem Param.annotateAllOrigins (id : Nat) (ps : List (Param NodeId)) (a : Analysis) {i : Nat}
    {x : String} {v : Variable}
    (found : (Param.annotateAll id ps a).scopes.symbol? i x = some (.var v)) :
    a.scopes.symbol? i x = some (.var v) ∨
      ∃ param ∈ ps, i = id ∧ param.name = x ∧ param.tag = v.declaredAt ∧
        v.type = some param.type := by
  induction ps generalizing a with
  | nil => exact .inl found
  | cons p rest ih =>
    rcases ih _ found with before | ⟨param, member, facts⟩
    · simp only [Analysis.mapScopes] at before
      rw [ScopeTree.declaredSymbol] at before
      split at before
      · rename_i here
        cases before
        exact .inr ⟨p, List.mem_cons_self .., here.1.symm, here.2.2, rfl, rfl⟩
      · exact .inl before
    · exact .inr ⟨param, List.mem_cons_of_mem _ member, facts⟩

namespace Program

def bodyPlaced (F : Analysis) (m : Method NodeId) : List (Nat × Declarator NodeId) :=
  Stmt.placedAll F m.body.stmts (F.scopeAt m.body.tag)

inductive Origin (F : Analysis) (p : Program NodeId) (i : Nat) (x : String) (v : Variable) :
    Prop where
  | object (root : i = ScopeTree.root) (name : x = selfName) (type : v.type = some .self)
      (node : v.declaredAt = p.tag)
  | param {m q} (inner : i ≠ ScopeTree.root) (method : m ∈ p.methods)
      (home : F.scopeIds.get? m.tag = some i) (member : q ∈ m.params) (name : q.name = x)
      (node : q.tag = v.declaredAt) (type : v.type = some q.type)
  | declared {m d} (inner : i ≠ ScopeTree.root) (method : m ∈ p.methods)
      (member : (i, d) ∈ bodyPlaced F m) (name : d.name = x) (node : d.tag = v.declaredAt)
      (type : F.typeOf? d.tag = v.type)

end Program

theorem Method.annotateOrigins {F a : Analysis} {kept : List NodeId} {m : Method NodeId}
    (run : m.Run F kept a) {i : Nat} {x : String} {v : Variable}
    (found : (m.annotate a).scopes.symbol? i x = some (.var v)) :
    a.scopes.symbol? i x = some (.var v) ∨
      (F.scopeIds.get? m.tag = some i ∧ ∃ param ∈ m.params, param.name = x ∧
        param.tag = v.declaredAt ∧ v.type = some param.type) ∨
      ∃ d, (i, d) ∈ Program.bodyPlaced F m ∧ d.name = x ∧ d.tag = v.declaredAt ∧
        F.typeOf? d.tag = v.type := by
  obtain ⟨outer, _, bound, body⟩ := run.body
  have inner : F.Declares (Program.bodyPlaced F m) (Method.opened a m)
      (m.body.annotate a.scopes.size (Method.opened a m)) := by
    rw [Program.bodyPlaced, F.scopeAtBound bound]
    exact .inScope _ (Stmt.annotateAllDeclares m.body.stmts body)
  have left : F.Declares [] (m.body.annotate a.scopes.size (Method.opened a m)) (m.annotate a) :=
    Analysis.Declares.leave _ _
  rcases inner.trans left i x v found with before | placed
  · rcases Param.annotateAllOrigins _ _ _ before with start | ⟨param, member, rfl, facts⟩
    · rcases (Analysis.Declares.entered (F := F) a m.tag) i x v start with old | ⟨_, none, _⟩
      · exact .inl old
      · contradiction
    · exact .inr (.inl ⟨outer, param, member, facts⟩)
  · exact .inr (.inr (by simpa using placed))

theorem Method.annotateAllOrigins {F a : Analysis} {kept : List NodeId} {ms : List (Method NodeId)}
    (run : Method.RunAll F kept ms a) {i : Nat} {x : String} {v : Variable}
    (found : (Method.annotateAll ms a).scopes.symbol? i x = some (.var v)) :
    a.scopes.symbol? i x = some (.var v) ∨
      ∃ m ∈ ms,
        (F.scopeIds.get? m.tag = some i ∧ ∃ param ∈ m.params, param.name = x ∧
          param.tag = v.declaredAt ∧ v.type = some param.type) ∨
        ∃ d, (i, d) ∈ Program.bodyPlaced F m ∧ d.name = x ∧ d.tag = v.declaredAt ∧
          F.typeOf? d.tag = v.type := by
  induction ms generalizing a kept with
  | nil => exact .inl found
  | cons m rest ih =>
    obtain ⟨first, others⟩ := run.cons
    rcases ih others found with before | ⟨other, member, facts⟩
    · rcases Method.annotateOrigins first before with start | facts
      · exact .inl start
      · exact .inr ⟨m, List.mem_cons_self .., facts⟩
    · exact .inr ⟨other, List.mem_cons_of_mem _ member, facts⟩

namespace Program

theorem annotatedEq (p : Program NodeId) : p.annotated = Method.annotateAll p.methods p.begun := rfl

theorem annotatedWalks (p : Program NodeId) :
    p.begun.Walks ScopeTree.root [] (p.methods.flatMap Method.tags) p.annotated :=
  Method.annotateAllWalks p.methods p.begun Nat.zero_lt_one

theorem annotatedRuns {p : Program NodeId} (unique : p.tags.Nodup) :
    Method.RunAll p.annotated [p.tag] p.methods p.begun := p.runs unique

theorem origin {p : Program NodeId} (unique : p.tags.Nodup) {i : Nat} {x : String} {v : Variable}
    (found : p.annotated.scopes.symbol? i x = some (.var v)) : Origin p.annotated p i x v := by
  by_cases root : i = ScopeTree.root
  · subst root
    rcases (p.annotatedWalks.scope ScopeTree.root Nat.zero_lt_one).symbol x with
      kept | ⟨_, _, new, _⟩ | ⟨_, m, planted⟩
    · have start : p.begun.scopes.symbol? ScopeTree.root x = some (.var v) :=
        kept.symm.trans found
      rw [begunSymbol] at start
      split at start
      · rename_i here
        cases start
        exact .object rfl here.2 rfl rfl
      · contradiction
    · contradiction
    · simpa using planted.symm.trans found
  · rcases Method.annotateAllOrigins (annotatedRuns unique) found with start | ⟨m, member, facts⟩
    · rw [begunSymbol, if_neg fun here => root here.1] at start
      contradiction
    · rcases facts with ⟨home, param, inside, name, node, type⟩ | ⟨d, inside, name, node, type⟩
      · exact .param root member home inside name node type
      · exact .declared root member inside name node type

theorem annotatedNoted {p : Program NodeId} (unique : p.tags.Nodup) : p.annotated.Noted := by
  intro n recorded i x v found node untyped
  cases origin unique found with
  | object _ _ type _ => simp [untyped] at type
  | param _ _ _ _ _ _ type => simp [untyped] at type
  | declared _ _ _ _ same type =>
    rw [same, node] at type
    exact recorded (type.trans untyped)

end Program

mutual

theorem Stmt.placedDeclarators {F : Analysis} : ∀ (s : Stmt NodeId) {id i : Nat}
    {d : Declarator NodeId}, (i, d) ∈ s.placed F id → d ∈ s.declarators
  | .expr .., _, _, _, member => by simp [Stmt.placed] at member
  | .ret .., _, _, _, member => by simp [Stmt.placed] at member
  | .declare _ _ vars _, _, _, _, member => by
    obtain ⟨other, inside, same⟩ := List.mem_map.mp member
    cases same
    exact inside
  | .block _ body _, _, _, _, member => Stmt.placedAllDeclarators body member
  | .ifThen _ _ yes _, _, _, _, member => yes.placedDeclarators member
  | .ifElse _ _ yes _ no _, _, _, _, member => by
    rcases List.mem_append.mp member with first | second
    · exact List.mem_append_left _ (yes.placedDeclarators first)
    · exact List.mem_append_right _ (no.placedDeclarators second)
  | .loop _ _ body _, _, _, _, member => body.placedDeclarators member

theorem Stmt.placedAllDeclarators {F : Analysis} : ∀ (ss : List (Stmt NodeId)) {id i : Nat}
    {d : Declarator NodeId}, (i, d) ∈ Stmt.placedAll F ss id → d ∈ Stmt.declaratorsAll ss
  | [], _, _, _, member => by simp [Stmt.placedAll] at member
  | s :: rest, _, _, _, member => by
    rcases List.mem_append.mp member with first | second
    · exact List.mem_append_left _ (s.placedDeclarators first)
    · exact List.mem_append_right _ (Stmt.placedAllDeclarators rest second)

end

mutual

theorem Stmt.declaratorTags : ∀ (s : Stmt NodeId) {d : Declarator NodeId}, d ∈ s.declarators →
    d.tag ∈ s.tags
  | .expr .., _, member => by simp [Stmt.declarators] at member
  | .ret .., _, member => by simp [Stmt.declarators] at member
  | .declare n type vars span, d, member => by
    simp only [Stmt.tags, Stmt.nodes, List.map_cons, List.map_flatMap, List.mem_cons]
    exact .inr (List.mem_flatMap.mpr ⟨d, member, by simp [Declarator.nodes]⟩)
  | .block n body span, d, member => by
    have inner := Stmt.declaratorTagsAll body member
    simp only [Stmt.tagsAll] at inner
    simp [Stmt.tags, Stmt.nodes, inner]
  | .ifThen n cond yes span, d, member => by
    have inner := yes.declaratorTags member
    simp only [Stmt.tags] at inner
    simp [Stmt.tags, Stmt.nodes, inner]
  | .ifElse n cond yes m no span, d, member => by
    rcases List.mem_append.mp member with first | second
    · have inner := yes.declaratorTags first
      simp only [Stmt.tags] at inner
      simp [Stmt.tags, Stmt.nodes, inner]
    · have inner := no.declaratorTags second
      simp only [Stmt.tags] at inner
      simp [Stmt.tags, Stmt.nodes, inner]
  | .loop n cond body span, d, member => by
    have inner := body.declaratorTags member
    simp only [Stmt.tags] at inner
    simp [Stmt.tags, Stmt.nodes, inner]

theorem Stmt.declaratorTagsAll : ∀ (ss : List (Stmt NodeId)) {d : Declarator NodeId},
    d ∈ Stmt.declaratorsAll ss → d.tag ∈ Stmt.tagsAll ss
  | [], _, member => by simp [Stmt.declaratorsAll] at member
  | s :: rest, d, member => by
    have listed : Stmt.tagsAll (s :: rest) = s.tags ++ Stmt.tagsAll rest := by
      simp [Stmt.tags, Stmt.tagsAll, Stmt.nodesAll]
    rw [listed]
    rcases List.mem_append.mp member with first | second
    · exact List.mem_append_left _ (s.declaratorTags first)
    · exact List.mem_append_right _ (Stmt.declaratorTagsAll rest second)

end

theorem Stmt.placedAllTags {F : Analysis} (ss : List (Stmt NodeId)) {id i : Nat}
    {d : Declarator NodeId} (member : (i, d) ∈ Stmt.placedAll F ss id) : d.tag ∈ Stmt.tagsAll ss :=
  Stmt.declaratorTagsAll ss (Stmt.placedAllDeclarators ss member)

theorem Method.tagOnce {ms : List (Method NodeId)} (unique : (ms.flatMap Method.tags).Nodup)
    {m other : Method NodeId} (member : m ∈ ms) (beside : other ∈ ms) {n : NodeId} (here : n ∈ m.tags)
    (there : n ∈ other.tags) : m = other := by
  by_contra apart
  have symmetric : Std.Symm (Function.onFun List.Disjoint (Method.tags (τ := NodeId))) :=
    ⟨fun _ _ away _ there here => away here there⟩
  exact (List.nodup_flatMap.mp unique).2.forall member beside apart here there

theorem Method.paramsApart {ms : List (Method NodeId)} (unique : (ms.flatMap Method.tags).Nodup)
    {m other : Method NodeId} (member : m ∈ ms) (beside : other ∈ ms) {param : Param NodeId}
    (given : param ∈ other.params) : param.tag ∉ Stmt.tagsAll m.body.stmts := by
  intro inBody
  have inParams : param.tag ∈ other.params.map Param.tag := List.mem_map_of_mem given
  obtain rfl := tagOnce unique member beside (m.bodyTags inBody) (other.paramTags inParams)
  have own := (List.nodup_flatMap.mp unique).1 m member
  rw [m.tagsEq, List.nodup_cons, List.nodup_append] at own
  exact own.2.2.2 _ inParams _ (List.mem_cons_of_mem _ inBody) rfl

namespace Program

theorem tagsEq (p : Program NodeId) : p.tags = p.tag :: p.methods.flatMap Method.tags := by
  simp only [Program.tags, Program.nodes, List.map_cons, List.map_flatMap]
  rfl

theorem tagOutside {p : Program NodeId} (unique : p.tags.Nodup) {m : Method NodeId}
    (member : m ∈ p.methods) : p.tag ∉ m.tags := by
  rw [tagsEq, List.nodup_cons] at unique
  exact fun inside => unique.1 (List.mem_flatMap.mpr ⟨m, member, inside⟩)

theorem objectTyped {p : Program NodeId} (unique : p.tags.Nodup) : p.annotated.Typed p.tag := by
  intro i x v found node untyped
  cases origin unique found with
  | object _ _ type _ => simp [untyped] at type
  | param _ _ _ _ _ _ type => simp [untyped] at type
  | @declared m d _ method member _ same _ =>
    have inside := m.bodyTags (Stmt.placedAllTags m.body.stmts member)
    rw [same, node] at inside
    exact tagOutside unique method inside

theorem paramsTyped {p : Program NodeId} (unique : p.tags.Nodup) :
    ∀ m ∈ p.methods, ∀ param ∈ m.params, p.annotated.Typed param.tag := by
  intro other beside param given i x v found node untyped
  cases origin unique found with
  | object _ _ type _ => simp [untyped] at type
  | param _ _ _ _ _ _ type => simp [untyped] at type
  | @declared m d _ method member _ same _ =>
    rw [tagsEq, List.nodup_cons] at unique
    refine Method.paramsApart unique.2 method beside given ?_
    have inside := Stmt.placedAllTags m.body.stmts member
    rwa [same, node] at inside

theorem annotatedBound (p : Program NodeId) (unique : p.tags.Nodup) :
    p.annotated.scopeIds.get? p.tag = some ScopeTree.root := by
  rw [tagsEq, List.nodup_cons] at unique
  rw [p.annotatedWalks.bound p.tag unique.1]
  exact Table.getInsertSelf _ _ _

theorem cleanOfAnalyze {p : Program NodeId} (unique : p.tags.Nodup) {a : Analysis}
    (done : p.analyze = .ok a) :
    ∃ q, p.Clean q ∧ a = { p.annotated with scopes := q.scopes, diagnostics := [] } :=
  analyzeClean (annotatedNoted unique) (objectTyped unique) (paramsTyped unique)
    p.annotatedWalks.quiet done

theorem Clean.start {p : Program NodeId} {q : Progress} (clean : p.Clean q) :
    p.annotated.startCheck p = p.startProgress :=
  startCheckEq clean.main p.annotatedWalks.quiet

end Program
end ClassCompiler
