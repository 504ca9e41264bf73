import ClassCompiler.Proofs.Renumbering
import ClassCompiler.Proofs.Segment

/-! The first walk over the same method at two places. Nothing that the walk reads comes from the rest of
the program but the object and the signatures of the methods, so the walks stay abreast of each other and
record the same types, slots and limits for the counterparts of nodes and scopes. -/
namespace ClassCompiler
namespace Analysis
variable {c : Renumbering} {limit i j : Nat} {a b : Analysis} {n : NodeId}

structure Twin (c : Renumbering) (limit : Nat) (a b : Analysis) : Prop where
  scopes : a.scopes.Twin c limit b.scopes
  types : ∀ n ∈ c.nodes, b.typeOf? (c.number n) = a.typeOf? n
  bound : ∀ n ∈ c.nodes,
    Option.Rel (c.Within limit) (a.scopeIds.get? n) (b.scopeIds.get? (c.number n))
  uses : b.methods.uses = a.methods.uses

/-- The walks have come equally far, and stand in scopes that are counterparts. -/
structure Abreast (c : Renumbering) (i j : Nat) (a b : Analysis) : Prop
    extends a.Twin c a.scopes.size b where
  sizes : c.Pair a.scopes.size b.scopes.size
  place : c.Within a.scopes.size i j
  inner : i ≠ ScopeTree.root

theorem Twin.usesCases (twin : a.Twin c limit b) (x : String) :
    a.methods.find? x = none ∧ b.methods.find? x = none ∨ ∃ s s', a.methods.find? x = some s ∧
      b.methods.find? x = some s' ∧ s'.returns = s.returns ∧ s'.params = s.params := by
  have same := congrFun twin.uses x
  simp only [MethodTable.uses] at same
  cases here : a.methods.find? x <;> cases there : b.methods.find? x <;> simp_all

theorem Twin.nameType (twin : a.Twin c limit b) (within : c.Within limit i j) (x : String) :
    b.nameType? j x = a.nameType? i x := by
  rw [nameType?, twin.scopes.lookup within x, nameType?]
  cases a.scopes.lookup i x with
  | none => rfl
  | some s => cases s <;> rfl

namespace Abreast

theorem mapScopes (walk : a.Abreast c i j b) {g h : ScopeTree → ScopeTree}
    (size : (g a.scopes).size = a.scopes.size) (size' : (h b.scopes).size = b.scopes.size)
    (twin : (g a.scopes).Twin c a.scopes.size (h b.scopes)) :
    (a.mapScopes g).Abreast c i j (b.mapScopes h) := by
  have here : (a.mapScopes g).scopes.size = a.scopes.size := size
  have there : (b.mapScopes h).scopes.size = b.scopes.size := size'
  refine ⟨⟨?_, walk.types, ?_, walk.uses⟩, ?_, ?_, walk.inner⟩
  · rw [here]
    exact twin
  · rw [here]
    exact walk.bound
  · rw [here, there]
    exact walk.sizes
  · rw [here]
    exact walk.place

theorem push (walk : a.Abreast c i j b) (k : Nat) : (a.push i k).Abreast c i j (b.push j k) :=
  walk.mapScopes (ScopeTree.modifySize ..) (ScopeTree.modifySize ..) (walk.scopes.push walk.place.1 k)

theorem pop (walk : a.Abreast c i j b) (k : Nat) : (a.pop i k).Abreast c i j (b.pop j k) :=
  walk.mapScopes (ScopeTree.modifySize ..) (ScopeTree.modifySize ..) (walk.scopes.pop walk.place.1 k)

theorem markReturn (walk : a.Abreast c i j b) :
    (a.mapScopes fun t => t.markReturn i).Abreast c i j (b.mapScopes fun t => t.markReturn j) :=
  walk.mapScopes (ScopeTree.modifySize ..) (ScopeTree.modifySize ..) (walk.scopes.markReturn walk.place.1)

theorem declareVariable (walk : a.Abreast c i j b) (x : String) (type : Option DataType) (ready : Bool)
    (member : n ∈ c.nodes) : (a.mapScopes fun t => t.declareVariable i x type ready n).Abreast c i j
      (b.mapScopes fun t => t.declareVariable j x type ready (c.number n)) :=
  walk.mapScopes (ScopeTree.modifySize ..) (ScopeTree.modifySize ..)
    (walk.scopes.declareVariable walk.place x type ready member)

theorem setType (walk : a.Abreast c i j b) (member : n ∈ c.nodes) (type : Option DataType) :
    (a.setType n type).Abreast c i j (b.setType (c.number n) type) := by
  cases type with
  | none => exact walk
  | some type =>
    refine ⟨⟨walk.scopes, fun m known => ?_, walk.bound, walk.uses⟩, walk.sizes, walk.place, walk.inner⟩
    simp only [typeOfSetType, Renumbering.numberIff member known, walk.types m known]

theorem noteMethod (walk : a.Abreast c i j b) (x : String) (m : MethodUse) :
    (a.mapScopes fun t => t.useMethod i x m).Abreast c i j (b.mapScopes fun t => t.useMethod j x m) :=
  walk.mapScopes (ScopeTree.modifySize ..) (ScopeTree.modifySize ..)
    (walk.scopes.useMethod walk.place.1 x m)

theorem useMethod (walk : a.Abreast c i j b) (x : String) :
    (b.useMethod j x).1 = (a.useMethod i x).1 ∧
      (a.useMethod i x).2.Abreast c i j (b.useMethod j x).2 := by
  unfold Analysis.useMethod
  rcases walk.usesCases x with ⟨here, there⟩ | ⟨s, s', here, there, returns, params⟩
  · rw [here, there]
    exact ⟨rfl, walk⟩
  · have noted := walk.noteMethod x ⟨s.returns, s.params⟩
    rw [here, there]
    simp only [returns, params, true_and]
    split
    · exact noted
    · exact noted.push 1

theorem useIntrinsic (walk : a.Abreast c i j b) (op : Intrinsic) (params : List DataType)
    (span : Span) :
    (a.useIntrinsic i op params span).Abreast c i j (b.useIntrinsic j op params span) := by
  have noted := walk.noteMethod op.name ⟨op.resultType, params⟩
  refine ⟨⟨noted.scopes, noted.types, noted.bound, ?_⟩, noted.sizes, noted.place, noted.inner⟩
  have same (t : MethodTable) : (t.useIntrinsic op.name op.resultType params span).uses = t.uses := by
    funext x
    rw [MethodTable.uses, MethodTable.findUseIntrinsic, MethodTable.uses]
  exact (same b.methods).trans (walk.uses.trans (same a.methods).symm)

end Abreast

theorem Twin.entered (twin : a.Twin c a.scopes.size b) (sizes : c.Pair a.scopes.size b.scopes.size)
    (within : c.Within a.scopes.size i j) (member : n ∈ c.nodes) :
    (a.entered i n).Abreast c a.scopes.size b.scopes.size (b.entered j (c.number n)) := by
  have inner : a.scopes.size ≠ ScopeTree.root := Nat.ne_of_gt (Nat.zero_lt_of_lt within.2)
  have wider : a.scopes.size ≤ (a.entered i n).scopes.size := Nat.le_of_lt (a.enteredIn i n)
  refine ⟨⟨?_, twin.types, fun m known => ?_, twin.uses⟩, ?_, ⟨sizes, a.enteredIn i n⟩, inner⟩
  · rw [enteredSize]
    exact twin.scopes.enter sizes within
  · simp only [Analysis.entered, bindScope, Analysis.mapScopes, Table.getInsert,
      Renumbering.numberIff member known]
    split
    · exact .some ⟨sizes, a.enteredIn i n⟩
    · have old := twin.bound m known
      generalize a.scopeIds.get? m = x at old ⊢
      generalize b.scopeIds.get? (c.number m) = y at old ⊢
      cases old with
      | none => exact .none
      | some pair => exact .some (pair.mono wider)
  · rw [enteredSize, enteredSize]
    exact sizes.next inner

theorem Abreast.left (walk : a.Abreast c i j b) :
    (a.mapScopes fun t => t.leave i).Twin c (a.mapScopes fun t => t.leave i).scopes.size
        (b.mapScopes fun t => t.leave j) ∧
      (a.mapScopes fun t => t.leave i).scopes.size = a.scopes.size ∧
      (b.mapScopes fun t => t.leave j).scopes.size = b.scopes.size := by
  have size (t : ScopeTree) (k : Nat) : (t.leave k).size = t.size := by
    unfold ScopeTree.leave
    split
    · exact ScopeTree.modifySize ..
    · rfl
  have here : (a.mapScopes fun t => t.leave i).scopes.size = a.scopes.size := size a.scopes i
  refine ⟨?_, here, size b.scopes j⟩
  rw [here]
  exact ⟨walk.scopes.leave walk.place walk.inner, walk.types, walk.bound, walk.uses⟩

theorem Abreast.inScope (walk : a.Abreast c i j b) (member : n ∈ c.nodes)
    {inside inside' : Nat → Analysis → Analysis}
    (grows : (a.entered i n).scopes.size ≤ (inside a.scopes.size (a.entered i n)).scopes.size)
    (within : ∀ {a' b' : Analysis}, a'.Abreast c a.scopes.size b.scopes.size b' →
      (inside a.scopes.size a').Abreast c a.scopes.size b.scopes.size (inside' b.scopes.size b')) :
    (a.inScope i n inside).Abreast c i j (b.inScope j (c.number n) inside') := by
  have inner := within (walk.toTwin.entered walk.sizes walk.place member)
  obtain ⟨twin, here, there⟩ := inner.left
  have wider : a.scopes.size ≤ (a.inScope i n inside).scopes.size := by
    rw [inScopeEntered, here]
    exact Nat.le_trans (Nat.le_of_lt (a.enteredIn i n)) grows
  refine ⟨twin, ?_, walk.place.mono wider, walk.inner⟩
  rw [inScopeEntered, inScopeEntered, here, there]
  exact inner.sizes

end Analysis

section
variable {c : Renumbering} {i j : Nat} {a b : Analysis}

theorem Analysis.Abreast.assign (walk : a.Abreast c i j b) {n : NodeId} (member : n ∈ c.nodes) (keep : Bool)
    {target : Expr NodeId} (named : target.tag ∈ c.nodes)
    {walkTarget walkTarget' walkValue walkValue' : Analysis → Option DataType × Analysis}
    (first : ∀ {a b : Analysis}, a.Abreast c i j b → (walkTarget a).2.Abreast c i j (walkTarget' b).2)
    (second : ∀ {a b : Analysis}, a.Abreast c i j b → (walkValue' b).1 = (walkValue a).1 ∧
      (walkValue a).2.Abreast c i j (walkValue' b).2) :
    (b.annotateAssign j (c.number n) keep (target.retag c.number) walkTarget' walkValue').1 =
        (a.annotateAssign i n keep target walkTarget walkValue).1 ∧
      (a.annotateAssign i n keep target walkTarget walkValue).2.Abreast c i j
        (b.annotateAssign j (c.number n) keep (target.retag c.number) walkTarget' walkValue').2 := by
  obtain ⟨same, valued⟩ := second walk
  obtain ⟨stored, made, ends⟩ := a.annotateAssignEnds i n keep target walkTarget walkValue
  obtain ⟨stored', made', ends'⟩ :=
    b.annotateAssignEnds j (c.number n) keep (target.retag c.number) walkTarget' walkValue'
  have walked : stored.Abreast c i j stored' := by
    rw [made, made', Expr.asNameRetag, Expr.tagRetag]
    cases target.asName with
    | some x =>
      rw [Option.elim_some, Option.elim_some, valued.nameType valued.place]
      exact valued.setType named _
    | none => exact (first valued).pop 1
  refine ⟨same, ?_⟩
  rw [ends, ends', same]
  cases keep with
  | true => exact ((walked.push 1).pop 1).setType member _
  | false => exact (walked.pop 1).setType member _

mutual

theorem Expr.annotateAbreast : ∀ (e : Expr NodeId) {a b : Analysis}, e.tags ⊆ c.nodes →
    a.Abreast c i j b → ((e.retag c.number).annotate j b).1 = (e.annotate i a).1 ∧
      (e.annotate i a).2.Abreast c i j ((e.retag c.number).annotate j b).2
  | .literal n value _, a, b, sub, walk => by
    simp only [tags, nodes, List.map_cons, List.cons_subset] at sub
    simp only [retag, annotate, true_and]
    exact (walk.push 1).setType sub.1 _
  | .var n x _, a, b, sub, walk => by
    simp only [tags, nodes, List.map_cons, List.cons_subset] at sub
    have type := walk.nameType walk.place x
    refine ⟨type, ?_⟩
    simp only [retag, annotate, type]
    exact (walk.push 1).setType sub.1 _
  | .binary n op left right, a, b, sub, walk => by
    simp only [tagsBinary, List.cons_subset, List.append_subset] at sub
    obtain ⟨first, walked⟩ := left.annotateAbreast sub.2.1 walk
    have strict := right.annotateAbreast sub.2.2 walked
    have lazy := right.annotateAbreast sub.2.2 (walked.pop 1)
    simp only [retag, annotate]
    cases op.group with
    | arithmetic =>
      simp only [first, strict.1, true_and]
      exact (strict.2.pop 1).setType sub.1 _
    | relational =>
      simp only [first, strict.1, true_and]
      exact (strict.2.pop 1).setType sub.1 _
    | logical =>
      simp only [first, lazy.1, true_and]
      exact ((lazy.2.pop 1).push 1).setType sub.1 _
  | .not n operand _, a, b, sub, walk => by
    simp only [tags, nodes, List.map_cons, List.cons_subset] at sub
    simp only [retag, annotate, true_and]
    exact (operand.annotateAbreast sub.2 walk).2.setType sub.1 _
  | .assign n target value, a, b, sub, walk => by
    simp only [tags, nodes, List.map_cons, List.map_append, List.cons_subset, List.append_subset] at sub
    exact walk.assign sub.1 true (sub.2.1 target.tagMem)
      (fun walk => (target.annotateAbreast sub.2.1 walk).2)
      fun walk => value.annotateAbreast sub.2.2 walk
  | .call n m args _, a, b, sub, walk => by
    simp only [tagsCall, List.cons_subset] at sub
    have given := (Expr.annotateAllAbreast args sub.2 (walk.push 1)).pop (1 + args.length)
    obtain ⟨type, used⟩ := given.useMethod m
    simp only [retag, annotate, Expr.lengthRetag, type, true_and]
    exact used.setType sub.1 _
  | .writeLine n value span, a, b, sub, walk => by
    simp only [tags, nodes, List.map_cons, List.cons_subset] at sub
    obtain ⟨type, walked⟩ := value.annotateAbreast sub.2 (walk.push 1)
    simp only [retag, annotate, type, true_and]
    exact ((walked.pop 2).useIntrinsic .writeLine _ span).setType sub.1 _
  | .read n input span, a, b, sub, walk => by
    simp only [tags, nodes, List.map_cons, List.cons_subset] at sub
    simp only [retag, annotate, true_and]
    exact ((((walk.push 3).pop 3).push 1).useIntrinsic (.read input) [] span).setType sub.1 _
  | .random n span, a, b, sub, walk => by
    simp only [tags, nodes, List.map_cons, List.cons_subset] at sub
    simp only [retag, annotate, true_and]
    exact (((((walk.push 2).pop 1).pop 1).push 1).useIntrinsic .randomInt [] span).setType sub.1 _
  | .randomBelow n bound span, a, b, sub, walk => by
    simp only [tags, nodes, List.map_cons, List.cons_subset] at sub
    obtain ⟨_, walked⟩ := bound.annotateAbreast sub.2 ((walk.push 2).pop 1)
    simp only [retag, annotate, true_and]
    exact (((walked.pop 2).push 1).useIntrinsic .randomInt [.int] span).setType sub.1 _

theorem Expr.annotateAllAbreast : ∀ (es : List (Expr NodeId)) {a b : Analysis},
    Expr.tagsAll es ⊆ c.nodes → a.Abreast c i j b →
      (Expr.annotateAll i es a).Abreast c i j (Expr.annotateAll j (Expr.retagAll c.number es) b)
  | [], a, b, _, walk => walk
  | e :: rest, a, b, sub, walk => by
    rw [tagsAllCons] at sub
    obtain ⟨own, others⟩ := List.append_subset.mp sub
    exact Expr.annotateAllAbreast rest others (e.annotateAbreast own walk).2

end

theorem Expr.droppedAbreast {n : NodeId} (member : n ∈ c.nodes) (e : Expr NodeId) (sub : e.tags ⊆ c.nodes)
    (walk : a.Abreast c i j b) :
    (e.annotateDropped i n a).Abreast c i j ((e.retag c.number).annotateDropped j (c.number n) b) := by
  cases e with
  | assign m target value =>
    simp only [tags, nodes, List.map_cons, List.map_append, List.cons_subset, List.append_subset] at sub
    exact (walk.assign sub.1 false (sub.2.1 target.tagMem)
      (fun walk => (target.annotateAbreast sub.2.1 walk).2)
      fun walk => value.annotateAbreast sub.2.2 walk).2
  | literal | var | binary | not | call | writeLine | read | random | randomBelow =>
    obtain ⟨type, walked⟩ := Expr.annotateAbreast _ sub walk
    rw [retag] at type walked
    simp only [retag, annotateDropped, type]
    split
    · exact walked
    · exact walked.setType member _
    · exact (walked.pop 1).setType member _

theorem Declarator.annotateAbreast (type : Option DataType) (d : Declarator NodeId)
    (sub : d.tags ⊆ c.nodes) (walk : a.Abreast c i j b) :
    (d.annotate type i a).Abreast c i j ((d.retag c.number).annotate type j b) := by
  have member := sub d.tagMem
  unfold Declarator.annotate
  cases given : d.init with
  | none =>
    simp only [retag, given, Option.map_none]
    exact (walk.declareVariable d.name type false member).setType member _
  | some e =>
    have inner : e.tags ⊆ c.nodes := by
      rw [Declarator.tagsInit given] at sub
      exact (List.cons_subset.mp sub).2
    obtain ⟨same, walked⟩ := e.annotateAbreast inner walk
    simp only [retag, given, Option.map_some, same]
    exact ((walked.pop 1).declareVariable d.name _ true member).setType member _

theorem Declarator.annotateAllAbreast (type : Option DataType) (ds : List (Declarator NodeId))
    {a b : Analysis} (sub : ds.flatMap Declarator.tags ⊆ c.nodes) (walk : a.Abreast c i j b) :
    (Declarator.annotateAll type i ds a).Abreast c i j
      (Declarator.annotateAll type j (ds.map (Declarator.retag c.number)) b) := by
  induction ds generalizing a b with
  | nil => exact walk
  | cons d rest ih =>
    simp only [List.flatMap_cons, List.append_subset] at sub
    exact ih sub.2 (d.annotateAbreast type sub.1 walk)

theorem Stmt.conditionalAbreast (n : NodeId) (cond : Expr NodeId) (body : Stmt NodeId) {a b : Analysis}
    (inner : ∀ {i j : Nat} {a b : Analysis}, a.Abreast c i j b →
      (body.annotate i a).Abreast c i j ((body.retag c.number).annotate j b))
    (own : n ∈ c.nodes) (test : cond.tags ⊆ c.nodes) (walk : a.Abreast c i j b) :
    (a.inScope i n fun inner a => body.annotate inner ((cond.annotate inner a).2.pop inner 1)).Abreast
      c i j (b.inScope j (c.number n) fun inner b => (body.retag c.number).annotate inner
        (((cond.retag c.number).annotate inner b).2.pop inner 1)) := by
  have tested := cond.conditionWalks a.scopes.size (a.entered i n)
  have walks := tested.trans (body.annotateWalks a.scopes.size _
    (Nat.lt_of_lt_of_le (a.enteredIn i n) tested.size))
  exact walk.inScope own walks.size fun entered => inner ((cond.annotateAbreast test entered).2.pop 1)

mutual

theorem Stmt.annotateAbreast : ∀ (s : Stmt NodeId) {i j : Nat} {a b : Analysis}, s.tags ⊆ c.nodes →
    a.Abreast c i j b → (s.annotate i a).Abreast c i j ((s.retag c.number).annotate j b)
  | .expr n e _, i, j, a, b, sub, walk => by
    simp only [tags, nodes, List.map_cons, List.cons_subset] at sub
    exact Expr.droppedAbreast sub.1 e sub.2 walk
  | .declare n type vars _, i, j, a, b, sub, walk => by
    simp only [tags, nodes, List.map_cons, List.cons_subset, List.map_flatMap] at sub
    exact Declarator.annotateAllAbreast type vars sub.2 walk
  | .ret n (some e) _, i, j, a, b, sub, walk => by
    simp only [tags, nodes, Expr.nodesOption, List.map_cons, List.cons_subset] at sub
    obtain ⟨type, walked⟩ := e.annotateAbreast sub.2 walk
    simp only [retag, Option.map_some, annotate, type]
    exact ((walked.pop 1).setType sub.1 _).markReturn
  | .ret n none _, i, j, a, b, sub, walk => by
    simp only [tags, nodes, List.map_cons, List.cons_subset] at sub
    simp only [retag, Option.map_none, annotate]
    exact (walk.setType sub.1 _).markReturn
  | .block n body _, i, j, a, b, sub, walk => by
    simp only [tags, nodes, List.map_cons, List.cons_subset] at sub
    have walks := Stmt.annotateAllWalks body a.scopes.size (a.entered i n) (a.enteredIn i n)
    simp only [retag, annotate]
    exact walk.inScope sub.1 walks.size fun inner => Stmt.annotateAllAbreast body sub.2 inner
  | .ifThen n cond body _, i, j, a, b, sub, walk => by
    simp only [tags, nodes, List.map_cons, List.map_append, List.cons_subset, List.append_subset] at sub
    simp only [retag, annotate]
    exact Stmt.conditionalAbreast n cond body (fun inner => body.annotateAbreast sub.2.2 inner) sub.1 sub.2.1
      walk
  | .loop n cond body _, i, j, a, b, sub, walk => by
    simp only [tags, nodes, List.map_cons, List.map_append, List.cons_subset, List.append_subset] at sub
    simp only [retag, annotate]
    exact Stmt.conditionalAbreast n cond body (fun inner => body.annotateAbreast sub.2.2 inner) sub.1 sub.2.1
      walk
  | .ifElse n cond yes m no _, i, j, a, b, sub, walk => by
    simp only [tags, nodes, List.map_cons, List.map_append, List.cons_subset, List.append_subset] at sub
    obtain ⟨own, ⟨test, first⟩, other, second⟩ := sub
    simp only [retag, annotate]
    have before := Stmt.conditionalAbreast n cond yes (fun inner => yes.annotateAbreast first inner) own
      test walk
    exact before.inScope other (no.annotateWalks _ _ (Analysis.enteredIn ..)).size
      fun inner => no.annotateAbreast second inner

theorem Stmt.annotateAllAbreast : ∀ (ss : List (Stmt NodeId)) {i j : Nat} {a b : Analysis},
    Stmt.tagsAll ss ⊆ c.nodes → a.Abreast c i j b →
      (Stmt.annotateAll ss i a).Abreast c i j (Stmt.annotateAll (Stmt.retagAll c.number ss) j b)
  | [], _, _, _, _, _, walk => walk
  | s :: rest, i, j, a, b, sub, walk => by
    simp only [tagsAll, nodesAll, List.map_append, List.append_subset] at sub
    exact Stmt.annotateAllAbreast rest sub.2 (s.annotateAbreast sub.1 walk)

end

theorem Param.annotateAllAbreast (ps : List (Param NodeId)) {a b : Analysis}
    (sub : ps.map Param.tag ⊆ c.nodes) (walk : a.Abreast c i j b) :
    (Param.annotateAll i ps a).Abreast c i j
      (Param.annotateAll j (ps.map (Param.retag c.number)) b) := by
  induction ps generalizing a b with
  | nil => exact walk
  | cons param rest ih =>
    simp only [List.map_cons, List.cons_subset] at sub
    exact ih sub.2 (walk.declareVariable param.name (some param.type) true sub.1)

theorem Method.annotateTwin (m : Method NodeId) (sub : m.tags ⊆ c.nodes)
    (twin : a.Twin c a.scopes.size b) (sizes : c.Pair a.scopes.size b.scopes.size)
    (rooted : ScopeTree.root < a.scopes.size) :
    (m.annotate a).Twin c (m.annotate a).scopes.size ((m.retag c.number).annotate b) := by
  simp only [m.tagsEq, List.cons_subset, List.append_subset] at sub
  obtain ⟨own, params, body, stmts⟩ := sub
  have entered := twin.entered sizes ⟨.inl ⟨rfl, rfl⟩, rooted⟩ own
  have given := Param.annotateAllAbreast m.params params entered
  have walks := Stmt.annotateAllWalks m.body.stmts _
    ((Param.annotateAll a.scopes.size m.params (a.entered ScopeTree.root m.tag)).entered
      a.scopes.size m.body.tag) (Analysis.enteredIn ..)
  exact (given.inScope body walks.size fun inner =>
    Stmt.annotateAllAbreast m.body.stmts stmts inner).left.1

end

end ClassCompiler
