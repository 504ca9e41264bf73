import ClassCompiler.Proofs.Emission
import ClassCompiler.Proofs.Visits

/-! The code of the expressions that are visited. It stands in one piece in the code of the method, made
for the scope in which the check visits the expression. Only an assignment whose value is dropped has
other code there, since it keeps no copy of the value. -/
namespace ClassCompiler

section
variable (F a : Analysis) (className : String)

/-- The visits of a piece of a program whose code this is. With an expression all of its parts are
visited. -/
def CodedVisits (vs : List Visit) (code : List Instruction) : Prop :=
  ∀ v ∈ vs, ∀ e, v.part = .value e → (∀ m target value, e ≠ .assign m target value) →
    e.visits F v.here v.id v.walk v.check ⊆ vs ∧
      ∃ n made, e.code a className v.id n = .ok made ∧ made.1 <:+: code

end

section
variable {F a : Analysis} {className : String} {vs ws : List Visit} {code whole : List Instruction}

namespace CodedVisits

theorem nil : CodedVisits F a className [] code := fun _ member => by contradiction

theorem within (coded : CodedVisits F a className vs code) (inside : code <:+: whole) :
    CodedVisits F a className vs whole := by
  intro v member e value plain
  obtain ⟨parts, n, made, here, block⟩ := coded v member e value plain
  exact ⟨parts, n, made, here, block.trans inside⟩

theorem left {back : List Instruction} (coded : CodedVisits F a className vs code) :
    CodedVisits F a className vs (code ++ back) := coded.within (List.prefix_append ..).isInfix

theorem right {front : List Instruction} (coded : CodedVisits F a className vs code) :
    CodedVisits F a className vs (front ++ code) := coded.within (List.suffix_append ..).isInfix

theorem append (first : CodedVisits F a className vs code) (second : CodedVisits F a className ws code) :
    CodedVisits F a className (vs ++ ws) code := by
  intro v member e value plain
  rcases List.mem_append.mp member with early | late
  · obtain ⟨parts, coded⟩ := first v early e value plain
    exact ⟨List.Subset.trans parts (List.subset_append_left ..), coded⟩
  · obtain ⟨parts, coded⟩ := second v late e value plain
    exact ⟨List.Subset.trans parts (List.subset_append_right ..), coded⟩

theorem skip {v : Visit} (other : ∀ e, v.part = .value e → ∃ m target value, e = .assign m target value)
    (rest : CodedVisits F a className vs code) : CodedVisits F a className (v :: vs) code := by
  intro w member e value plain
  rcases List.mem_cons.mp member with rfl | inner
  · obtain ⟨m, target, assigned, same⟩ := other e value
    exact absurd same (plain m target assigned)
  · obtain ⟨parts, coded⟩ := rest w inner e value plain
    exact ⟨List.Subset.trans parts (List.subset_cons_self ..), coded⟩

theorem own {e : Expr NodeId} {here id n n' : Nat} {w : Analysis} {q : Progress}
    (emits : e.Emits a className id n code n')
    (listed : e.visits F here id w q = e.visit here id w q :: vs)
    (parts : CodedVisits F a className vs code) :
    CodedVisits F a className (e.visits F here id w q) code := by
  intro v member d value plain
  rw [listed] at member
  rcases List.mem_cons.mp member with rfl | inner
  · cases value
    exact ⟨List.Subset.refl _, n, (code, n'), e.emitsCode id emits, List.infix_rfl⟩
  · obtain ⟨inside, block⟩ := parts v inner d value plain
    rw [listed]
    exact ⟨List.Subset.trans inside (List.subset_cons_self ..), block⟩

end CodedVisits

-- The target of an assignment is visited, but it is not evaluated.
theorem Expr.assignCoded {here id : Nat} {m k : NodeId} {x : String} {span : Span}
    {value : Expr NodeId} {w : Analysis} {q : Progress}
    (inside : ∀ {q}, CodedVisits F a className (value.visits F here id w q) code) :
    CodedVisits F a className ((Expr.assign m (.var k x span) value).visits F here id w q) code := by
  rw [Expr.visits]
  refine .skip (fun e same => ?_) (.skip (fun e same => ?_) inside)
  · cases same
    exact ⟨_, _, _, rfl⟩
  · cases same

mutual

theorem Expr.visitsCoded (here id : Nat) : ∀ (e : Expr NodeId) {n n' : Nat} {w : Analysis}
    {q : Progress} {code : List Instruction}, e.Emits a className id n code n' →
      CodedVisits F a className (e.visits F here id w q) code
  | .literal .., _, _, _, _, _, emits | .var .., _, _, _, _, _, emits | .read .., _, _, _, _, _, emits
  | .random .., _, _, _, _, _, emits => .own emits rfl .nil
  | .binary _ _ left right, _, _, _, _, _, .arith action one other typed family =>
    .own (.arith action one other typed family) rfl
      ((left.visitsCoded here id one).left.left.append (right.visitsCoded here id other).right.left)
  | .binary _ _ left right, _, _, _, _, _, .compare action one other typed tested =>
    .own (.compare action one other typed tested) rfl
      ((left.visitsCoded here id one).left.left.left.append
        (right.visitsCoded here id other).right.left.left)
  | .binary _ _ left right, _, _, _, _, _, .logical action one other =>
    .own (.logical action one other) rfl
      ((left.visitsCoded here id one).left.left.left.left.append
        (right.visitsCoded here id other).right.left.left)
  | .not _ operand _, _, _, _, _, _, .not inner =>
    .own (.not inner) rfl (operand.visitsCoded here id inner).left.left
  | .assign _ _ value, _, _, _, _, _, .assign inner _ =>
    Expr.assignCoded (value.visitsCoded here id inner).left.left
  | .call _ _ args _, _, _, _, _, _, .call found given described =>
    .own (.call found given described) rfl (Expr.visitsAllCoded here id args given).right.left
  | .writeLine _ value _, _, _, _, _, _, .writeLine inner typed printed =>
    .own (.writeLine inner typed printed) rfl (value.visitsCoded here id inner).right.left
  | .randomBelow _ bound _, _, _, _, _, _, .randomBelow inner =>
    .own (.randomBelow inner) rfl (bound.visitsCoded here id inner).right.left
termination_by structural e => e

theorem Expr.visitsAllCoded (here id : Nat) : ∀ (es : List (Expr NodeId)) {n n' : Nat} {w : Analysis}
    {q : Progress} {code : List Instruction}, Expr.EmitAll a className id es n code n' →
      CodedVisits F a className (Expr.visitsAll F here id es w q) code
  | [], _, _, _, _, _, .nil => .nil
  | e :: rest, _, _, _, _, _, .cons one more =>
    (e.visitsCoded here id one).left.append (Expr.visitsAllCoded here id rest more).right
termination_by structural es => es

end

theorem Expr.droppedCoded {here id n n' : Nat} {node : NodeId} {e : Expr NodeId} {w : Analysis}
    {q : Progress} (emits : e.EmitsDropped a className id node n code n') :
    CodedVisits F a className (e.visits F here id w q) code := by
  cases emits with
  | assign inner _ => exact Expr.assignCoded (Expr.visitsCoded here id _ inner).left
  | silent _ inner _ => exact e.visitsCoded here id inner
  | popped _ inner _ _ => exact (e.visitsCoded here id inner).left

theorem Declarator.visitsAllCoded {type : Option DataType} {span : Span} {here id n n' : Nat}
    {ds : List (Declarator NodeId)} {w : Analysis} {q : Progress}
    (emits : Declarator.EmitAll a className id ds n code n') :
    CodedVisits F a className (Declarator.visitsAll F type span here id ds w q) code := by
  induction emits generalizing w q with
  | nil => exact .nil
  | bare missing _ ih =>
    refine .skip (by rintro e ⟨⟩) (.append ?_ ih)
    rw [missing]
    exact .nil
  | initial given inner _ _ ih =>
    refine .skip (by rintro e ⟨⟩) (.append ?_ ih.right)
    rw [given]
    exact (Expr.visitsCoded here id _ inner).left.left

theorem Param.visitsAllCoded {here id : Nat} {ps : List (Param NodeId)} {w : Analysis} {q : Progress} :
    CodedVisits F a className (Param.visitsAll here id ps w q) code := by
  induction ps generalizing w q with
  | nil => exact .nil
  | cons p rest ih => exact .skip (by rintro e ⟨⟩) ih

theorem Analysis.scopeAtSame (same : F.scopeIds = a.scopeIds) {n : NodeId} {inner : Nat}
    (found : a.scopeOf n = .ok inner) : F.scopeAt n = inner :=
  F.scopeAtBound (by rw [same, Analysis.scopeOfOk.mp found])

mutual

theorem Stmt.visitsCoded (same : F.scopeIds = a.scopeIds) (returns : DataType) :
    ∀ (s : Stmt NodeId) {here id n n' : Nat} {w : Analysis} {q : Progress} {code : List Instruction},
      s.Emits a className id n code n' →
      CodedVisits F a className (s.visits F returns here id w q) code
  | .expr .., _, _, _, _, _, _, _, .expr inner => .skip (by rintro e ⟨⟩) (Expr.droppedCoded inner)
  | .declare .., _, _, _, _, _, _, _, .declare inner =>
    .skip (by rintro e ⟨⟩) (Declarator.visitsAllCoded inner)
  | .ret _ (some e) _, here, id, _, _, _, _, _, .ret inner _ =>
    .skip (by rintro e ⟨⟩) (e.visitsCoded here id inner).left
  | .ret _ none _, _, _, _, _, _, _, _, .leave _ => .skip (by rintro e ⟨⟩) .nil
  | .block _ body _, _, _, _, _, _, _, _, .block scope inside => by
    rw [Stmt.visits, Analysis.scopeAtSame same scope]
    exact .skip (by rintro e ⟨⟩) (Stmt.visitsAllCoded same returns body inside)
  | .ifThen _ cond yes _, _, _, _, _, _, _, _, .ifThen scope tested inside => by
    rw [Stmt.visits, Analysis.scopeAtSame same scope]
    exact .skip (by rintro e ⟨⟩) ((cond.visitsCoded _ _ tested).left.left.left.append
      (yes.visitsCoded same returns inside).right.left)
  | .ifElse _ cond yes _ no _, _, _, _, _, _, _, _, .ifElse scope tested inside beside otherwise => by
    rw [Stmt.visits, Analysis.scopeAtSame same scope, Analysis.scopeAtSame same beside]
    exact .skip (by rintro e ⟨⟩) (.append
      ((cond.visitsCoded _ _ tested).left.left.left.left.left.append
        (yes.visitsCoded same returns inside).right.left.left.left)
      (.skip (by rintro e ⟨⟩) (no.visitsCoded same returns otherwise).right.left))
  | .loop _ cond body _, _, _, _, _, _, _, _, .loop scope tested inside => by
    rw [Stmt.visits, Analysis.scopeAtSame same scope]
    exact .skip (by rintro e ⟨⟩) ((cond.visitsCoded _ _ tested).right.left.left.left.append
      (body.visitsCoded same returns inside).right.left)
termination_by structural s => s

theorem Stmt.visitsAllCoded (same : F.scopeIds = a.scopeIds) (returns : DataType) :
    ∀ (ss : List (Stmt NodeId)) {here id n n' : Nat} {w : Analysis} {q : Progress}
      {code : List Instruction}, Stmt.EmitAll a className ss id n code n' →
      CodedVisits F a className (Stmt.visitsAll F returns ss here id w q) code
  | [], _, _, _, _, _, _, _, .nil => .nil
  | s :: rest, _, _, _, _, _, _, _, .cons one more =>
    (s.visitsCoded same returns one).left.append (Stmt.visitsAllCoded same returns rest more).right
termination_by structural ss => ss

end

theorem Method.visitsCoded (same : F.scopeIds = a.scopeIds) {m : Method NodeId} {n n' : Nat}
    {w : Analysis} {q : Progress} {made : CompiledMethod} (emits : m.Emits a className n made n') :
    CodedVisits F a className (m.visits F w q) made.code := by
  obtain ⟨_, _, scope, body⟩ := emits
  rw [Method.visits, Analysis.scopeAtSame same scope]
  exact .skip (by rintro e ⟨⟩) (.append Param.visitsAllCoded (.skip (by rintro e ⟨⟩)
    (Stmt.visitsAllCoded same m.returnType m.body.stmts body).left))

theorem Method.nodeElsewhere {m other : Method NodeId} {ms : List (Method NodeId)}
    (unique : ((m :: ms).flatMap Method.tags).Nodup) (beside : other ∈ ms) {n : Node NodeId}
    (here : n ∈ m.nodes) : n ∉ other.nodes := by
  intro there
  rw [List.flatMap_cons, List.nodup_append] at unique
  exact unique.2.2 n.tag (List.mem_map_of_mem here) n.tag
    (List.mem_flatMap.mpr ⟨other, beside, List.mem_map_of_mem there⟩) rfl

/-- The code of a visited expression stands in the code of the method that the expression belongs to. -/
theorem Method.visitsAllCoded (same : F.scopeIds = a.scopeIds) {ms : List (Method NodeId)}
    {cs : List CompiledMethod} {w : Analysis} {q : Progress} (unique : (ms.flatMap Method.tags).Nodup)
    (emits : List.Forall₂ (fun m c => ∃ n n', m.Emits a className n c n') ms cs)
    {v : Visit} (member : v ∈ Method.visitsAll F ms w q) {e : Expr NodeId} (value : v.part = .value e)
    (plain : ∀ m target value, e ≠ .assign m target value) :
    e.visits F v.here v.id v.walk v.check ⊆ Method.visitsAll F ms w q ∧
      List.Forall₂ (fun m c => v.node ∈ m.nodes →
        ∃ k block, e.code a className v.id k = .ok block ∧ block.1 <:+: c.code) ms cs := by
  induction emits generalizing w q with
  | nil => contradiction
  | @cons m c rest cs first others ih =>
    obtain ⟨_, _, one⟩ := first
    rcases List.mem_append.mp member with early | late
    · obtain ⟨parts, coded⟩ := Method.visitsCoded same one v early e value plain
      have here : v.node ∈ m.nodes := by
        rw [← m.visitsNodes w q]
        exact List.mem_map_of_mem early
      have away := (List.forall₂_and_left (p := (· ∈ rest)) rest cs).mpr
        ⟨fun _ beside => beside, others⟩
      exact ⟨List.Subset.trans parts (List.subset_append_left ..), .cons (fun _ => coded)
        (away.imp fun other _ beside there => absurd there (nodeElsewhere unique beside.1 here))⟩
    · have there : v.node ∈ rest.flatMap Method.nodes := by
        rw [← Method.visitsAllNodes rest _ _]
        exact List.mem_map_of_mem late
      obtain ⟨other, beside, inside⟩ := List.mem_flatMap.mp there
      have later : (rest.flatMap Method.tags).Nodup := by
        rw [List.flatMap_cons] at unique
        exact (List.nodup_append.mp unique).2.1
      obtain ⟨parts, coded⟩ := ih later late
      exact ⟨List.Subset.trans parts (List.subset_append_right ..),
        .cons (fun here => absurd inside (nodeElsewhere unique beside here)) coded⟩

end
end ClassCompiler
