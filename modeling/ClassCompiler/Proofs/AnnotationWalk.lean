import ClassCompiler.Proofs.Growth

/-! The walk over each construct, as a step of the relations of `Growth`: it passes exactly the nodes
of the construct. -/
namespace ClassCompiler

def Expr.tags {τ : Type} (e : Expr τ) : List τ := e.nodes.map Node.tag

def Expr.tagsAll {τ : Type} (es : List (Expr τ)) : List τ := (Expr.nodesAll es).map Node.tag

open Analysis (Walks)

theorem Analysis.annotateAssignEnds (a : Analysis) (id : Nat) (node : NodeId) (keep : Bool)
    (target : Expr NodeId) (walkTarget walkValue : Analysis → Option DataType × Analysis) :
    ∃ stored : Analysis, stored = target.asName.elim ((walkTarget (walkValue a).2).2.pop id 1)
        (fun x => (walkValue a).2.setType target.tag ((walkValue a).2.nameType? id x)) ∧
      (a.annotateAssign id node keep target walkTarget walkValue).2 =
        ((if keep then stored.push id 1 else stored).pop id 1).setType node (walkValue a).1 := by
  refine ⟨_, rfl, ?_⟩
  unfold Analysis.annotateAssign
  cases target.asName <;> rfl

theorem Expr.tagMem {τ : Type} (e : Expr τ) : e.tag ∈ e.tags := by
  cases e <;> simp [Expr.tags, Expr.nodes, Expr.tag]

theorem Analysis.assignWalks (a : Analysis) (id : Nat) (node : NodeId) (keep : Bool)
    (target value : Expr NodeId) {walkTarget walkValue : Analysis → Option DataType × Analysis}
    (first : ∀ b : Analysis, b.Walks id [] target.tags (walkTarget b).2)
    (second : ∀ b : Analysis, b.Walks id [] value.tags (walkValue b).2) :
    a.Walks id [] (Expr.assign node target value).tags
      (a.annotateAssign id node keep target walkTarget walkValue).2 := by
  obtain ⟨stored, made, ends⟩ := a.annotateAssignEnds id node keep target walkTarget walkValue
  have walked : (walkValue a).2.Walks id [] target.tags stored := by
    rw [made]
    cases target.asName with
    | some x => exact (Walks.setType _ id _ _).mono (by simp) (by simpa using target.tagMem)
    | none => exact ((first _).trans (Walks.pop _ id 1)).mono (by simp) (by simp)
  have copied := (second a).trans walked
  have sub : value.tags ++ target.tags ++ [node] ⊆ (Expr.assign node target value).tags := by
    intro x inside
    simp only [Expr.tags, Expr.nodes, List.map_cons, List.map_append, List.mem_append,
      List.mem_cons, List.not_mem_nil, or_false] at inside ⊢
    rcases inside with (v | t) | rfl
    · exact .inr (.inr v)
    · exact .inr (.inl t)
    · exact .inl rfl
  rw [ends]
  cases keep with
  | true =>
    exact (((copied.trans (Walks.push _ id 1)).trans (Walks.pop _ id 1)).trans
      (Walks.setType _ id node _)).mono (by simp) (by simpa using sub)
  | false =>
    exact ((copied.trans (Walks.pop _ id 1)).trans
      (Walks.setType _ id node _)).mono (by simp) (by simpa using sub)

mutual

theorem Expr.annotateWalks (id : Nat) : ∀ (e : Expr NodeId) (a : Analysis),
    a.Walks id [] e.tags (e.annotate id a).2
  | .literal n value span, a => by
    simp only [Expr.annotate]
    refine Walks.mono ((Walks.push a id 1).trans (Walks.setType _ id n _)) ?_ ?_ <;>
      simp [Expr.tags, Expr.nodes]
  | .var n x span, a => by
    simp only [Expr.annotate]
    refine Walks.mono ((Walks.push a id 1).trans (Walks.setType _ id n _)) ?_ ?_ <;>
      simp [Expr.tags, Expr.nodes]
  | .binary n op left right, a => by
    have l := left.annotateWalks id a
    have sub : left.tags ++ right.tags ++ [n] ⊆ (Expr.binary n op left right).tags := by
      intro x inside
      simp only [Expr.tags, Expr.nodes, List.map_cons, List.map_append, List.mem_append,
        List.mem_cons, List.not_mem_nil, or_false] at inside ⊢
      exact inside.symm
    unfold Expr.annotate
    split
    · have r := right.annotateWalks id (left.annotate id a).2
      exact (((l.trans r).trans (Walks.pop _ id 1)).trans (Walks.setType _ id n _)).mono (by simp)
        (by simpa using sub)
    · have r := right.annotateWalks id (left.annotate id a).2
      exact (((l.trans r).trans (Walks.pop _ id 1)).trans (Walks.setType _ id n _)).mono (by simp)
        (by simpa using sub)
    · have r := right.annotateWalks id ((left.annotate id a).2.pop id 1)
      exact (((((l.trans (Walks.pop _ id 1)).trans r).trans (Walks.pop _ id 1)).trans
        (Walks.push _ id 1)).trans (Walks.setType _ id n _)).mono (by simp) (by simpa using sub)
  | .not n operand span, a => by
    simp only [Expr.annotate]
    refine Walks.mono ((operand.annotateWalks id a).trans (Walks.setType _ id n _)) ?_ ?_ <;>
      simp [Expr.tags, Expr.nodes]
  | .assign n target value, a =>
    a.assignWalks id n true target value (fun b => target.annotateWalks id b)
      fun b => value.annotateWalks id b
  | .call n m args span, a => by
    simp only [Expr.annotate]
    have walked := ((Walks.push a id 1).trans (Expr.annotateAllWalks id args _)).trans
      (Walks.pop _ id (1 + args.length))
    refine Walks.mono (walked.trans ((Walks.useMethod _ id m).trans (Walks.setType _ id n _))) ?_ ?_ <;>
      simp [Expr.tags, Expr.nodes, Expr.tagsAll]
  | .writeLine n value span, a => by
    simp only [Expr.annotate]
    have walked := ((Walks.push a id 1).trans (value.annotateWalks id _)).trans (Walks.pop _ id 2)
    refine Walks.mono (walked.trans
      ((Walks.useIntrinsic _ id _ _ _).trans (Walks.setType _ id n _))) ?_ ?_ <;>
      simp [Expr.tags, Expr.nodes]
  | .read n input span, a => by
    simp only [Expr.annotate]
    have moved := ((Walks.push a id 3).trans (Walks.pop _ id 3)).trans (Walks.push _ id 1)
    refine Walks.mono (moved.trans
      ((Walks.useIntrinsic _ id _ _ _).trans (Walks.setType _ id n _))) ?_ ?_ <;>
      simp [Expr.tags, Expr.nodes]
  | .random n span, a => by
    simp only [Expr.annotate]
    have moved := (((Walks.push a id 2).trans (Walks.pop _ id 1)).trans (Walks.pop _ id 1)).trans
      (Walks.push _ id 1)
    refine Walks.mono (moved.trans
      ((Walks.useIntrinsic _ id _ _ _).trans (Walks.setType _ id n _))) ?_ ?_ <;>
      simp [Expr.tags, Expr.nodes]
  | .randomBelow n bound span, a => by
    simp only [Expr.annotate]
    have walked := (((Walks.push a id 2).trans (Walks.pop _ id 1)).trans
      (bound.annotateWalks id _)).trans ((Walks.pop _ id 2).trans (Walks.push _ id 1))
    refine Walks.mono (walked.trans
      ((Walks.useIntrinsic _ id _ _ _).trans (Walks.setType _ id n _))) ?_ ?_ <;>
      simp [Expr.tags, Expr.nodes]

theorem Expr.annotateAllWalks (id : Nat) : ∀ (es : List (Expr NodeId)) (a : Analysis),
    a.Walks id [] (Expr.tagsAll es) (Expr.annotateAll id es a)
  | [], a => Walks.refl a id
  | e :: rest, a => by
    refine Walks.mono ((e.annotateWalks id a).trans (Expr.annotateAllWalks id rest _)) ?_ ?_ <;>
      simp [Expr.tags, Expr.tagsAll, Expr.nodesAll]

end

def Declarator.tags {τ : Type} (d : Declarator τ) : List τ := d.nodes.map Node.tag

def Stmt.tags {τ : Type} (s : Stmt τ) : List τ := s.nodes.map Node.tag

def Stmt.tagsAll {τ : Type} (ss : List (Stmt τ)) : List τ := (Stmt.nodesAll ss).map Node.tag

def Method.tags {τ : Type} (m : Method τ) : List τ := m.nodes.map Node.tag

theorem Expr.droppedWalks (id : Nat) (node : NodeId) (e : Expr NodeId) (a : Analysis) :
    a.Walks id [] (node :: e.tags) (e.annotateDropped id node a) := by
  unfold Expr.annotateDropped
  split
  · rename_i n target value
    have walks := a.assignWalks id n false target value (fun b => target.annotateWalks id b)
      fun b => value.annotateWalks id b
    exact walks.mono (by simp) (List.subset_cons_self ..)
  · have walks := e.annotateWalks id a
    dsimp only
    split
    · exact walks.mono (by simp) (by simp)
    · refine Walks.mono (walks.trans (Walks.setType _ id node _)) ?_ ?_ <;> simp
    · refine Walks.mono ((walks.trans (Walks.pop _ id 1)).trans (Walks.setType _ id node _)) ?_ ?_ <;>
        simp

theorem Declarator.tagMem {τ : Type} (d : Declarator τ) : d.tag ∈ d.tags := by
  simp [Declarator.tags, Declarator.nodes]

theorem Declarator.tagsInit {τ : Type} {d : Declarator τ} {e : Expr τ} (given : d.init = some e) :
    d.tags = d.tag :: e.tags := by
  simp [Declarator.tags, Declarator.nodes, given, Expr.nodesOption, Expr.tags]

theorem Declarator.annotateWalks (type : Option DataType) (id : Nat) (d : Declarator NodeId)
    (a : Analysis) : a.Walks id d.tags d.tags (d.annotate type id a) := by
  unfold Declarator.annotate
  split
  · rename_i e init
    have declared := Walks.declareVariable ((e.annotate id a).2.pop id 1) id d.name
      (type.or (e.annotate id a).1) true d.tag
    refine Walks.mono ((((e.annotateWalks id a).trans (Walks.pop _ id 1)).trans declared).trans
      (Walks.setType _ id d.tag _)) ?_ ?_ <;>
      simp [Declarator.tagsInit init]
  · refine Walks.mono ((Walks.declareVariable a id d.name type false d.tag).trans
      (Walks.setType _ id d.tag _)) ?_ ?_ <;>
      simp [d.tagMem]

theorem Declarator.annotateAllWalks (type : Option DataType) (id : Nat)
    (ds : List (Declarator NodeId)) (a : Analysis) :
    a.Walks id (ds.flatMap Declarator.tags) (ds.flatMap Declarator.tags)
      (Declarator.annotateAll type id ds a) := by
  induction ds generalizing a with
  | nil => exact Walks.refl a id
  | cons d rest ih => exact (d.annotateWalks type id a).trans (ih _)

theorem Expr.conditionWalks (id : Nat) (e : Expr NodeId) (a : Analysis) :
    a.Walks id [] e.tags ((e.annotate id a).2.pop id 1) := by
  refine Walks.mono ((e.annotateWalks id a).trans (Walks.pop _ id 1)) ?_ ?_ <;> simp

mutual

theorem Stmt.annotateWalks : ∀ (s : Stmt NodeId) (id : Nat) (a : Analysis),
    id < a.scopes.size → a.Walks id s.tags s.tags (s.annotate id a)
  | .expr n e _, id, a, _ => by
    refine Walks.mono (e.droppedWalks id n a) ?_ ?_ <;> simp [Stmt.tags, Stmt.nodes, Expr.tags]
  | .declare n type vars span, id, a, _ => by
    have walks := Declarator.annotateAllWalks type id vars a
    have sub : vars.flatMap Declarator.tags ⊆ (Stmt.declare n type vars span).tags := by
      intro x inside
      simp only [Stmt.tags, Stmt.nodes, List.map_cons, List.map_flatMap, List.mem_cons]
      exact .inr inside
    exact Walks.mono walks sub sub
  | .ret n (some e) _, id, a, _ => by
    simp only [Stmt.annotate]
    refine Walks.mono ((((e.annotateWalks id a).trans (Walks.pop _ id 1)).trans
      (Walks.setType _ id n _)).trans (Walks.markReturn _ id)) ?_ ?_ <;>
      simp [Stmt.tags, Stmt.nodes, Expr.nodesOption, Expr.tags]
  | .ret n none _, id, a, _ => by
    simp only [Stmt.annotate]
    refine Walks.mono ((Walks.setType a id n _).trans (Walks.markReturn _ id)) ?_ ?_ <;>
      simp [Stmt.tags, Stmt.nodes]
  | .block n body _, id, a, inside => by
    have inner := Stmt.annotateAllWalks body a.scopes.size (a.entered id n) (a.enteredIn id n)
    simp only [Stmt.annotate]
    refine Walks.mono (a.inScopeWalks _ inside inner) ?_ ?_ <;>
      simp [Stmt.tags, Stmt.nodes, Stmt.tagsAll]
  | .ifThen n cond yes _, id, a, inside => by
    have first := cond.conditionWalks a.scopes.size (a.entered id n)
    have second := yes.annotateWalks a.scopes.size _
      (Nat.lt_of_lt_of_le (a.enteredIn id n) first.size)
    simp only [Stmt.annotate]
    refine Walks.mono (a.inScopeWalks _ inside (first.trans second)) ?_ ?_ <;>
      simp [Stmt.tags, Stmt.nodes, Expr.tags]
  | .ifElse n cond yes m no _, id, a, inside => by
    have first := cond.conditionWalks a.scopes.size (a.entered id n)
    have second := yes.annotateWalks a.scopes.size _
      (Nat.lt_of_lt_of_le (a.enteredIn id n) first.size)
    have left := a.inScopeWalks
      (fun inner a => yes.annotate inner ((cond.annotate inner a).2.pop inner 1)) inside
      (first.trans second)
    have still := Nat.lt_of_lt_of_le inside left.size
    simp only [Stmt.annotate]
    generalize a.inScope id n _ = b at left still ⊢
    have third := no.annotateWalks b.scopes.size (b.entered id m) (b.enteredIn id m)
    refine Walks.mono (left.trans (b.inScopeWalks _ still third)) (by simp) ?_
    intro x member
    simp only [Stmt.tags, Stmt.nodes, Expr.tags, List.map_cons, List.map_append, List.mem_append,
      List.mem_cons] at member ⊢
    grind
  | .loop n cond body _, id, a, inside => by
    have first := cond.conditionWalks a.scopes.size (a.entered id n)
    have second := body.annotateWalks a.scopes.size _
      (Nat.lt_of_lt_of_le (a.enteredIn id n) first.size)
    simp only [Stmt.annotate]
    refine Walks.mono (a.inScopeWalks _ inside (first.trans second)) ?_ ?_ <;>
      simp [Stmt.tags, Stmt.nodes, Expr.tags]

theorem Stmt.annotateAllWalks : ∀ (ss : List (Stmt NodeId)) (id : Nat) (a : Analysis),
    id < a.scopes.size → a.Walks id (Stmt.tagsAll ss) (Stmt.tagsAll ss) (Stmt.annotateAll ss id a)
  | [], id, a, _ => Walks.refl a id
  | s :: rest, id, a, inside => by
    have first := s.annotateWalks id a inside
    have second := Stmt.annotateAllWalks rest id _ (Nat.lt_of_lt_of_le inside first.size)
    refine Walks.mono (first.trans second) ?_ ?_ <;>
      simp [Stmt.tags, Stmt.tagsAll, Stmt.nodesAll]

end

theorem Param.annotateAllWalks (id : Nat) (ps : List (Param NodeId)) (a : Analysis) :
    a.Walks id (ps.map Param.tag) [] (Param.annotateAll id ps a) := by
  induction ps generalizing a with
  | nil => exact Walks.refl a id
  | cons p rest ih =>
    exact (Walks.declareVariable a id p.name (some p.type) true p.tag).trans (ih _)

theorem Method.tagsEq {τ : Type} (m : Method τ) :
    m.tags = m.tag :: (m.params.map Param.tag ++ m.body.tag :: Stmt.tagsAll m.body.stmts) := by
  simp [Method.tags, Method.nodes, Block.nodes, Param.node, Stmt.tagsAll, Function.comp_def]

theorem Method.paramTags {τ : Type} (m : Method τ) : m.params.map Param.tag ⊆ m.tags := by
  rw [m.tagsEq]
  exact fun _ member => List.mem_cons_of_mem _ (List.mem_append_left _ member)

theorem Method.bodyTags {τ : Type} (m : Method τ) : Stmt.tagsAll m.body.stmts ⊆ m.tags := by
  rw [m.tagsEq]
  exact fun _ member =>
    List.mem_cons_of_mem _ (List.mem_append_right _ (List.mem_cons_of_mem _ member))

theorem Method.annotateWalks (m : Method NodeId) (a : Analysis)
    (rooted : ScopeTree.root < a.scopes.size) :
    a.Walks ScopeTree.root [] m.tags (m.annotate a) := by
  have params := Param.annotateAllWalks a.scopes.size m.params
    (a.entered ScopeTree.root m.tag)
  have within := Nat.lt_of_lt_of_le (a.enteredIn ScopeTree.root m.tag) params.size
  simp only [Method.annotate, Block.annotate]
  have body := Stmt.annotateAllWalks m.body.stmts _ _ (Analysis.enteredIn
    (Param.annotateAll a.scopes.size m.params (a.entered ScopeTree.root m.tag))
    a.scopes.size m.body.tag)
  have inner := params.trans (Analysis.inScopeWalks _
    (fun inner a => Stmt.annotateAll m.body.stmts inner a) within body)
  refine Walks.mono (a.inScopeWalks _ rooted inner) (by simp) ?_
  rw [m.tagsEq]
  intro x member
  simp only [List.mem_append, List.mem_cons] at member ⊢
  grind

theorem Method.annotateAllWalks (ms : List (Method NodeId)) (a : Analysis)
    (rooted : ScopeTree.root < a.scopes.size) :
    a.Walks ScopeTree.root [] (ms.flatMap Method.tags) (Method.annotateAll ms a) := by
  induction ms generalizing a with
  | nil => exact Walks.refl a _
  | cons m rest ih =>
    have first := m.annotateWalks a rooted
    exact first.trans (ih _ (Nat.lt_of_lt_of_le rooted first.size))

end ClassCompiler
