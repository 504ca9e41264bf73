import ClassCompiler.Proofs.Alongside
import ClassCompiler.Proofs.Lexical

/-! What the first walk gathers. Over a piece of a program it counts the variables that the piece
declares in the scope around it, notes whether the piece returns there, and enters the intrinsics that
are used anywhere in the piece. -/
namespace ClassCompiler

namespace MethodTable

def countOf (t : MethodTable) (origin : Origin) (x : String) : Nat :=
  t.signatures.countP fun s => s.origin == origin && s.name == x

theorem countSplit (t : MethodTable) (x : String) :
    t.count x = t.countOf .declared x + t.countOf .intrinsic x := by
  unfold count countOf
  induction t.signatures with
  | nil => rfl
  | cons s rest ih =>
    simp only [List.countP_cons, ih]
    cases s.origin <;> by_cases same : s.name = x <;> simp [same] <;> omega

theorem containsCount {t : MethodTable} {x : String} : t.contains x = true ↔ 0 < t.count x := by
  simp [contains, count, List.countP_pos_iff]

structure Enters (names : List String) (t u : MethodTable) : Prop where
  declared : ∀ x, u.countOf .declared x = t.countOf .declared x
  used : ∀ x, u.countOf .intrinsic x =
    if x ∈ names ∧ t.countOf .intrinsic x = 0 then 1 else t.countOf .intrinsic x

theorem Enters.refl (t : MethodTable) : Enters [] t t where
  declared _ := rfl
  used x := by simp

theorem Enters.trans {first second : List String} {t u w : MethodTable} (left : Enters first t u)
    (right : Enters second u w) : Enters (first ++ second) t w where
  declared x := (right.declared x).trans (left.declared x)
  used x := by
    rw [right.used, left.used]
    by_cases one : x ∈ first <;> by_cases two : x ∈ second <;>
      by_cases none : t.countOf .intrinsic x = 0 <;> simp [one, two, none]

theorem Enters.intrinsic (t : MethodTable) (name : String) (returns : DataType)
    (params : List DataType) (span : Span) :
    Enters [name] t (t.useIntrinsic name returns params span) := by
  have known : t.knowsIntrinsic name = true ↔ 0 < t.countOf .intrinsic name := by
    simp [knowsIntrinsic, countOf, List.countP_pos_iff]
  unfold useIntrinsic
  split
  · rename_i there
    have positive := known.mp there
    refine ⟨fun _ => rfl, fun x => ?_⟩
    by_cases here : x = name
    · rw [if_neg (by rw [here]; omega)]
    · simp [here]
  · rename_i absent
    have none : t.countOf .intrinsic name = 0 := by
      rw [known] at absent
      omega
    refine ⟨fun x => by simp [countOf], fun x => ?_⟩
    by_cases here : x = name
    · subst here
      rw [if_pos ⟨List.mem_singleton.mpr rfl, none⟩]
      unfold countOf at none ⊢
      rw [List.countP_append, none]
      simp
    · have away : name ≠ x := fun same => here same.symm
      simp [countOf, here, away]

end MethodTable

def usedNames {τ : Type} (nodes : List (Node τ)) : List String :=
  (nodes.filterMap Node.intrinsic?).map Intrinsic.name

section
variable {τ : Type}

@[simp] theorem usedNamesNil : usedNames ([] : List (Node τ)) = [] := rfl

@[simp] theorem usedNamesCons (n : Node τ) (rest : List (Node τ)) :
    usedNames (n :: rest) = (n.intrinsic?.map Intrinsic.name).toList ++ usedNames rest := by
  unfold usedNames
  rw [List.filterMap_cons]
  cases n.intrinsic? <;> rfl

@[simp] theorem usedNamesAppend (first second : List (Node τ)) :
    usedNames (first ++ second) = usedNames first ++ usedNames second := by
  simp [usedNames]

end

namespace Analysis

/-- From `a` to `b` the scope gets variables of these names, a return if there is one, and the table
of methods the intrinsics in use. -/
structure Gathers (id : Nat) (names : List String) (returned : Bool) (used : List String)
    (a b : Analysis) : Prop where
  count : ∀ x, (b.scopes.scope id).declarationCount x =
    (a.scopes.scope id).declarationCount x + names.count x
  returns : (b.scopes.scope id).hasReturn = ((a.scopes.scope id).hasReturn || returned)
  methods : a.methods.Enters used b.methods

namespace Gathers
variable {id : Nat}

theorem trans {n₁ n₂ u₁ u₂ : List String} {r₁ r₂ : Bool} {a b c : Analysis}
    (left : a.Gathers id n₁ r₁ u₁ b) (right : b.Gathers id n₂ r₂ u₂ c) :
    a.Gathers id (n₁ ++ n₂) (r₁ || r₂) (u₁ ++ u₂) c where
  count x := by rw [right.count, left.count, List.count_append, Nat.add_assoc]
  returns := by rw [right.returns, left.returns, Bool.or_assoc]
  methods := left.methods.trans right.methods

theorem reorder {names u₁ u₂ : List String} {returned : Bool} {a b : Analysis}
    (gathers : a.Gathers id names returned u₁ b) (same : ∀ x, x ∈ u₁ ↔ x ∈ u₂) :
    a.Gathers id names returned u₂ b where
  count := gathers.count
  returns := gathers.returns
  methods := ⟨gathers.methods.declared, fun x => by simp only [gathers.methods.used, same]⟩

theorem refl (a : Analysis) (id : Nat) : a.Gathers id [] false [] a where
  count x := by simp
  returns := by simp
  methods := .refl _

theorem scopes {a b : Analysis} (methods : b.methods = a.methods)
    (declarations : (b.scopes.scope id).declarations = (a.scopes.scope id).declarations)
    (returns : (b.scopes.scope id).hasReturn = (a.scopes.scope id).hasReturn) :
    a.Gathers id [] false [] b where
  count x := by simp [Scope.declarationCount, declarations]
  returns := by simp [returns]
  methods := methods ▸ .refl _

theorem modify (a : Analysis) (other : Nat) {f : Scope → Scope}
    (declarations : ∀ s, (f s).declarations = s.declarations)
    (returns : ∀ s, (f s).hasReturn = s.hasReturn) :
    a.Gathers id [] false [] (a.mapScopes fun t => t.modify other f) := by
  refine scopes rfl ?_ ?_ <;> simp only [mapScopes, ScopeTree.scopeModify] <;> split
  · exact declarations _
  · rfl
  · exact returns _
  · rfl

theorem push (a : Analysis) (id n : Nat) : a.Gathers id [] false [] (a.push id n) :=
  modify a id (fun _ => rfl) fun _ => rfl

theorem pop (a : Analysis) (id n : Nat) : a.Gathers id [] false [] (a.pop id n) :=
  modify a id (fun _ => rfl) fun _ => rfl

theorem setType (a : Analysis) (id : Nat) (n : NodeId) (type : Option DataType) :
    a.Gathers id [] false [] (a.setType n type) := by
  cases type <;> exact scopes rfl rfl rfl

theorem useMethod (a : Analysis) (id : Nat) (name : String) :
    a.Gathers id [] false [] (a.useMethod id name).2 := by
  unfold Analysis.useMethod
  split
  · rename_i s _
    have used : a.Gathers id [] false []
        (a.mapScopes fun t => t.useMethod id name ⟨s.returns, s.params⟩) :=
      modify a id (fun _ => rfl) fun _ => rfl
    dsimp only
    split
    · exact used
    · exact used.trans (push _ id 1)
  · exact refl a id

theorem useIntrinsic (a : Analysis) (id : Nat) (i : Intrinsic) (params : List DataType)
    (span : Span) :
    a.Gathers id [] false [i.name] (a.useIntrinsic id i params span) := by
  have used : a.Gathers id [] false []
      (a.mapScopes fun t => t.useMethod id i.name ⟨i.resultType, params⟩) :=
    modify a id (fun _ => rfl) fun _ => rfl
  exact ⟨used.count, used.returns, .intrinsic ..⟩

theorem markReturn {a : Analysis} (inside : id < a.scopes.size) :
    a.Gathers id [] true [] (a.mapScopes fun t => t.markReturn id) where
  count x := by simp [mapScopes, ScopeTree.markReturn, ScopeTree.scopeModify, inside,
    Scope.declarationCount]
  returns := by simp [mapScopes, ScopeTree.markReturn, ScopeTree.scopeModify, inside]
  methods := .refl _

theorem declareVariable {a : Analysis} (inside : id < a.scopes.size) (name : String)
    (type : Option DataType) (initialized : Bool) (node : NodeId) :
    a.Gathers id [name] false [] (a.mapScopes fun t =>
      t.declareVariable id name type initialized node) where
  count x := by
    simp only [mapScopes, ScopeTree.declareVariable, ScopeTree.scopeModify, inside, and_self,
      if_true, Scope.declareVariable, Scope.declarationCount, Table.getInsert]
    by_cases here : name = x <;> simp [here]
  returns := by
    simp [mapScopes, ScopeTree.declareVariable, ScopeTree.scopeModify, inside, Scope.declareVariable]
  methods := .refl _

theorem inScope {a : Analysis} (inside : Nat → Analysis → Analysis) {n : NodeId}
    {fresh passed : List NodeId} {names used : List String} {returned : Bool}
    (inRange : id < a.scopes.size)
    (walks : (a.entered id n).Walks a.scopes.size fresh passed
      (inside a.scopes.size (a.entered id n)))
    (inner : (a.entered id n).Gathers a.scopes.size names returned used
      (inside a.scopes.size (a.entered id n))) :
    a.Gathers id [] false used (a.inScope id n inside) := by
  rw [inScopeEntered]
  have around := walks.enteredAround inRange
  have raised : (inside a.scopes.size (a.entered id n)).Gathers id [] false []
      ((inside a.scopes.size (a.entered id n)).mapScopes fun t => t.leave a.scopes.size) := by
    simp only [mapScopes, ScopeTree.leave, walks.enteredParent]
    exact modify _ id (fun _ => rfl) fun _ => rfl
  refine ⟨fun x => ?_, ?_, ?_⟩
  · rw [raised.count, around]
  · rw [raised.returns, around]
  · exact inner.methods

end Gathers
end Analysis

open Analysis (Gathers)

theorem Analysis.assignGathers (a : Analysis) (id : Nat) (n : NodeId) (keep : Bool)
    (target : Expr NodeId) {walkTarget walkValue : Analysis → Option DataType × Analysis}
    {before after : List String} (plain : target.asName.isSome = true → before = [])
    (first : ∀ b : Analysis, b.Gathers id [] false before (walkTarget b).2)
    (second : ∀ b : Analysis, b.Gathers id [] false after (walkValue b).2) :
    a.Gathers id [] false (after ++ before)
      (a.annotateAssign id n keep target walkTarget walkValue).2 := by
  obtain ⟨stored, made, ends⟩ := a.annotateAssignEnds id n keep target walkTarget walkValue
  have walked : (walkValue a).2.Gathers id [] false before stored := by
    rw [made]
    cases named : target.asName with
    | some x =>
      rw [plain (by simp [named])]
      exact .setType _ id _ _
    | none => simpa using (first (walkValue a).2).trans (.pop _ id 1)
  have copied := (second a).trans walked
  rw [ends]
  cases keep with
  | true =>
    have all := ((copied.trans (.push _ id 1)).trans (.pop _ id 1)).trans
      (.setType _ id n (walkValue a).1)
    simp only [List.append_nil, Bool.or_false] at all
    exact all
  | false =>
    have all := (copied.trans (.pop _ id 1)).trans (.setType _ id n (walkValue a).1)
    simp only [List.append_nil, Bool.or_false] at all
    exact all

theorem Expr.nameUses {τ : Type} {e : Expr τ} (named : e.asName.isSome = true) :
    usedNames e.nodes = [] := by
  cases e <;> first | rfl | simp [Expr.asName] at named

mutual

theorem Expr.annotateGathers (id : Nat) : ∀ (e : Expr NodeId) (a : Analysis),
    a.Gathers id [] false (usedNames e.nodes) (e.annotate id a).2
  | .literal n value span, a => by
    simp only [Expr.annotate]
    exact (Gathers.push a id 1).trans (.setType _ id n _)
  | .var n x span, a => by
    simp only [Expr.annotate]
    exact (Gathers.push a id 1).trans (.setType _ id n _)
  | .binary n op left right, a => by
    have l := left.annotateGathers id a
    by_cases logical : op.group = .logical
    · have r := right.annotateGathers id ((left.annotate id a).2.pop id 1)
      rw [Expr.annotateLogical logical]
      simpa [Expr.nodes, Node.intrinsic?] using
        ((((l.trans (.pop _ id 1)).trans r).trans (.pop _ id 1)).trans (.push _ id 1)).trans (.setType _ id n _)
    · have r := right.annotateGathers id (left.annotate id a).2
      rw [Expr.annotateStrict logical]
      simpa [Expr.nodes, Node.intrinsic?] using
        ((l.trans r).trans (.pop _ id 1)).trans (.setType _ id n _)
  | .not n operand span, a => by
    simpa [Expr.annotate, Expr.nodes, Node.intrinsic?] using
      (operand.annotateGathers id a).trans (.setType _ id n (some .bool))
  | .assign n target value, a => by
    have walked := a.assignGathers id n true target Expr.nameUses
      (fun b => target.annotateGathers id b) fun b => value.annotateGathers id b
    refine walked.reorder fun x => ?_
    simp [Expr.nodes, Node.intrinsic?, or_comm]
  | .call n m args span, a => by
    have walked := ((Gathers.push a id 1).trans (Expr.annotateAllGathers id args _)).trans
      (.pop _ id (1 + args.length))
    simpa [Expr.annotate, Expr.nodes, Node.intrinsic?] using
      (walked.trans (.useMethod _ id m)).trans (.setType _ id n (some _))
  | .writeLine n value span, a => by
    have walked := ((Gathers.push a id 1).trans (value.annotateGathers id _)).trans (.pop _ id 2)
    simp only [Expr.annotate]
    refine Gathers.reorder ((walked.trans (.useIntrinsic _ id .writeLine _ span)).trans
      (.setType _ id n _)) fun x => ?_
    simp [Expr.nodes, Node.intrinsic?, or_comm]
  | .read n input span, a => by
    have moved := ((Gathers.push a id 3).trans (.pop _ id 3)).trans (.push _ id 1)
    simp only [Expr.annotate]
    exact (moved.trans (.useIntrinsic _ id (.read input) [] span)).trans (.setType _ id n _)
  | .random n span, a => by
    have moved := (((Gathers.push a id 2).trans (.pop _ id 1)).trans (.pop _ id 1)).trans (.push _ id 1)
    simp only [Expr.annotate]
    exact (moved.trans (.useIntrinsic _ id .randomInt [] span)).trans (.setType _ id n _)
  | .randomBelow n bound span, a => by
    have walked := (((Gathers.push a id 2).trans (.pop _ id 1)).trans (bound.annotateGathers id _)).trans
      ((Gathers.pop _ id 2).trans (.push _ id 1))
    simp only [Expr.annotate]
    refine Gathers.reorder ((walked.trans (.useIntrinsic _ id .randomInt [.int] span)).trans
      (.setType _ id n _)) fun x => ?_
    simp [Expr.nodes, Node.intrinsic?, or_comm]

theorem Expr.annotateAllGathers (id : Nat) : ∀ (es : List (Expr NodeId)) (a : Analysis),
    a.Gathers id [] false (usedNames (Expr.nodesAll es)) (Expr.annotateAll id es a)
  | [], a => .refl a id
  | e :: rest, a => by
    simpa [Expr.annotateAll, Expr.nodesAll] using
      (e.annotateGathers id a).trans (Expr.annotateAllGathers id rest _)

end

theorem Expr.droppedGathers (id : Nat) (n : NodeId) (e : Expr NodeId) (a : Analysis) :
    a.Gathers id [] false (usedNames e.nodes) (e.annotateDropped id n a) := by
  unfold Expr.annotateDropped
  split
  · rename_i m target value
    have walked := a.assignGathers id m false target Expr.nameUses
      (fun b => target.annotateGathers id b) fun b => value.annotateGathers id b
    refine walked.reorder fun x => ?_
    simp [Expr.nodes, Node.intrinsic?, or_comm]
  · have walked := e.annotateGathers id a
    dsimp only
    split
    · exact walked
    · simpa using walked.trans (.setType _ id n (some .void))
    · simpa using (walked.trans (.pop _ id 1)).trans (.setType _ id n (some _))

theorem Declarator.annotateGathers (type : Option DataType) {id : Nat} (d : Declarator NodeId)
    {a : Analysis} (inside : id < a.scopes.size) :
    a.Gathers id [d.name] false (usedNames d.nodes) (d.annotate type id a) := by
  unfold Declarator.annotate
  split
  · rename_i e given
    have within : id < ((e.annotate id a).2.pop id 1).scopes.size := by
      simpa [Expr.annotateSize] using inside
    have walked := (((e.annotateGathers id a).trans (.pop _ id 1)).trans
      (.declareVariable within d.name (type.or (e.annotate id a).1) true d.tag)).trans
        (.setType _ id d.tag (type.or (e.annotate id a).1))
    simpa [Declarator.nodes, given, Expr.nodesOption, Node.intrinsic?] using walked
  · rename_i given
    have walked := (Gathers.declareVariable inside d.name type false d.tag).trans
      (.setType _ id d.tag type)
    simpa [Declarator.nodes, given, Expr.nodesOption, Node.intrinsic?] using walked

theorem Declarator.annotateAllGathers (type : Option DataType) {id : Nat}
    (ds : List (Declarator NodeId)) {a : Analysis} (inside : id < a.scopes.size) :
    a.Gathers id (ds.map Declarator.name) false (usedNames (ds.flatMap Declarator.nodes))
      (Declarator.annotateAll type id ds a) := by
  induction ds generalizing a with
  | nil => exact .refl a id
  | cons d rest ih =>
    have size := Declarator.annotateSize type id d a
    simpa [Declarator.annotateAll] using
      (d.annotateGathers type inside).trans (ih (show id < _ from size ▸ inside))

theorem Expr.conditionGathers (id : Nat) (e : Expr NodeId) (a : Analysis) :
    a.Gathers id [] false (usedNames e.nodes) ((e.annotate id a).2.pop id 1) := by
  simpa using (e.annotateGathers id a).trans (.pop _ id 1)

theorem Stmt.conditionalGathers (id : Nat) (a : Analysis) (n : NodeId) (cond : Expr NodeId)
    (body : Stmt NodeId) {names used : List String} {returned : Bool}
    (rest : ∀ {b : Analysis}, a.scopes.size < b.scopes.size →
      b.Gathers a.scopes.size names returned used (body.annotate a.scopes.size b)) :
    (a.entered id n).Walks a.scopes.size body.tags (cond.tags ++ body.tags)
        (body.annotate a.scopes.size
          ((cond.annotate a.scopes.size (a.entered id n)).2.pop a.scopes.size 1)) ∧
      (a.entered id n).Gathers a.scopes.size names returned (usedNames cond.nodes ++ used)
        (body.annotate a.scopes.size
          ((cond.annotate a.scopes.size (a.entered id n)).2.pop a.scopes.size 1)) := by
  have first := cond.conditionWalks a.scopes.size (a.entered id n)
  have within := Nat.lt_of_lt_of_le (a.enteredIn id n) first.size
  refine ⟨first.trans (body.annotateWalks a.scopes.size _ within), ?_⟩
  simpa using (cond.conditionGathers a.scopes.size (a.entered id n)).trans (rest within)

mutual

theorem Stmt.annotateGathers : ∀ (s : Stmt NodeId) {id : Nat} {a : Analysis},
    id < a.scopes.size → a.Gathers id s.names s.isReturn (usedNames s.nodes) (s.annotate id a)
  | .expr n e _, id, a, inside => by
    simpa [Stmt.annotate, Stmt.names, Stmt.isReturn, Stmt.nodes, Node.intrinsic?] using
      e.droppedGathers id n a
  | .declare n type vars _, id, a, inside => by
    simpa [Stmt.annotate, Stmt.names, Stmt.isReturn, Stmt.nodes, Node.intrinsic?] using
      Declarator.annotateAllGathers type vars inside
  | .ret n (some e) _, id, a, inside => by
    have within : id < (((e.annotate id a).2.pop id 1).setType n (e.annotate id a).1).scopes.size := by
      simpa [Expr.annotateSize] using inside
    simpa [Stmt.annotate, Stmt.names, Stmt.isReturn, Stmt.nodes, Expr.nodesOption,
      Node.intrinsic?] using
      ((e.conditionGathers id a).trans (.setType _ id n (e.annotate id a).1)).trans
        (.markReturn within)
  | .ret n none _, id, a, inside => by
    have within : id < (a.setType n (some .void)).scopes.size := by simpa using inside
    simpa [Stmt.annotate, Stmt.names, Stmt.isReturn, Stmt.nodes, Expr.nodesOption,
      Node.intrinsic?] using
      (Gathers.setType a id n (some .void)).trans (.markReturn within)
  | .block n body _, id, a, inside => by
    have walks := Stmt.annotateAllWalks body a.scopes.size (a.entered id n) (a.enteredIn id n)
    have inner := Stmt.annotateAllGathers body (a.enteredIn id n)
    simpa [Stmt.annotate, Stmt.names, Stmt.isReturn, Stmt.nodes, Node.intrinsic?] using
      Gathers.inScope _ inside walks inner
  | .ifThen n cond yes _, id, a, inside => by
    obtain ⟨walks, inner⟩ := Stmt.conditionalGathers id a n cond yes
      fun within => yes.annotateGathers within
    simpa [Stmt.annotate, Stmt.names, Stmt.isReturn, Stmt.nodes, Node.intrinsic?] using
      Gathers.inScope _ inside walks inner
  | .ifElse n cond yes m no _, id, a, inside => by
    obtain ⟨walks, inner⟩ := Stmt.conditionalGathers id a n cond yes
      fun within => yes.annotateGathers within
    have first := Gathers.inScope (fun inner a =>
      yes.annotate inner ((cond.annotate inner a).2.pop inner 1)) inside walks inner
    have still := Nat.lt_of_lt_of_le inside
      (a.inScopeWalks (fun inner a => yes.annotate inner ((cond.annotate inner a).2.pop inner 1))
        inside walks).size
    have second := Gathers.inScope (fun inner a => no.annotate inner a) still
      (no.annotateWalks _ _ (Analysis.enteredIn _ id m)) (no.annotateGathers (Analysis.enteredIn _ id m))
    simpa [Stmt.annotate, Stmt.names, Stmt.isReturn, Stmt.nodes, Node.intrinsic?] using
      first.trans second
  | .loop n cond body _, id, a, inside => by
    obtain ⟨walks, inner⟩ := Stmt.conditionalGathers id a n cond body
      fun within => body.annotateGathers within
    simpa [Stmt.annotate, Stmt.names, Stmt.isReturn, Stmt.nodes, Node.intrinsic?] using
      Gathers.inScope _ inside walks inner

theorem Stmt.annotateAllGathers : ∀ (ss : List (Stmt NodeId)) {id : Nat} {a : Analysis},
    id < a.scopes.size → a.Gathers id (ss.flatMap Stmt.names) (ss.any Stmt.isReturn)
      (usedNames (Stmt.nodesAll ss)) (Stmt.annotateAll ss id a)
  | [], id, a, inside => .refl a id
  | s :: rest, id, a, inside => by
    have later := Nat.lt_of_lt_of_le inside (s.annotateWalks id a inside).size
    simpa [Stmt.annotateAll, Stmt.nodesAll] using
      (s.annotateGathers inside).trans (Stmt.annotateAllGathers rest later)

end

namespace Analysis

/-- A scope of a finished analysis: the scope around it, the names declared in it, whether it returns,
and the nodes that its variables stand at. -/
structure Inner (F : Analysis) (id inner : Nat) (names : List String) (returned : Bool)
    (nodes : List NodeId) : Prop where
  parent : (F.scopes.scope inner).parent = some id
  count : ∀ x, (F.scopes.scope inner).declarationCount x = names.count x
  returns : (F.scopes.scope inner).hasReturn = returned
  vars : ∀ x v, F.scopes.symbol? inner x = some (.var v) → v.declaredAt ∈ nodes

def Counts (F : Analysis) (id : Nat) (around : List String) : Prop :=
  ∀ x, F.scopes.declarationCount id x = around.count x

theorem Inner.counts {F : Analysis} {id inner : Nat} {names around : List String} {returned : Bool}
    {nodes : List NodeId} (here : F.Inner id inner names returned nodes) (ordered : F.scopes.Ordered)
    (counts : F.Counts id around) : F.Counts inner (names ++ around) := by
  intro x
  rw [ScopeTree.declarationCountChild ordered here.parent, here.count, counts, List.count_append]

theorem inScopeLeft {a : Analysis} (inside : Nat → Analysis → Analysis) {id : Nat} {n : NodeId}
    {fresh passed : List NodeId} (inRange : id < a.scopes.size)
    (walks : (a.entered id n).Walks a.scopes.size fresh passed
      (inside a.scopes.size (a.entered id n))) :
    (a.inScope id n inside).scopes.scope a.scopes.size =
      (inside a.scopes.size (a.entered id n)).scopes.scope a.scopes.size := by
  have within := Nat.lt_of_lt_of_le (a.enteredIn id n) walks.size
  rw [inScopeEntered, (Walks.leave _ walks.enteredParent).only _ within (by omega)]

theorem innerScope {F a : Analysis} (inside : Nat → Analysis → Analysis) {id : Nat} {n : NodeId}
    {fresh passed : List NodeId} {names used : List String} {returned : Bool}
    (closed : F.scopes.scope a.scopes.size =
      (inside a.scopes.size (a.entered id n)).scopes.scope a.scopes.size)
    (walks : (a.entered id n).Walks a.scopes.size fresh passed
      (inside a.scopes.size (a.entered id n)))
    (gathers : (a.entered id n).Gathers a.scopes.size names returned used
      (inside a.scopes.size (a.entered id n))) :
    F.Inner id a.scopes.size names returned fresh := by
  refine ⟨?_, fun x => ?_, ?_, fun x v found => ?_⟩
  · rw [closed, walks.enteredParent]
  · rw [closed, gathers.count, enteredNew]
    simp [Scope.declarationCount]
  · rw [closed, gathers.returns, enteredNew]
    simp
  · rw [ScopeTree.symbol?, closed] at found
    rcases (walks.scope _ (a.enteredIn id n)).symbol x with kept | ⟨w, here, new, _⟩ | ⟨_, m, planted⟩
    · simp [kept, enteredNew] at found
    · have same : w = v := by simpa using here.symm.trans found
      exact same ▸ new
    · simpa using planted.symm.trans found

end Analysis

namespace Stmt
variable {F a : Analysis} {kept : List NodeId} {id : Nat}

theorem Run.blockClosed {n : NodeId} {body : List (Stmt NodeId)} {span : Span}
    (run : (Stmt.block n body span).Run F kept id a) : F.scopes.scope a.scopes.size =
      (Stmt.annotateAll body a.scopes.size (a.entered id n)).scopes.scope a.scopes.size := by
  have walks := Stmt.annotateAllWalks body a.scopes.size (a.entered id n) (a.enteredIn id n)
  refine (run.closed _ (Nat.le_refl _) ?_).trans (Analysis.inScopeLeft
    (fun inner a => Stmt.annotateAll body inner a) run.inside walks)
  rw [Stmt.annotate, Analysis.inScopeSize]
  exact Nat.lt_of_lt_of_le (a.enteredIn id n) walks.size

theorem Run.blockInner {n : NodeId} {body : List (Stmt NodeId)} {span : Span}
    (run : (Stmt.block n body span).Run F kept id a) :
    F.Inner id a.scopes.size (body.flatMap Stmt.names) (body.any Stmt.isReturn)
      (Stmt.tagsAll body) :=
  Analysis.innerScope (fun inner a => Stmt.annotateAll body inner a) run.blockClosed
    (Stmt.annotateAllWalks body a.scopes.size (a.entered id n) (a.enteredIn id n))
    (Stmt.annotateAllGathers body (a.enteredIn id n))

theorem conditionalClosed {n : NodeId} {cond : Expr NodeId} {body : Stmt NodeId}
    (closed : ∀ i, a.scopes.size ≤ i → i < (a.inScope id n fun inner a =>
        body.annotate inner ((cond.annotate inner a).2.pop inner 1)).scopes.size →
      F.scopes.scope i = (a.inScope id n fun inner a =>
        body.annotate inner ((cond.annotate inner a).2.pop inner 1)).scopes.scope i)
    (inside : id < a.scopes.size) : F.scopes.scope a.scopes.size =
      (body.annotate a.scopes.size ((cond.annotate a.scopes.size (a.entered id n)).2.pop
        a.scopes.size 1)).scopes.scope a.scopes.size := by
  obtain ⟨walks, _⟩ := Stmt.conditionalGathers id a n cond body
    fun within => body.annotateGathers within
  refine (closed _ (Nat.le_refl _) ?_).trans (Analysis.inScopeLeft (fun inner a =>
    body.annotate inner ((cond.annotate inner a).2.pop inner 1)) inside walks)
  rw [Analysis.inScopeSize]
  exact Nat.lt_of_lt_of_le (a.enteredIn id n) walks.size

theorem conditionalInner {n : NodeId} {cond : Expr NodeId} {body : Stmt NodeId}
    (closed : F.scopes.scope a.scopes.size =
      (body.annotate a.scopes.size ((cond.annotate a.scopes.size (a.entered id n)).2.pop
        a.scopes.size 1)).scopes.scope a.scopes.size) :
    F.Inner id a.scopes.size body.names body.isReturn body.tags := by
  obtain ⟨walks, gathers⟩ := Stmt.conditionalGathers id a n cond body
    fun within => body.annotateGathers within
  exact Analysis.innerScope (fun inner a =>
    body.annotate inner ((cond.annotate inner a).2.pop inner 1)) closed walks gathers

theorem Run.ifThenInner {n : NodeId} {cond : Expr NodeId} {yes : Stmt NodeId} {span : Span}
    (run : (Stmt.ifThen n cond yes span).Run F kept id a) :
    F.Inner id a.scopes.size yes.names yes.isReturn yes.tags :=
  conditionalInner (conditionalClosed run.closed run.inside)

theorem Run.loopInner {n : NodeId} {cond : Expr NodeId} {body : Stmt NodeId} {span : Span}
    (run : (Stmt.loop n cond body span).Run F kept id a) :
    F.Inner id a.scopes.size body.names body.isReturn body.tags :=
  conditionalInner (conditionalClosed run.closed run.inside)

theorem Run.elseClosed {n m : NodeId} {cond : Expr NodeId} {yes no : Stmt NodeId} {span : Span}
    (run : (Stmt.ifElse n cond yes m no span).Run F kept id a) :
    F.scopes.scope ((Stmt.ifThen n cond yes span).annotate id a).scopes.size =
      (no.annotate ((Stmt.ifThen n cond yes span).annotate id a).scopes.size
        (((Stmt.ifThen n cond yes span).annotate id a).entered id m)).scopes.scope
          ((Stmt.ifThen n cond yes span).annotate id a).scopes.size := by
  obtain ⟨_, inside, _, _⟩ := run.ifElse
  have before := ((Stmt.ifThen n cond yes span).annotateWalks id a run.inside).size
  have entered := ((Stmt.ifThen n cond yes span).annotate id a).enteredIn id m
  have walks := no.annotateWalks _ _ entered
  refine (run.closed _ before ?_).trans
    (Analysis.inScopeLeft (fun inner a => no.annotate inner a) inside walks)
  exact Nat.lt_of_lt_of_le entered (Nat.le_trans walks.size (Stmt.elseRoom (Nat.le_refl _)).2.2)

theorem Run.elseInner {n m : NodeId} {cond : Expr NodeId} {yes no : Stmt NodeId} {span : Span}
    (run : (Stmt.ifElse n cond yes m no span).Run F kept id a) :
    F.Inner id ((Stmt.ifThen n cond yes span).annotate id a).scopes.size no.names no.isReturn
      no.tags := by
  have entered := ((Stmt.ifThen n cond yes span).annotate id a).enteredIn id m
  exact Analysis.innerScope (fun inner a => no.annotate inner a) run.elseClosed
    (no.annotateWalks _ _ entered) (no.annotateGathers entered)

end Stmt

theorem Param.annotateAllGathers {id : Nat} (ps : List (Param NodeId)) {a : Analysis}
    (inside : id < a.scopes.size) :
    a.Gathers id (ps.map Param.name) false [] (Param.annotateAll id ps a) := by
  induction ps generalizing a with
  | nil => exact .refl a id
  | cons param rest ih =>
    have within : id < (a.mapScopes fun t =>
        t.declareVariable id param.name (some param.type) true param.tag).scopes.size := by
      simpa [Analysis.mapScopes, ScopeTree.declareVariable] using inside
    exact (Gathers.declareVariable inside param.name (some param.type) true param.tag).trans
      (ih within)

namespace Method

theorem innerGathers (m : Method NodeId) (a : Analysis) :
    ∃ passed, (a.entered ScopeTree.root m.tag).Walks a.scopes.size (m.params.map Param.tag) passed
        (m.body.annotate a.scopes.size (opened a m)) ∧
      (a.entered ScopeTree.root m.tag).Gathers a.scopes.size (m.params.map Param.name) false
        (usedNames (Stmt.nodesAll m.body.stmts)) (m.body.annotate a.scopes.size (opened a m)) := by
  have start := a.enteredIn ScopeTree.root m.tag
  have params := Param.annotateAllWalks a.scopes.size m.params (a.entered ScopeTree.root m.tag)
  have within : a.scopes.size < (opened a m).scopes.size := Nat.lt_of_lt_of_le start params.size
  have entered := (opened a m).enteredIn a.scopes.size m.body.tag
  have walks := Stmt.annotateAllWalks m.body.stmts _ _ entered
  have body := Gathers.inScope (fun inner a => Stmt.annotateAll m.body.stmts inner a) within walks
    (Stmt.annotateAllGathers m.body.stmts entered)
  refine ⟨_, (params.trans ((opened a m).inScopeWalks
    (fun inner a => Stmt.annotateAll m.body.stmts inner a) within walks)).mono (by simp)
      (List.Subset.refl _), ?_⟩
  simpa [Block.annotate] using (Param.annotateAllGathers m.params start).trans body

theorem annotateGathers (m : Method NodeId) {a : Analysis} (rooted : ScopeTree.root < a.scopes.size) :
    a.Gathers ScopeTree.root [] false (usedNames m.nodes) (m.annotate a) := by
  obtain ⟨_, walks, gathers⟩ := m.innerGathers a
  have listed : usedNames m.nodes = usedNames (Stmt.nodesAll m.body.stmts) := by
    have params (ps : List (Param NodeId)) : usedNames (ps.map Param.node) = [] := by
      induction ps with
      | nil => rfl
      | cons param rest ih => simp [ih, Param.node, Node.intrinsic?]
    simp [Method.nodes, Block.nodes, params, Node.intrinsic?]
  rw [listed]
  exact .inScope (fun inner a => m.body.annotate inner (Param.annotateAll inner m.params a)) rooted
    walks gathers

theorem annotateAllGathers (ms : List (Method NodeId)) {a : Analysis}
    (rooted : ScopeTree.root < a.scopes.size) :
    a.Gathers ScopeTree.root [] false (usedNames (ms.flatMap Method.nodes))
      (Method.annotateAll ms a) := by
  induction ms generalizing a with
  | nil => exact .refl a _
  | cons m rest ih =>
    have later := Nat.lt_of_lt_of_le rooted (m.annotateWalks a rooted).size
    simpa [Method.annotateAll] using (m.annotateGathers rooted).trans (ih later)

theorem Run.bothClosed {F a : Analysis} {kept : List NodeId} {m : Method NodeId}
    (run : m.Run F kept a) :
    F.scopes.scope a.scopes.size =
        (m.body.annotate a.scopes.size (opened a m)).scopes.scope a.scopes.size ∧
      F.scopes.scope (opened a m).scopes.size =
        (Stmt.annotateAll m.body.stmts (opened a m).scopes.size
          ((opened a m).entered a.scopes.size m.body.tag)).scopes.scope (opened a m).scopes.size := by
  obtain ⟨_, walks, _⟩ := m.innerGathers a
  obtain ⟨_, within, _, _⟩ := run.body
  have entered := (opened a m).enteredIn a.scopes.size m.body.tag
  have body := Stmt.annotateAllWalks m.body.stmts _ _ entered
  have size := m.annotateSize a
  have last := Nat.lt_of_lt_of_le entered body.size
  constructor
  · exact (run.closed _ (Nat.le_refl _) (by rw [size]; omega)).trans (Analysis.inScopeLeft
      (fun inner a => m.body.annotate inner (Param.annotateAll inner m.params a)) run.rooted walks)
  · -- Leaving the scope of the method touches the root only; the scope of the body is final before.
    have inner : (m.body.annotate a.scopes.size (opened a m)).scopes.size =
        (Stmt.annotateAll m.body.stmts (opened a m).scopes.size
          ((opened a m).entered a.scopes.size m.body.tag)).scopes.size := by
      rw [Block.annotate, Analysis.inScopeSize]
    have closed := run.closed (opened a m).scopes.size (Nat.le_of_lt within) (by rw [size]; exact last)
    have left : (m.annotate a).scopes.scope (opened a m).scopes.size =
        (m.body.annotate a.scopes.size (opened a m)).scopes.scope (opened a m).scopes.size :=
      (Analysis.Walks.leave _ walks.enteredParent).only _ (by rw [inner]; exact last)
        (by simp only [ScopeTree.root]; omega)
    exact (closed.trans left).trans (Analysis.inScopeLeft
      (fun inner a => Stmt.annotateAll m.body.stmts inner a) within body)

theorem Run.inner {F a : Analysis} {kept : List NodeId} {m : Method NodeId} (run : m.Run F kept a) :
    F.Inner ScopeTree.root a.scopes.size (m.params.map Param.name) false (m.params.map Param.tag) ∧
      F.Inner a.scopes.size (opened a m).scopes.size (m.body.stmts.flatMap Stmt.names)
        (m.body.stmts.any Stmt.isReturn) (Stmt.tagsAll m.body.stmts) := by
  obtain ⟨outer, inner⟩ := run.bothClosed
  obtain ⟨_, walks, gathers⟩ := m.innerGathers a
  have entered := (opened a m).enteredIn a.scopes.size m.body.tag
  exact ⟨Analysis.innerScope
      (fun inner a => m.body.annotate inner (Param.annotateAll inner m.params a)) outer walks gathers,
    Analysis.innerScope (fun inner a => Stmt.annotateAll m.body.stmts inner a) inner
      (Stmt.annotateAllWalks m.body.stmts _ _ entered)
      (Stmt.annotateAllGathers m.body.stmts entered)⟩

end Method

namespace Program

theorem annotatedTidy (p : Program NodeId) : p.annotated.Tidy := p.annotatedWalks.tidy p.begunTidy

theorem annotatedRoot (p : Program NodeId) : p.annotated.Counts ScopeTree.root [] := by
  intro x
  have top : (p.annotated.scopes.scope ScopeTree.root).parent = none :=
    (p.annotatedWalks.scope ScopeTree.root Nat.zero_lt_one).parent
  rw [ScopeTree.declarationCountTop top, if_pos rfl]
  rfl

theorem annotatedCount (p : Program NodeId) (x : String) : p.annotated.methods.count x =
    (p.methods.map Method.name).count x +
      if x ∈ p.intrinsics.map Intrinsic.name then 1 else 0 := by
  have gathers := Method.annotateAllGathers p.methods
    (show ScopeTree.root < p.begun.scopes.size from Nat.zero_lt_one)
  have declared : p.begun.methods.countOf .declared x = (p.methods.map Method.name).count x := by
    rw [MethodTable.countOf, begunMethods, List.countP_map, List.count, List.countP_map]
    rfl
  have none : p.begun.methods.countOf .intrinsic x = 0 := by
    rw [MethodTable.countOf, begunMethods, List.countP_map, List.countP_eq_zero]
    intro m _ here
    simp [signature] at here
  have listed : usedNames (p.methods.flatMap Method.nodes) = p.intrinsics.map Intrinsic.name := rfl
  rw [MethodTable.countSplit, annotatedEq, gathers.methods.declared, gathers.methods.used, declared,
    none, listed]
  simp

theorem annotatedContains (p : Program NodeId) (x : String) :
    p.annotated.methods.contains x = true ↔ x ∈ p.taken := by
  rw [MethodTable.containsCount, annotatedCount, taken, List.mem_append]
  have declared : 0 < (p.methods.map Method.name).count x ↔ x ∈ p.methods.map Method.name :=
    List.count_pos_iff
  by_cases used : x ∈ p.intrinsics.map Intrinsic.name
  · simp only [used, if_true, or_true, iff_true]
    omega
  · simp only [used, if_false, or_false, Nat.add_zero, declared]

theorem annotatedSingle (p : Program NodeId) :
    (∀ m ∈ p.methods, p.annotated.methods.count m.name ≤ 1) ↔
      (p.methods.map Method.name).Nodup ∧ ∀ m ∈ p.methods, ∀ i ∈ p.intrinsics, m.name ≠ i.name := by
  constructor
  · intro single
    refine ⟨List.nodup_iff_count.mpr fun x => ?_, fun m member i used same => ?_⟩
    · by_cases known : x ∈ p.methods.map Method.name
      · obtain ⟨m, member, rfl⟩ := List.mem_map.mp known
        have few := single m member
        rw [annotatedCount] at few
        omega
      · rw [List.count_eq_zero.mpr known]
        omega
    · have few := single m member
      have one : 0 < (p.methods.map Method.name).count m.name :=
        List.count_pos_iff.mpr (List.mem_map.mpr ⟨m, member, rfl⟩)
      rw [annotatedCount, if_pos (List.mem_map.mpr ⟨i, used, same.symm⟩)] at few
      omega
  · rintro ⟨distinct, apart⟩ m member
    have few := List.nodup_iff_count.mp distinct m.name
    rw [annotatedCount, if_neg]
    · exact few
    · intro used
      obtain ⟨i, inside, same⟩ := List.mem_map.mp used
      exact apart m member i inside same.symm

end Program
end ClassCompiler
