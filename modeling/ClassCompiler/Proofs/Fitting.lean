import ClassCompiler.Proofs.StackNeed

/-! The analysis of a program that breaks no rule fits it: what the code of each construct asks of
the tables is there, and in agreement with the types, and the counter of each method has the need of
its body for a maximum. -/
namespace ClassCompiler

/-- `a` is the finished analysis up to marks. -/
structure Analysis.Alike (a F : Analysis) : Prop where
  methods : a.methods = F.methods
  types : a.types = F.types
  scopeIds : a.scopeIds = F.scopeIds
  marks : a.scopes.blank = F.scopes.blank

theorem ValueKind.ofSome {type : DataType} (solid : type ≠ .void) :
    ∃ kind, ValueKind.of? type = some kind := by
  cases found : ValueKind.of? type with
  | some kind => exact ⟨kind, rfl⟩
  | none => exact absurd (ValueKind.ofNoneIff.mp found) solid

namespace Program

structure Sane (p : Program NodeId) : Prop where
  unique : p.tags.Nodup
  allowed : ∀ m ∈ p.methods, ∀ i d, (i, d) ∈ bodyPlaced p.annotated m → d.Allowed p.annotated i
  valued : ∀ m ∈ p.methods, ∀ param ∈ m.params, param.type.isValue = true

namespace Sane
variable {p : Program NodeId}

theorem lawful (sane : p.Sane) : p.Lawful p.annotated := fun m member i d placed =>
  ⟨(sane.allowed m member i d placed).free, (sane.allowed m member i d placed).single⟩

theorem typed (sane : p.Sane) {i : Nat} {x : String} {v : Variable}
    (found : p.annotated.scopes.symbol? i x = some (.var v)) :
    (∃ type, v.type = some type ∧ type.isValue = true) ∨ x = selfName ∧ v.type = some .self := by
  cases origin sane.unique found with
  | object _ name type _ => exact .inr ⟨name, type⟩
  | @param m q _ method _ member _ _ type =>
    exact .inl ⟨q.type, type, sane.valued m method q member⟩
  | @declared m d _ method member _ _ type =>
    obtain ⟨known, recorded, value⟩ := (sane.allowed m method i d member).typed
    exact .inl ⟨known, type.symm.trans recorded, value⟩

theorem solid (sane : p.Sane) {q : Progress} (marks : q.scopes.blank = p.annotated.scopes.blank)
    {id : Nat} {x : String} {type : DataType} (known : q.types id x = some type) :
    type ≠ .void := by
  obtain ⟨home, v, _, same, symbol⟩ := found marks known
  rcases sane.typed symbol with ⟨other, here, value⟩ | ⟨_, object⟩
  · rw [same] at here
    cases here
    exact (DataType.isValueIff.mp value).1
  · rw [same] at object
    cases object
    simp

theorem agrees (sane : p.Sane) {q : Progress} (marks : q.scopes.blank = p.annotated.scopes.blank)
    (id : Nat) : p.annotated.Agrees p q.reached id (q.types id) where
  types := names sane.unique sane.lawful marks id
  solid x type known := sane.solid marks known
  params m returns params uses := by
    obtain ⟨method, member, same⟩ := annotatedUses uses
    cases same
    intro void
    obtain ⟨param, given, type⟩ := List.mem_map.mp void
    have value := sane.valued method member param given
    simp [type, DataType.isValue] at value

theorem holds (sane : p.Sane) {a b : Analysis} {q : Progress} {id : Nat} (alike : b.Alike p.annotated)
    (marks : q.scopes.blank = p.annotated.scopes.blank)
    (settled : p.annotated.Settled p q.reached id a) : ∃ self, b.Holds id (q.types id) self := by
  -- The kind of the object is that of whatever the code finds under its name.
  let self : ValueKind := ((b.scopes.lookup id selfName).bind Symbol.type?).elim .reference
    fun type => (ValueKind.of? type).getD .reference
  refine ⟨self, fun x type known => ?_⟩
  obtain ⟨home, v, there, same, symbol⟩ := found marks known
  have solid := sane.solid marks known
  rcases settled.final sane.unique sane.lawful there with seen | ⟨root, w, nearer, facts⟩
  · obtain ⟨marked, slot⟩ := ScopeTree.lookupVariable alike.marks.symm seen
    obtain ⟨kind, kinds⟩ := ValueKind.ofSome solid
    refine ⟨_, type, kind, slot, same, kinds, ?_⟩
    by_cases object : type = .self
    · subst object
      rcases sane.typed symbol with ⟨other, here, value⟩ | ⟨name, _⟩
      · rw [same] at here
        cases here
        simp [DataType.isValue] at value
      · subst name
        simp [ValueKind.carrier, self, slot, Symbol.type?, same, kinds]
    · simp [ValueKind.carrier, object, kinds]
  · obtain ⟨m, method, i, d, placed, _, _, recorded⟩ := facts
    obtain ⟨other, typed, value⟩ := (sane.allowed m method i d placed).typed
    obtain ⟨marked, slot⟩ := ScopeTree.lookupVariable alike.marks.symm nearer
    obtain ⟨kind, kinds⟩ := ValueKind.ofSome (DataType.isValueIff.mp value).1
    have kept : w.type = some other := recorded.symm.trans typed
    refine ⟨_, other, kind, slot, kept, kinds, ?_⟩
    cases origin sane.unique symbol with
    | object _ name objectType _ =>
      rw [same] at objectType
      cases objectType
      subst name
      simp [ValueKind.carrier, self, slot, Symbol.type?, kept, kinds]
    | param inner => exact absurd root inner
    | declared inner => exact absurd root inner

end Sane
end Program

structure Program.Stage (p : Program NodeId) (limit : Nat) (q : Progress) (id : Nat) (a : Analysis) :
    Prop extends p.Place limit q id a where
  empty : a.depth id = 0

section
variable {p : Program NodeId} {b : Analysis} {limit : Nat}

theorem Analysis.Alike.typeOf (alike : b.Alike p.annotated) : b.typeOf? = p.annotated.typeOf? := by
  funext n
  rw [Analysis.typeOf?, Analysis.typeOf?, alike.types]

theorem Program.Sane.fits (sane : p.Sane) (alike : b.Alike p.annotated) {q : Progress} {id : Nat}
    {a : Analysis} {e : Expr NodeId} {type : DataType}
    (marks : q.scopes.blank = p.annotated.scopes.blank)
    (settled : p.annotated.Settled p q.reached id a)
    (typed : e.HasType p.annotated.methods.uses (q.types id) type)
    (recorded : e.Recorded p.annotated.typeOf?
      (Expr.HasType p.annotated.methods.uses (q.types id))) : e.Fits b id type := by
  obtain ⟨self, holds⟩ := sane.holds alike marks settled
  refine ⟨q.types id, self, ?_, ?_, holds⟩
  · rwa [alike.methods]
  · rwa [alike.methods, alike.typeOf]

theorem Expr.passesFits (sane : p.Sane) (alike : b.Alike p.annotated) {q r : Progress} {id : Nat}
    {a : Analysis} {e : Expr NodeId} {type : DataType}
    (marks : q.scopes.blank = p.annotated.scopes.blank) (within : a.Within p q.reached)
    (run : e.Run p.annotated q.reached id a)
    (passes : e.Passes p.annotated id q type r) :
    e.Fits b id type ∧ (e.annotate id a).1 = some type ∧ e.Counted id a type := by
  have agrees := sane.agrees marks id
  exact ⟨sane.fits alike marks (run.settled within) passes.typed
      (e.annotateRecorded agrees.types run within passes.typed),
    e.annotateTyped agrees.types run within passes.typed,
    e.annotateCounted agrees run within passes.typed⟩

theorem Expr.conditionFits (sane : p.Sane) (alike : b.Alike p.annotated) {q r : Progress} {id : Nat}
    {a : Analysis} {e : Expr NodeId} (stage : p.Stage limit q id a)
    (run : e.Run p.annotated q.reached id a)
    (passes : e.Passes p.annotated id q .bool r) :
    e.Fits b id .bool ∧ p.Stage limit r id ((e.annotate id a).2.pop id 1) ∧
      ((e.annotate id a).2.pop id 1).peak id = max (a.peak id) e.need := by
  obtain ⟨fits, _, counted⟩ := Expr.passesFits sane alike stage.marks stage.within run passes
  have inside : id < (e.annotate id a).2.scopes.size := by
    simpa [Expr.annotateSize] using run.inside
  have depth := counted.value rfl
  have peak := counted.peak
  rw [stage.empty] at depth peak
  refine ⟨fits, ⟨stage.tested passes, ?_⟩, ?_⟩
  · rw [Analysis.depthPop inside, depth]
  · rw [Analysis.peakPop, peak, Nat.zero_add]

theorem Expr.droppedPlain {e : Expr NodeId} (plain : ∀ m target value, e ≠ .assign m target value)
    (id : Nat) (n : NodeId) (a : Analysis) :
    e.annotateDropped id n a =
      match (e.annotate id a).1 with
      | none => (e.annotate id a).2
      | some .void => (e.annotate id a).2.setType n (some .void)
      | some type => ((e.annotate id a).2.pop id 1).setType n (some type) := by
  cases e with
  | assign m target value => exact absurd rfl (plain m target value)
  | _ => rfl

theorem Stmt.exprTags (n : NodeId) (e : Expr NodeId) (span : Span) :
    (Stmt.expr n e span).tags = n :: e.tags := by
  simp [Stmt.tags, Stmt.nodes, Expr.tags]

theorem Stmt.exprPart {n : NodeId} {e : Expr NodeId} {span : Span} :
    e.tags.Sublist (Stmt.expr n e span).tags := by
  rw [Stmt.exprTags]
  exact List.sublist_cons_self _ _

theorem Stmt.Run.assignment {F a : Analysis} {kept : List NodeId} {id : Nat} {n m k : NodeId}
    {x : String} {place span : Span} {value : Expr NodeId}
    (run : (Stmt.expr n (.assign m (.var k x place) value) span).Run F kept id a) :
    Analysis.Segment F kept (Stmt.expr n (.assign m (.var k x place) value) span).tags a
      (a.annotateAssign id m false (.var k x place) (fun a => (Expr.var k x place).annotate id a)
        fun a => value.annotate id a).2 :=
  run.toSegment

theorem Stmt.Run.assigned {F a : Analysis} {kept : List NodeId} {id : Nat} {n m k : NodeId}
    {x : String} {place span : Span} {value : Expr NodeId}
    (run : (Stmt.expr n (.assign m (.var k x place) value) span).Run F kept id a) :
    value.Run F kept id a :=
  Expr.assignRun run.assignment run.inside Stmt.exprPart

theorem Stmt.Run.plain {F a : Analysis} {kept : List NodeId} {id : Nat} {n : NodeId}
    {e : Expr NodeId} {span : Span} (run : (Stmt.expr n e span).Run F kept id a)
    (plain : ∀ m target value, e ≠ .assign m target value) : e.Run F kept id a where
  toSegment := by
    have unique := run.unique
    rw [Stmt.exprTags, List.nodup_cons] at unique
    have post : (e.annotate id a).2.Walks id [] [n] ((Stmt.expr n e span).annotate id a) := by
      simp only [Stmt.annotate, Expr.droppedPlain plain]
      split
      · exact (Analysis.Walks.refl _ id).mono (by simp) (by simp)
      · exact Analysis.Walks.setType _ id n _
      · exact (Analysis.Walks.pop _ id 1).trans (Analysis.Walks.setType _ id n _)
    refine run.toSegment.inner (Analysis.Walks.refl a id).toLeads post run.inside Stmt.exprPart ?_ ?_
    · simp [Stmt.exprTags]
    · intro k member
      simp only [List.not_mem_nil, not_false_eq_true, List.nil_append, List.mem_singleton, true_and]
      rintro rfl
      exact unique.1 member
  inside := run.inside

theorem Stmt.assignFits (sane : p.Sane) (alike : b.Alike p.annotated) {q r : Progress} {id : Nat}
    {a : Analysis} {n m : NodeId} {target value : Expr NodeId} {span : Span} {type : DataType}
    (stage : p.Stage limit q id a)
    (run : (Stmt.expr n (.assign m target value) span).Run p.annotated q.reached id a)
    (passes : (Expr.assign m target value).Passes p.annotated id q type r) :
    (Expr.assign m target value).Fits b id type ∧
      ((Stmt.expr n (.assign m target value) span).annotate id a).depth id = 0 ∧
      ((Stmt.expr n (.assign m target value) span).annotate id a).peak id =
        max (a.peak id) value.need := by
  have agrees := sane.agrees stage.marks id
  have typed := passes.typed
  cases passes.typed with
  | @assign _ k x place _ _ known assigned =>
    have valueRun := run.assigned
    have counted := value.annotateCounted agrees valueRun stage.within assigned
    have depth := counted.depth
    have peak := counted.peak
    rw [DataType.widthOne (agrees.solid x type known), stage.empty] at depth
    rw [stage.empty] at peak
    have inside : id < ((value.annotate id a).2.setType k
        ((value.annotate id a).2.nameType? id x)).scopes.size := by
      simpa [Expr.annotateSize] using run.inside
    have walked : (Stmt.expr n (.assign m (.var k x place) value) span).annotate id a =
        (((value.annotate id a).2.setType k
          ((value.annotate id a).2.nameType? id x)).pop id 1).setType m (value.annotate id a).1 :=
      rfl
    refine ⟨sane.fits alike stage.marks (valueRun.settled stage.within) typed
      (value.annotateRecorded agrees.types valueRun stage.within assigned), ?_, ?_⟩
    · rw [walked, Analysis.depthSetType, Analysis.depthPop inside, Analysis.depthSetType, depth]
    · rw [walked, Analysis.peakSetType, Analysis.peakPop, Analysis.peakSetType, peak, Nat.zero_add]

theorem Stmt.exprFits (sane : p.Sane) (alike : b.Alike p.annotated) {q r : Progress} {id : Nat}
    {a : Analysis} {n : NodeId} {e : Expr NodeId} {span : Span} {type returns : DataType}
    (stage : p.Stage limit q id a)
    (run : (Stmt.expr n e span).Run p.annotated q.reached id a)
    (passes : e.Passes p.annotated id q type r) :
    Stmt.Fits b returns id (.expr n e span) ∧
      ((Stmt.expr n e span).annotate id a).depth id = 0 ∧
      ((Stmt.expr n e span).annotate id a).peak id = max (a.peak id) (Stmt.expr n e span).need := by
  by_cases assigns : ∃ m target value, e = .assign m target value
  · obtain ⟨m, target, value, rfl⟩ := assigns
    obtain ⟨fits, depth, peak⟩ := Stmt.assignFits sane alike stage run passes
    exact ⟨.expr fits (.inl ⟨m, target, value, rfl⟩), depth, peak⟩
  · have plain : ∀ m target value, e ≠ .assign m target value :=
      fun m target value same => assigns ⟨m, target, value, same⟩
    have inner := run.plain plain
    obtain ⟨fits, result, counted⟩ :=
      Expr.passesFits sane alike stage.marks stage.within inner passes
    have inside : id < (e.annotate id a).2.scopes.size := by
      simpa [Expr.annotateSize] using run.inside
    have member : n ∈ (Stmt.expr n e span).tags := by simp [Stmt.tags, Stmt.nodes]
    have recorded := run.ahead.type (List.mem_append_left _ member)
    have depth := counted.depth
    have peak := counted.peak
    rw [stage.empty] at depth peak
    have need : (Stmt.expr n e span).need = e.need := by
      cases e with
      | assign m target value => exact absurd rfl (plain m target value)
      | _ => rfl
    simp only [Stmt.annotate, Expr.droppedPlain plain, result] at recorded ⊢
    rw [need]
    by_cases void : type = .void
    · subst void
      dsimp only at recorded ⊢
      rw [Analysis.typeOfSetType, if_pos rfl] at recorded
      refine ⟨.expr fits (.inr (by rw [alike.typeOf]; exact recorded)), ?_, ?_⟩
      · rw [Analysis.depthSetType, depth]
        rfl
      · rw [Analysis.peakSetType, peak, Nat.zero_add]
    · rw [DataType.widthOne void] at depth
      have taken : (match some type with
          | none => (e.annotate id a).2
          | some .void => (e.annotate id a).2.setType n (some .void)
          | some type => ((e.annotate id a).2.pop id 1).setType n (some type)) =
            ((e.annotate id a).2.pop id 1).setType n (some type) := by
        cases type <;> first | rfl | contradiction
      rw [taken] at recorded ⊢
      rw [Analysis.typeOfSetType, if_pos rfl] at recorded
      refine ⟨.expr fits (.inr (by rw [alike.typeOf]; exact recorded)), ?_, ?_⟩
      · rw [Analysis.depthSetType, Analysis.depthPop inside, depth]
      · rw [Analysis.peakSetType, Analysis.peakPop, peak, Nat.zero_add]

theorem Stmt.retFits (sane : p.Sane) (alike : b.Alike p.annotated) {q r : Progress} {id : Nat}
    {a : Analysis} {n : NodeId} {e : Expr NodeId} {span : Span} {type returns : DataType}
    (stage : p.Stage limit q id a)
    (run : (Stmt.ret n (some e) span).Run p.annotated q.reached id a)
    (passes : e.Passes p.annotated id q type r)
    (agrees : ∀ found, p.annotated.typeOf? n = some found → found = returns) :
    Stmt.Fits b returns id (.ret n (some e) span) ∧
      ((Stmt.ret n (some e) span).annotate id a).depth id = 0 ∧
      ((Stmt.ret n (some e) span).annotate id a).peak id = max (a.peak id) e.need := by
  obtain ⟨fits, result, counted⟩ :=
    Expr.passesFits sane alike stage.marks stage.within run.ret passes
  have inside : id < (e.annotate id a).2.scopes.size := by
    simpa [Expr.annotateSize] using run.inside
  have noted := run.returned result
  have depth := counted.depth
  have peak := counted.peak
  rw [stage.empty] at depth peak
  have marked (c : Analysis) : (c.mapScopes fun t => t.markReturn id).depth id = c.depth id ∧
      (c.mapScopes fun t => t.markReturn id).peak id = c.peak id := by
    simp only [Analysis.depth, Analysis.peak, Analysis.mapScopes, ScopeTree.markReturn,
      ScopeTree.scopeModify]
    constructor <;> split <;> rfl
  obtain rfl := agrees type noted
  simp only [Stmt.annotate, result]
  refine ⟨.ret fits (by rw [alike.typeOf]; exact noted), ?_, ?_⟩
  · have room := type.widthLe
    rw [(marked _).1, Analysis.depthSetType, Analysis.depthPop inside]
    omega
  · rw [(marked _).2, Analysis.peakSetType, Analysis.peakPop, peak, Nat.zero_add]

theorem Stmt.leaveFits (alike : b.Alike p.annotated) {q : Progress} {id : Nat} {a : Analysis}
    {n : NodeId} {span : Span} {returns : DataType} (stage : p.Stage limit q id a)
    (run : (Stmt.ret n none span).Run p.annotated q.reached id a)
    (agrees : ∀ found, p.annotated.typeOf? n = some found → found = returns) :
    Stmt.Fits b returns id (.ret n none span) ∧
      ((Stmt.ret n none span).annotate id a).depth id = 0 ∧
      ((Stmt.ret n none span).annotate id a).peak id = max (a.peak id) 0 := by
  have noted := run.left
  refine ⟨.leave (agrees .void noted).symm (by rw [alike.typeOf]; exact noted), ?_, ?_⟩
  · rw [← stage.empty]
    simp only [Stmt.annotate, Analysis.depth, Analysis.mapScopes, ScopeTree.markReturn,
      ScopeTree.scopeModify, Analysis.setTypeScopes]
    split <;> rfl
  · rw [Nat.max_zero]
    simp only [Stmt.annotate, Analysis.peak, Analysis.mapScopes, ScopeTree.markReturn,
      ScopeTree.scopeModify, Analysis.setTypeScopes]
    split <;> rfl

theorem ScopeTree.lookupOwn {t : ScopeTree} (ordered : t.Ordered) {id : Nat} {x : String} {s : Symbol}
    (found : t.symbol? id x = some s) : t.lookup id x = some s := by
  cases parent : (t.scope id).parent with
  | none => rw [ScopeTree.lookupTop parent, found]
  | some out =>
    rw [ScopeTree.lookupChild ordered parent, found]
    rfl

theorem Declarator.passesFits (sane : p.Sane) (alike : b.Alike p.annotated) {q r : Progress}
    {id : Nat} {a : Analysis} {d : Declarator NodeId} {type : Option DataType}
    (stage : p.Stage limit q id a)
    (run : d.Run p.annotated q.reached type id a)
    (passes : d.Passes p.annotated type id q r) :
    d.Fits b id ∧ p.Stage limit r id (d.annotate type id a) ∧
      (d.annotate type id a).peak id = max (a.peak id) d.need := by
  have after := stage.declared run passes
  have declared (c : Analysis) (known : Option DataType) (ready : Bool) :
      ((c.mapScopes fun t => t.declareVariable id d.name known ready d.tag).setType d.tag
        known).depth id = c.depth id ∧
      ((c.mapScopes fun t => t.declareVariable id d.name known ready d.tag).setType d.tag
        known).peak id = c.peak id := by
    rw [Analysis.depthSetType, Analysis.peakSetType]
    simp only [Analysis.depth, Analysis.peak, Analysis.mapScopes, ScopeTree.declareVariable,
      ScopeTree.scopeModify]
    constructor <;> split <;> rfl
  cases passes with
  | bare allowed missing =>
    refine ⟨.bare missing, ⟨after, ?_⟩, ?_⟩
    · rw [Declarator.annotateBare missing, (declared a type false).1, stage.empty]
    · rw [Declarator.annotateBare missing, (declared a type false).2]
      simp [Declarator.need, missing]
  | @initial e found _ allowed given passes agrees =>
    have inner := run.init given
    obtain ⟨fits, result, counted⟩ :=
      Expr.passesFits sane alike stage.marks stage.within inner passes
    have inside : id < (e.annotate id a).2.scopes.size := by
      simpa [Expr.annotateSize] using run.inside
    have varType : type.or (e.annotate id a).1 = some found := by
      rw [result, Declarator.typeAgreed agrees]
    have walked := Declarator.annotateInitial given varType
    obtain ⟨recorded, _, symbol⟩ := run.initialSymbol given varType
    have ordered := (inner.settled stage.within).ordered
    obtain ⟨marked, slot⟩ := ScopeTree.lookupVariable alike.marks.symm
      (ScopeTree.lookupOwn ordered (run.final stage.inner allowed.single symbol))
    have value : found.isValue = true := by
      obtain ⟨known, typed, value⟩ := allowed.typed
      rw [recorded] at typed
      cases typed
      exact value
    have depth := counted.value value
    have peak := counted.peak
    rw [stage.empty] at depth peak
    refine ⟨.initial given fits value slot rfl, ⟨after, ?_⟩, ?_⟩
    · rw [walked, (declared _ _ _).1, Analysis.depthPop inside, depth]
    · rw [walked, (declared _ _ _).2, Analysis.peakPop, peak, Nat.zero_add]
      simp [Declarator.need, given]

theorem Declarator.passAllFits (sane : p.Sane) (alike : b.Alike p.annotated) {r : Progress} {id : Nat}
    {type : Option DataType} {ds : List (Declarator NodeId)} {q : Progress} {a : Analysis}
    (stage : p.Stage limit q id a)
    (run : Declarator.RunAll p.annotated q.reached type id ds a)
    (passes : Declarator.PassAll p.annotated type id q ds r) :
    (∀ d ∈ ds, d.Fits b id) ∧ p.Stage limit r id (Declarator.annotateAll type id ds a) ∧
      (Declarator.annotateAll type id ds a).peak id = max (a.peak id) (Declarator.needAll ds) := by
  induction passes generalizing a with
  | nil => exact ⟨by simp, stage, by simp [Declarator.annotateAll, Declarator.needAll]⟩
  | @cons q d m rest r first others ih =>
    obtain ⟨here, later⟩ := run.cons
    obtain ⟨fits, middle, peak⟩ := Declarator.passesFits sane alike stage here first
    obtain ⟨all, last, top⟩ := ih middle
      ⟨later.toSegment.keep (Declarator.reachedTags first), later.inside⟩
    refine ⟨fun other member => ?_, last, ?_⟩
    · rcases List.mem_cons.mp member with rfl | inside
      · exact fits
      · exact all other inside
    · rw [Declarator.annotateAll, top, peak, Declarator.needAll, Nat.max_assoc]

theorem Analysis.inScopeCounters {a : Analysis} (inside : Nat → Analysis → Analysis) {id : Nat}
    {n : NodeId} {fresh passed : List NodeId} (inRange : id < a.scopes.size)
    (inner : (a.entered id n).Walks a.scopes.size fresh passed
      (inside a.scopes.size (a.entered id n))) :
    (a.inScope id n inside).depth id = a.depth id ∧
      (a.inScope id n inside).peak id =
        max (a.peak id) ((inside a.scopes.size (a.entered id n)).peak a.scopes.size) := by
  simp only [depth, peak, a.inScopeRaised inside inRange inner, Scope.raise, and_self]

theorem Program.Stage.entered {q : Progress} {id : Nat} {a : Analysis} (stage : p.Stage limit q id a)
    (n : NodeId) (inside : id < a.scopes.size) (room : (a.entered id n).scopes.size ≤ limit) :
    p.Stage limit q a.scopes.size (a.entered id n) ∧
      (a.entered id n).peak a.scopes.size = a.peak id := by
  refine ⟨⟨stage.toPlace.entered n inside room, ?_⟩, ?_⟩
  · rw [Analysis.depth, Analysis.enteredNew]
  · rw [Analysis.peak, Analysis.enteredNew]
    exact if_neg stage.inner

theorem Stmt.conditionalFits (sane : p.Sane) (alike : b.Alike p.annotated) {id : Nat} {a : Analysis}
    {n : NodeId} {cond : Expr NodeId} {body : Stmt NodeId} {returns : DataType}
    {q m : Progress} (stage : p.Stage limit q id a) (inside : id < a.scopes.size)
    (condRun : cond.Run p.annotated q.reached a.scopes.size (a.entered id n))
    (bodyRun : body.Run p.annotated q.reached a.scopes.size
      ((cond.annotate a.scopes.size (a.entered id n)).2.pop a.scopes.size 1))
    (room : (a.inScope id n fun inner a =>
      body.annotate inner ((cond.annotate inner a).2.pop inner 1)).scopes.size ≤ limit)
    (condition : cond.Passes p.annotated a.scopes.size q .bool m)
    (rest : ∀ {c : Analysis}, p.Stage limit m a.scopes.size c →
      body.Run p.annotated m.reached a.scopes.size c →
      (body.annotate a.scopes.size c).scopes.size ≤ limit →
        Stmt.Fits b returns a.scopes.size body ∧ (body.annotate a.scopes.size c).depth a.scopes.size = 0 ∧
          (body.annotate a.scopes.size c).peak a.scopes.size =
            max (c.peak a.scopes.size) body.need) :
    cond.Fits b a.scopes.size .bool ∧ Stmt.Fits b returns a.scopes.size body ∧
      (a.inScope id n fun inner a =>
        body.annotate inner ((cond.annotate inner a).2.pop inner 1)).depth id = 0 ∧
      (a.inScope id n fun inner a =>
        body.annotate inner ((cond.annotate inner a).2.pop inner 1)).peak id =
          max (a.peak id) (max cond.need body.need) := by
  have walks := (cond.conditionWalks a.scopes.size (a.entered id n)).trans
    (body.annotateWalks a.scopes.size _ bodyRun.inside)
  rw [Analysis.inScopeSize] at room
  obtain ⟨start, top⟩ := stage.entered n inside (Nat.le_trans walks.size room)
  obtain ⟨fits, middle, peak⟩ := Expr.conditionFits sane alike start condRun condition
  obtain ⟨inner, _, bodyPeak⟩ :=
    rest middle (by rw [condition.onward.reached]; exact bodyRun) room
  obtain ⟨depth, around⟩ := Analysis.inScopeCounters
    (fun inner a => body.annotate inner ((cond.annotate inner a).2.pop inner 1)) inside walks
  refine ⟨fits, inner, depth.trans stage.empty, ?_⟩
  rw [around, bodyPeak, peak, top]
  omega

mutual

/-- The finished analysis fits a statement that passes the check, and the counter has returned to
the empty stack by way of the stack that the statement needs. -/
theorem Stmt.passesFits (sane : p.Sane) (alike : b.Alike p.annotated) : ∀ (s : Stmt NodeId)
    {returns : DataType} {id : Nat} {q r : Progress} {a : Analysis}, p.Stage limit q id a →
      s.Run p.annotated q.reached id a → (s.annotate id a).scopes.size ≤ limit →
      Stmt.Passes p.annotated returns id q s r →
        Stmt.Fits b returns id s ∧ (s.annotate id a).depth id = 0 ∧
          (s.annotate id a).peak id = max (a.peak id) s.need
  | .expr n e span, _, id, q, r, a, stage, run, room, passes => by
    cases passes with
    | expr passes => exact Stmt.exprFits sane alike stage run passes
  | .declare n type vars span, _, id, q, r, a, stage, run, room, passes => by
    cases passes with
    | declare passes =>
      obtain ⟨fits, after, peak⟩ := Declarator.passAllFits sane alike stage run.declare passes
      exact ⟨.declare fits, after.empty, peak⟩
  | .ret n (some e) span, _, id, q, r, a, stage, run, room, passes => by
    cases passes with
    | ret passes agrees => exact Stmt.retFits sane alike stage run passes agrees
  | .ret n none span, _, id, q, r, a, stage, run, room, passes => by
    cases passes with
    | leave agrees => exact Stmt.leaveFits alike stage run agrees
  | .block n body span, _, id, q, r, a, stage, run, room, passes => by
    cases passes with
    | block scope passes =>
      obtain ⟨bound, inner⟩ := run.block
      obtain rfl : a.scopes.size = _ := by simpa [bound] using scope
      have walks := Stmt.annotateAllWalks body a.scopes.size (a.entered id n) inner.inside
      rw [Stmt.annotate, Analysis.inScopeSize] at room
      obtain ⟨start, top⟩ := stage.entered n run.inside (Nat.le_trans walks.size room)
      obtain ⟨fits, peak⟩ := Stmt.passAllFits sane alike body start inner room passes
      obtain ⟨depth, around⟩ := Analysis.inScopeCounters
        (fun inner a => Stmt.annotateAll body inner a) run.inside walks
      refine ⟨.block (by rw [alike.scopeIds]; exact scope) fits, ?_, ?_⟩
      · rw [Stmt.annotate, depth, stage.empty]
      · rw [Stmt.annotate, around, peak, top, Stmt.need]
        omega
  | .ifThen n cond yes span, _, id, q, r, a, stage, run, room, passes => by
    cases passes with
    | ifThen scope condition passes =>
      obtain ⟨bound, condRun, inner⟩ := run.ifThen
      obtain rfl : a.scopes.size = _ := by simpa [bound] using scope
      obtain ⟨fits, body, depth, peak⟩ := Stmt.conditionalFits sane alike stage run.inside condRun
        inner room condition
        fun middle within fits => yes.passesFits sane alike middle within fits passes
      exact ⟨.ifThen (by rw [alike.scopeIds]; exact scope) fits body, depth, peak⟩
  | .ifElse n cond yes m no span, _, id, q, r, a, stage, run, room, passes => by
    cases passes with
    | ifElse scope condition passes beside otherwise =>
      obtain ⟨before, inside, other, noRun⟩ := run.ifElse
      obtain ⟨bound, condRun, inner⟩ := before.ifThen
      obtain rfl : a.scopes.size = _ := by simpa [bound] using scope
      have walks := no.annotateWalks _ (Analysis.entered _ id m) noRun.inside
      obtain ⟨earlier, entered, room⟩ := Stmt.elseRoom room
      obtain ⟨fits, body, empty, peak⟩ := Stmt.conditionalFits sane alike stage run.inside condRun
        inner earlier condition
        fun middle within fits => yes.passesFits sane alike middle within fits passes
      have passed : Stmt.Passes p.annotated _ id q (.ifThen n cond yes span) _ :=
        .ifThen scope condition passes
      have middle : p.Stage limit _ id _ := ⟨stage.after before passed earlier, empty⟩
      obtain rfl : ((Stmt.ifThen n cond yes span).annotate id a).scopes.size = _ := by
        simpa [other] using beside
      obtain ⟨start, top⟩ := middle.entered m inside entered
      obtain ⟨no', _, noPeak⟩ := no.passesFits sane alike start
        ⟨noRun.toSegment.keep (Stmt.reachedTags passed), noRun.inside⟩ room otherwise
      obtain ⟨depth, around⟩ := Analysis.inScopeCounters (fun inner a => no.annotate inner a) inside
        walks
      refine ⟨.ifElse (by rw [alike.scopeIds]; exact scope) fits body
        (by rw [alike.scopeIds]; exact beside) no', depth.trans middle.empty, ?_⟩
      have peak' : ((Stmt.ifThen n cond yes span).annotate id a).peak id =
          max (a.peak id) (max cond.need yes.need) := peak
      have outer : ((Stmt.ifElse n cond yes m no span).annotate id a).peak id = _ := around
      rw [outer, noPeak, top, peak', Stmt.need]
      omega
  | .loop n cond body span, _, id, q, r, a, stage, run, room, passes => by
    cases passes with
    | loop scope condition passes =>
      obtain ⟨bound, condRun, inner⟩ := run.loop
      obtain rfl : a.scopes.size = _ := by simpa [bound] using scope
      obtain ⟨fits, inside, depth, peak⟩ := Stmt.conditionalFits sane alike stage run.inside condRun
        inner room condition
        fun middle within fits => body.passesFits sane alike middle within fits passes
      exact ⟨.loop (by rw [alike.scopeIds]; exact scope) fits inside, depth, peak⟩

theorem Stmt.passAllFits (sane : p.Sane) (alike : b.Alike p.annotated) : ∀ (ss : List (Stmt NodeId))
    {returns : DataType} {id : Nat} {q r : Progress} {a : Analysis}, p.Stage limit q id a →
      Stmt.RunAll p.annotated q.reached id ss a →
      (Stmt.annotateAll ss id a).scopes.size ≤ limit →
      Stmt.PassAll p.annotated returns id q ss r →
        Stmt.FitAll b returns id ss ∧
          (Stmt.annotateAll ss id a).peak id = max (a.peak id) (Stmt.needAll ss)
  | [], _, id, q, r, a, stage, run, room, passes => by
    cases passes
    exact ⟨.nil, by simp [Stmt.annotateAll, Stmt.needAll]⟩
  | s :: rest, _, id, q, r, a, stage, run, room, passes => by
    cases passes with
    | cons first others =>
      obtain ⟨here, later⟩ := run.cons
      have middle : (s.annotate id a).scopes.size ≤ limit :=
        Nat.le_trans (Stmt.annotateAllWalks rest id _ later.inside).size room
      obtain ⟨fits, empty, peak⟩ := s.passesFits sane alike stage here middle first
      obtain ⟨all, top⟩ := Stmt.passAllFits sane alike rest
        ⟨stage.after here first middle, empty⟩
        ⟨later.toSegment.keep (Stmt.reachedTags first), later.inside⟩ room others
      exact ⟨.cons fits all, by rw [Stmt.annotateAll, top, peak, Stmt.needAll, Nat.max_assoc]⟩

end

theorem Param.annotateAllPeak (id : Nat) (ps : List (Param NodeId)) (a : Analysis) :
    (Param.annotateAll id ps a).peak id = a.peak id := by
  induction ps generalizing a with
  | nil => rfl
  | cons param rest ih =>
    refine (ih _).trans ?_
    simp only [Analysis.peak, Analysis.mapScopes, ScopeTree.declareVariable, ScopeTree.scopeModify]
    split <;> rfl

theorem Program.Between.stage {done rest : List (Method NodeId)} {m : Method NodeId} {q : Progress}
    {a : Analysis} {kept : List NodeId} (between : p.Between done q a)
    (all : p.methods = done ++ m :: rest) (run : Method.RunAll p.annotated kept (m :: rest) a) :
    p.Stage (m.annotate a).scopes.size (q.receive m.params) (Method.opened a m).scopes.size
        ((Method.opened a m).entered a.scopes.size m.body.tag) ∧
      ((Method.opened a m).entered a.scopes.size m.body.tag).peak (Method.opened a m).scopes.size =
        0 := by
  have top : (Method.opened a m).peak a.scopes.size = 0 := by
    rw [Method.opened, Param.annotateAllPeak, Analysis.peak, Analysis.enteredNew]
    rfl
  refine ⟨⟨between.place all run, ?_⟩, ?_⟩
  · rw [Analysis.depth, Analysis.enteredNew]
  · rw [Analysis.peak, Analysis.enteredNew]
    dsimp only
    split
    · rfl
    · exact top

theorem Method.annotatePeak {a : Analysis} (m : Method NodeId) (rooted : ScopeTree.root < a.scopes.size) :
    (m.annotate a).peak a.scopes.size =
      max ((Method.opened a m).peak a.scopes.size) ((Stmt.annotateAll m.body.stmts
        (Method.opened a m).scopes.size ((Method.opened a m).entered a.scopes.size
          m.body.tag)).peak (Method.opened a m).scopes.size) := by
  have params := Param.annotateAllWalks a.scopes.size m.params (a.entered ScopeTree.root m.tag)
  have within : a.scopes.size < (Method.opened a m).scopes.size :=
    Nat.lt_of_lt_of_le (a.enteredIn ScopeTree.root m.tag) params.size
  have body := Stmt.annotateAllWalks m.body.stmts _ _
    ((Method.opened a m).enteredIn a.scopes.size m.body.tag)
  have whole := params.trans ((Method.opened a m).inScopeWalks
    (fun inner a => Stmt.annotateAll m.body.stmts inner a) within body)
  have parent : ((m.body.annotate a.scopes.size (Method.opened a m)).scopes.scope
      a.scopes.size).parent = some ScopeTree.root :=
    (whole.scope _ (a.enteredIn ScopeTree.root m.tag)).parent.trans (by rw [Analysis.enteredNew])
  obtain ⟨_, around⟩ := Analysis.inScopeCounters
    (fun inner a => Stmt.annotateAll m.body.stmts inner a) within body
  have left : (m.annotate a).scopes.scope a.scopes.size =
      (m.body.annotate a.scopes.size (Method.opened a m)).scopes.scope a.scopes.size := by
    refine (Analysis.Walks.leave _ parent).only _ ?_ ?_
    · exact Nat.lt_of_lt_of_le (a.enteredIn ScopeTree.root m.tag) whole.size
    · exact Nat.ne_of_gt rooted
  rw [Analysis.peak, left]
  exact around

theorem ScopeTree.blankLimit {t u : ScopeTree} (same : t.blank = u.blank) (id : Nat) :
    (t.scope id).maxStack = (u.scope id).maxStack := by
  have both := congrArg (fun w : ScopeTree => (w.scope id).maxStack) same
  simpa only [ScopeTree.blankScope, Scope.blank] using both

theorem Method.passesFits (sane : p.Sane) (alike : b.Alike p.annotated)
    {done rest : List (Method NodeId)} {m : Method NodeId} {q r : Progress} {a : Analysis}
    {kept : List NodeId} (between : p.Between done q a) (all : p.methods = done ++ m :: rest)
    (run : Method.RunAll p.annotated kept (m :: rest) a) (covered : q.reached ⊆ kept)
    (passes : m.Passes p.annotated q r) : m.Fits b := by
  obtain ⟨here, later⟩ := run.cons
  obtain ⟨outer, within, bound, body⟩ := here.body
  obtain ⟨inner, scope, _, passed⟩ := passes.body
  obtain rfl : (Method.opened a m).scopes.size = inner := by simpa [bound] using scope
  obtain ⟨stage, start⟩ := between.stage all run
  obtain ⟨fits, peak⟩ := Stmt.passAllFits sane alike m.body.stmts stage
    ⟨body.toSegment.keep (m.received covered), body.inside⟩ (Nat.le_of_eq (m.annotateSize a).symm) passed
  refine ⟨a.scopes.size, _, by rw [alike.scopeIds]; exact outer, by rw [alike.scopeIds]; exact bound,
    fits, ?_⟩
  have last : p.annotated.scopes.scope a.scopes.size = (m.annotate a).scopes.scope a.scopes.size := by
    refine here.closed _ (Nat.le_refl _) ?_
    have := stage.room
    rw [Analysis.enteredSize] at this
    omega
  have top := m.annotatePeak run.rooted
  rw [peak, start] at top
  have params : (Method.opened a m).peak a.scopes.size = 0 := by
    rw [Method.opened, Param.annotateAllPeak, Analysis.peak, Analysis.enteredNew]
    rfl
  rw [ScopeTree.blankLimit alike.marks, last]
  exact top.trans (by rw [params]; omega)

theorem Method.passAllFits (sane : p.Sane) (alike : b.Alike p.annotated) {ms : List (Method NodeId)}
    {done : List (Method NodeId)} {q r : Progress} {a : Analysis} {kept : List NodeId}
    (between : p.Between done q a) (all : p.methods = done ++ ms)
    (run : Method.RunAll p.annotated kept ms a) (covered : q.reached ⊆ kept)
    (passes : Method.PassAll p.annotated q ms r) : ∀ m ∈ ms, m.Fits b := by
  induction passes generalizing done a kept with
  | nil => simp
  | @cons q m _ rest r first others ih =>
    have fits := Method.passesFits sane alike between all run covered first
    have following := ih (between.after run.cons.1 first) (by simp [all]) run.cons.2
      (first.reachedTags covered)
    intro other member
    rcases List.mem_cons.mp member with rfl | behind
    · exact fits
    · exact following other behind

namespace Program

theorem Clean.sane {q : Progress} (unique : p.tags.Nodup)
    (valued : ∀ m ∈ p.methods, ∀ param ∈ m.params, param.type.isValue = true) (clean : p.Clean q) :
    p.Sane where
  unique := unique
  valued := valued
  allowed := clean.allowed

theorem Clean.alike {q : Progress} (clean : p.Clean q) :
    Analysis.Alike { p.annotated with scopes := q.scopes, diagnostics := [] } p.annotated :=
  ⟨rfl, rfl, rfl, clean.methods.marks⟩

theorem analyzeFits (unique : p.tags.Nodup)
    (valued : ∀ m ∈ p.methods, ∀ param ∈ m.params, param.type.isValue = true) {a : Analysis}
    (done : p.analyze = .ok a) : a.methods = p.annotated.methods ∧ ∀ m ∈ p.methods, m.Fits a := by
  obtain ⟨q, clean, rfl⟩ := cleanOfAnalyze unique done
  have marks : q.scopes.blank = p.annotated.scopes.blank := clean.methods.marks
  have alike : Analysis.Alike { p.annotated with scopes := q.scopes, diagnostics := [] }
      p.annotated := ⟨rfl, rfl, rfl, marks⟩
  exact ⟨rfl, Method.passAllFits (clean.sane unique valued) alike p.between rfl
    (annotatedRuns unique) (List.Subset.refl _) clean.methods⟩

end Program
end
end ClassCompiler
