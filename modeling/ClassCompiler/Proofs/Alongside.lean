import ClassCompiler.Proofs.Resolution

/-! The first walk and the check at the same point of a program. Where all declared variables have
names of their own, the check finds the types that the first walk has found, and the declarations
that it has reached are those that the first walk has made. -/
namespace ClassCompiler

def Analysis.Names (F : Analysis) (p : Program NodeId) (reached : List NodeId) (id : Nat)
    (vars : String → Option DataType) : Prop :=
  ∀ a, F.Settled p reached id a → ∀ x type, vars x = some type → a.nameType? id x = some type

section
variable {F : Analysis} {p : Program NodeId} {reached : List NodeId} {id : Nat}
  {vars : String → Option DataType}

theorem Expr.Run.settled {a : Analysis} {e : Expr NodeId} (run : e.Run F reached id a)
    (within : a.Within p reached) : F.Settled p reached id a where
  inside := run.inside
  tidy := run.tidy
  ahead := by
    refine (run.ahead.mono (List.subset_append_right _ _)).lead (e.annotateWalks id a).toLeads ?_
    exact fun n member => ⟨by simp, fun here => run.apart n here member⟩
  within := within

theorem Expr.Run.uses {a : Analysis} {kept : List NodeId} {e : Expr NodeId}
    (run : e.Run F kept id a) : a.methods.uses = F.methods.uses := by
  obtain ⟨_, _, leads, _⟩ := run.ahead
  funext m
  simp only [MethodTable.uses, leads.found, (e.annotateWalks id a).found]

theorem Expr.annotateTyped (names : F.Names p reached id vars) : ∀ (e : Expr NodeId)
    {type : DataType} {a : Analysis}, e.Run F reached id a → a.Within p reached →
      e.HasType F.methods.uses vars type → (e.annotate id a).1 = some type
  | .literal .., _, _, _, _, typed | .not .., _, _, _, _, typed | .writeLine .., _, _, _, _, typed
  | .read .., _, _, _, _, typed | .random .., _, _, _, _, typed
  | .randomBelow .., _, _, _, _, typed => by
    cases typed
    rfl
  | .var n x span, type, a, run, within, typed => by
    cases typed with
    | var known => exact names a (run.settled within) x type known
  | .binary n op left right, _, a, run, within, typed => by
    cases typed with
    | binary first second admitted =>
      by_cases group : op.group = .logical
      · simp [Expr.annotateLogical group, BinaryOp.yields, group]
      · rw [Expr.annotateStrict group, left.annotateTyped names (run.strict group).1 within first]
        unfold BinaryOp.resultType BinaryOp.yields
        cases op.group <;> rfl
  | .assign n target value, type, a, run, within, typed => by
    cases typed with
    | assign known assigned =>
      exact value.annotateTyped names
        (Expr.assignRun run.toSegment run.inside (List.Sublist.refl _)) within assigned
  | .call n m args span, _, a, run, within, typed => by
    cases typed with
    | call found given =>
      have walked := ((Analysis.Walks.push a id 1).trans (Expr.annotateAllWalks id args _)).trans
        (Analysis.Walks.pop _ id (1 + args.length))
      rw [← run.uses] at found
      obtain ⟨s, declared, same⟩ := Option.map_eq_some_iff.mp found
      cases same
      simp only [Expr.annotate, Analysis.useMethod, walked.found, declared]

end

structure Program.Opened (p : Program NodeId) (limit : Nat) (reached : List NodeId) : Prop where
  object : p.tag ∈ reached
  params : ∀ m ∈ p.methods, ∀ i, p.annotated.scopeIds.get? m.tag = some i → i < limit →
    ∀ param ∈ m.params, param.tag ∈ reached

theorem Program.Opened.mono {p : Program NodeId} {limit : Nat} {reached more : List NodeId}
    (opened : p.Opened limit reached) (sub : reached ⊆ more) : p.Opened limit more where
  object := sub opened.object
  params m member i bound below param given := sub (opened.params m member i bound below param given)

/-- The first walk and the check at the same point of a body: what has been declared has been
reached. The scopes below the limit are those up to the end of the method. -/
structure Program.Place (p : Program NodeId) (limit : Nat) (q : Progress) (id : Nat) (a : Analysis) :
    Prop where
  inner : id ≠ ScopeTree.root
  marks : q.scopes.blank = p.annotated.scopes.blank
  opened : p.Opened limit q.reached
  room : a.scopes.size ≤ limit
  vars : ∀ i x v, a.scopes.symbol? i x = some (.var v) → v.declaredAt ∈ q.reached

theorem Declarator.annotateSize (type : Option DataType) (id : Nat) (d : Declarator NodeId)
    (a : Analysis) : (d.annotate type id a).scopes.size = a.scopes.size := by
  unfold Declarator.annotate
  cases d.init with
  | none => simp [Analysis.mapScopes, ScopeTree.declareVariable]
  | some e => simp [Analysis.mapScopes, ScopeTree.declareVariable, Expr.annotateSize]

theorem Analysis.inScopeSize (a : Analysis) (id : Nat) (n : NodeId)
    (inside : Nat → Analysis → Analysis) : (a.inScope id n inside).scopes.size =
      (inside a.scopes.size (a.entered id n)).scopes.size := by
  rw [inScopeEntered]
  simp only [mapScopes, ScopeTree.leave]
  split
  · exact ScopeTree.modifySize ..
  · rfl

theorem Stmt.elseRoom {n m : NodeId} {cond : Expr NodeId} {yes no : Stmt NodeId} {span : Span}
    {id limit : Nat} {a : Analysis}
    (room : ((Stmt.ifElse n cond yes m no span).annotate id a).scopes.size ≤ limit) :
    ((Stmt.ifThen n cond yes span).annotate id a).scopes.size ≤ limit ∧
      (((Stmt.ifThen n cond yes span).annotate id a).entered id m).scopes.size ≤ limit ∧
      (no.annotate ((Stmt.ifThen n cond yes span).annotate id a).scopes.size
        (((Stmt.ifThen n cond yes span).annotate id a).entered id m)).scopes.size ≤ limit := by
  have size : ((Stmt.ifElse n cond yes m no span).annotate id a).scopes.size = _ :=
    Analysis.inScopeSize _ id m fun inner a => no.annotate inner a
  have walks := no.annotateWalks _ _
    (((Stmt.ifThen n cond yes span).annotate id a).enteredIn id m)
  rw [size] at room
  have entered := Nat.le_trans walks.size room
  refine ⟨?_, entered, room⟩
  rw [Analysis.enteredSize] at entered
  exact Nat.le_of_succ_le entered

theorem Declarator.reachedTags {F : Analysis} {type : Option DataType} {d : Declarator NodeId}
    {id : Nat} {q r : Progress} (passes : d.Passes F type id q r) :
    r.reached ⊆ d.tags ++ q.reached := by
  rw [passes.reached]
  exact List.cons_subset.mpr ⟨List.mem_append_left _ d.tagMem, List.subset_append_right _ _⟩

theorem Stmt.reachedTags {F : Analysis} {returns : DataType} {s : Stmt NodeId} {id : Nat}
    {q r : Progress} (passes : Stmt.Passes F returns id q s r) : r.reached ⊆ s.tags ++ q.reached := by
  rw [(s.passesReaches passes).reached]
  intro n member
  rcases List.mem_append.mp member with new | old
  · obtain ⟨d, inside, rfl⟩ := List.mem_map.mp (List.mem_reverse.mp new)
    exact List.mem_append_left _ (s.declaratorTags inside)
  · exact List.mem_append_right _ old

namespace Program

theorem found {p : Program NodeId} {q : Progress} (marks : q.scopes.blank = p.annotated.scopes.blank)
    {id : Nat} {x : String} {type : DataType} (known : q.types id x = some type) :
    ∃ home v, p.annotated.scopes.resolve id x q.sees = some (home, .var v) ∧
      v.type = some type ∧ p.annotated.scopes.symbol? home x = some (.var v) := by
  obtain ⟨home, v, here, same⟩ := Progress.typesSome.mp known
  obtain ⟨marked, there⟩ := ScopeTree.resolveVariable marks q.seesBlank here
  exact ⟨home, { v with initialized := marked }, there, same, (ScopeTree.resolveSymbol there).1⟩

theorem names {p : Program NodeId} (unique : p.tags.Nodup) (lawful : p.Lawful p.annotated)
    {q : Progress} (marks : q.scopes.blank = p.annotated.scopes.blank) (id : Nat) :
    p.annotated.Names p q.reached id (q.types id) := by
  intro a settled x type known
  obtain ⟨home, v, there, same, _⟩ := found marks known
  simp [Analysis.nameType?, settled.lookup unique lawful there, Symbol.type?, same]

namespace Place
variable {p : Program NodeId} {limit : Nat} {q r : Progress} {id : Nat} {a : Analysis}

theorem within (place : p.Place limit q id a) : a.Within p q.reached where
  vars := place.vars
  object := place.opened.object
  params m member i bound inside :=
    place.opened.params m member i bound (Nat.lt_of_lt_of_le inside place.room)

theorem tested (place : p.Place limit q id a) {e : Expr NodeId} {type : DataType}
    (passes : e.Passes p.annotated id q type r) :
    p.Place limit r id ((e.annotate id a).2.pop id 1) where
  inner := place.inner
  marks := passes.onward.marks.trans place.marks
  opened := by
    rw [passes.onward.reached]
    exact place.opened
  room := by simpa [Expr.annotateSize] using place.room
  vars := by
    rw [passes.onward.reached]
    exact (place.within.walks (e.conditionWalks id a) (by simp [Expr.annotateSize])).vars

theorem declared {d : Declarator NodeId} {type : Option DataType} {kept : List NodeId}
    (place : p.Place limit q id a) (run : d.Run p.annotated kept type id a)
    (passes : d.Passes p.annotated type id q r) : p.Place limit r id (d.annotate type id a) where
  inner := place.inner
  marks := passes.marks.trans place.marks
  opened := by
    rw [passes.reached]
    exact place.opened.mono (List.subset_cons_self _ _)
  room := by
    rw [Declarator.annotateSize]
    exact place.room
  vars i x v found := by
    rw [passes.reached]
    rcases Declarator.annotateDeclares run i x v found with before | ⟨other, member, _, node, _⟩
    · exact List.mem_cons_of_mem _ (place.vars i x v before)
    · simp only [List.mem_singleton, Prod.mk.injEq] at member
      rw [← node, member.2]
      exact List.mem_cons_self ..

theorem entered (place : p.Place limit q id a) (n : NodeId) (inside : id < a.scopes.size)
    (room : (a.entered id n).scopes.size ≤ limit) :
    p.Place limit q a.scopes.size (a.entered id n) where
  inner := by
    simp only [ScopeTree.root]
    omega
  marks := place.marks
  opened := place.opened
  room := room
  vars i x v found := by
    rcases (Analysis.Declares.entered (F := p.annotated) a n) i x v found with old | ⟨_, none, _⟩
    · exact place.vars i x v old
    · contradiction

theorem after {returns : DataType} {s : Stmt NodeId} {kept : List NodeId}
    (place : p.Place limit q id a) (run : s.Run p.annotated kept id a)
    (passes : Stmt.Passes p.annotated returns id q s r)
    (room : (s.annotate id a).scopes.size ≤ limit) : p.Place limit r id (s.annotate id a) where
  inner := place.inner
  marks := (s.passesReaches passes).marks.trans place.marks
  opened := by
    rw [(s.passesReaches passes).reached]
    exact place.opened.mono (List.subset_append_right _ _)
  room := room
  vars i x v found := by
    rw [(s.passesReaches passes).reached]
    rcases s.annotateDeclares run i x v found with before | ⟨d, member, _, node, _⟩
    · exact List.mem_append_right _ (place.vars i x v before)
    · rw [← node]
      exact List.mem_append_left _ (List.mem_reverse.mpr
        (List.mem_map.mpr ⟨d, s.placedDeclarators member, rfl⟩))

end Place

def signature (m : Method NodeId) : Signature :=
  ⟨m.name, m.returnType, m.paramTypes, .declared, m.span⟩

theorem begunMethods (p : Program NodeId) : p.begun.methods.signatures = p.methods.map signature := by
  have fold (ms : List (Method NodeId)) (t : MethodTable) :
      (ms.foldl (fun t m => t.declare m.name m.returnType m.paramTypes m.span) t).signatures =
        t.signatures ++ ms.map signature := by
    induction ms generalizing t with
    | nil => simp
    | cons m rest ih =>
      rw [List.foldl_cons, ih]
      simp [MethodTable.declare, signature]
  exact fold p.methods {}

theorem annotatedFind (p : Program NodeId) (x : String) :
    p.annotated.methods.find? x = (p.findMethod? x).map signature := by
  rw [p.annotatedWalks.found, MethodTable.find?, begunMethods, List.find?_map]
  rfl

theorem annotatedUsesEq (p : Program NodeId) : p.annotated.methods.uses =
    fun x => (p.findMethod? x).map fun m => ⟨m.returnType, m.paramTypes⟩ := by
  funext x
  rw [MethodTable.uses, annotatedFind, Option.map_map]
  rfl

theorem annotatedUses {p : Program NodeId} {x : String} {use : MethodUse}
    (found : p.annotated.methods.uses x = some use) :
    ∃ m ∈ p.methods, use = ⟨m.returnType, m.paramTypes⟩ := by
  rw [annotatedUsesEq] at found
  obtain ⟨m, hit, same⟩ := Option.map_eq_some_iff.mp found
  exact ⟨m, List.mem_of_find?_eq_some hit, same.symm⟩

end Program

section
variable {F : Analysis}

mutual

theorem Stmt.passesAllowed : ∀ (s : Stmt NodeId) {returns : DataType} {id : Nat} {p q : Progress},
    Stmt.Passes F returns id p s q → ∀ i d, (i, d) ∈ s.placed F id → d.Allowed F i
  | .expr .., _, _, _, _, _, _, _, member => by simp [Stmt.placed] at member
  | .ret .., _, _, _, _, _, _, _, member => by simp [Stmt.placed] at member
  | .declare _ _ vars _, _, _, _, _, passes, i, d, member => by
    cases passes with
    | declare passes =>
      obtain ⟨other, inside, same⟩ := List.mem_map.mp member
      cases same
      exact passes.allowed d inside
  | .block n body _, _, _, _, _, passes, i, d, member => by
    cases passes with
    | block scope passes =>
      rw [Stmt.placed, F.scopeAtBound scope] at member
      exact Stmt.passAllAllowed body passes i d member
  | .ifThen n _ yes _, _, _, _, _, passes, i, d, member => by
    cases passes with
    | ifThen scope _ passes =>
      rw [Stmt.placed, F.scopeAtBound scope] at member
      exact yes.passesAllowed passes i d member
  | .ifElse n _ yes m no _, _, _, _, _, passes, i, d, member => by
    cases passes with
    | ifElse scope _ passes beside otherwise =>
      rw [Stmt.placed, F.scopeAtBound scope, F.scopeAtBound beside] at member
      rcases List.mem_append.mp member with first | second
      · exact yes.passesAllowed passes i d first
      · exact no.passesAllowed otherwise i d second
  | .loop n _ body _, _, _, _, _, passes, i, d, member => by
    cases passes with
    | loop scope _ passes =>
      rw [Stmt.placed, F.scopeAtBound scope] at member
      exact body.passesAllowed passes i d member

theorem Stmt.passAllAllowed : ∀ (ss : List (Stmt NodeId)) {returns : DataType} {id : Nat}
    {p q : Progress}, Stmt.PassAll F returns id p ss q →
      ∀ i d, (i, d) ∈ Stmt.placedAll F ss id → d.Allowed F i
  | [], _, _, _, _, _, _, _, member => by simp [Stmt.placedAll] at member
  | s :: rest, _, _, _, _, passes, i, d, member => by
    cases passes with
    | cons first others =>
      rcases List.mem_append.mp member with early | late
      · exact s.passesAllowed first i d early
      · exact Stmt.passAllAllowed rest others i d late

end
end

theorem Stmt.Run.returned {F a : Analysis} {kept : List NodeId} {id : Nat} {n : NodeId}
    {e : Expr NodeId} {span : Span} {type : DataType}
    (run : (Stmt.ret n (some e) span).Run F kept id a) (result : (e.annotate id a).1 = some type) :
    F.typeOf? n = some type := by
  have member : n ∈ (Stmt.ret n (some e) span).tags := by simp [Stmt.tags, Stmt.nodes]
  have recorded := run.ahead.type (List.mem_append_left _ member)
  simp only [Stmt.annotate, result] at recorded
  exact recorded.trans ((Analysis.typeOfSetType _ n n type).trans (if_pos rfl))

theorem Stmt.Run.left {F a : Analysis} {kept : List NodeId} {id : Nat} {n : NodeId} {span : Span}
    (run : (Stmt.ret n none span).Run F kept id a) : F.typeOf? n = some .void := by
  have member : n ∈ (Stmt.ret n none span).tags := by simp [Stmt.tags, Stmt.nodes]
  have recorded := run.ahead.type (List.mem_append_left _ member)
  exact recorded.trans ((Analysis.typeOfSetType a n n .void).trans (if_pos rfl))

theorem Declarator.Run.final {F a : Analysis} {kept : List NodeId} {type : Option DataType}
    {id : Nat} {d : Declarator NodeId} (run : d.Run F kept type id a) (inner : id ≠ ScopeTree.root)
    (single : F.scopes.declarationCount id d.name ≤ 1) {v : Variable}
    (found : (d.annotate type id a).scopes.symbol? id d.name = some (.var v)) :
    F.scopes.symbol? id d.name = some (.var v) := by
  have walked := d.annotateWalks type id a
  have tidy := walked.tidy run.tidy
  obtain ⟨fresh, passed, leads, _⟩ := run.ahead
  have ordered := (leads.tidy tidy).ordered
  have inside := Nat.lt_of_lt_of_le run.inside walked.size
  rcases (leads.scope id inside).symbol d.name with kept | ⟨_, _, _, more⟩ | ⟨none, _, _⟩
  · exact kept.trans found
  · -- A later symbol would be a second declaration of the name.
    have counted := tidy.counted id d.name v found
    have own := ScopeTree.declarationCountOwn ordered inner d.name
    omega
  · exact absurd (none.symm.trans found) (by simp)

theorem Declarator.annotateBare {a : Analysis} {type : Option DataType} {id : Nat}
    {d : Declarator NodeId} (missing : d.init = none) : d.annotate type id a =
      (a.mapScopes fun t => t.declareVariable id d.name type false d.tag).setType d.tag type := by
  simp only [Declarator.annotate, missing]

theorem Declarator.annotateInitial {a : Analysis} {type : Option DataType} {id : Nat}
    {d : Declarator NodeId} {e : Expr NodeId} {found : DataType} (given : d.init = some e)
    (result : type.or (e.annotate id a).1 = some found) :
    d.annotate type id a = (((e.annotate id a).2.pop id 1).mapScopes fun t =>
      t.declareVariable id d.name (some found) true d.tag).setType d.tag (some found) := by
  simp only [Declarator.annotate, given, result]

theorem Declarator.typeAgreed {type : Option DataType} {found : DataType}
    (agrees : ∀ expected, type = some expected → found = expected) :
    type.or (some found) = some found := by
  cases type with
  | none => rfl
  | some expected => rw [agrees expected rfl, Option.some_or]

theorem Declarator.Run.bareSymbol {F a : Analysis} {kept : List NodeId} {type : Option DataType}
    {id : Nat} {d : Declarator NodeId} (run : d.Run F kept type id a) (missing : d.init = none) :
    F.typeOf? d.tag = type ∧ ∃ slot, (d.annotate type id a).scopes.symbol? id d.name =
      some (.var ⟨type, slot, false, d.tag⟩) := by
  have recorded := run.ahead.type (List.mem_append_left kept d.tagMem)
  rw [Declarator.annotateBare missing] at recorded ⊢
  refine ⟨recorded.trans ?_, a.scopes.nextSlot id, ?_⟩
  · cases type with
    | none => exact run.unseen d.tag d.tagMem
    | some known => rw [Analysis.typeOfSetType, if_pos rfl]
  · rw [Analysis.setTypeScopes, Analysis.mapScopes, ScopeTree.declaredSymbol,
      if_pos ⟨rfl, run.inside, rfl⟩]

theorem Declarator.Run.initialSymbol {F a : Analysis} {kept : List NodeId} {type : Option DataType}
    {id : Nat} {d : Declarator NodeId} {e : Expr NodeId} {found : DataType}
    (run : d.Run F kept type id a) (given : d.init = some e)
    (result : type.or (e.annotate id a).1 = some found) :
    F.typeOf? d.tag = some found ∧ ∃ slot, (d.annotate type id a).scopes.symbol? id d.name =
      some (.var ⟨some found, slot, true, d.tag⟩) := by
  have inside : id < ((e.annotate id a).2.pop id 1).scopes.size := by
    simpa [Expr.annotateSize] using run.inside
  have recorded := run.ahead.type (List.mem_append_left kept d.tagMem)
  rw [Declarator.annotateInitial given result] at recorded ⊢
  refine ⟨recorded.trans (by rw [Analysis.typeOfSetType, if_pos rfl]),
    ((e.annotate id a).2.pop id 1).scopes.nextSlot id, ?_⟩
  rw [Analysis.setTypeScopes, Analysis.mapScopes, ScopeTree.declaredSymbol, if_pos ⟨rfl, inside, rfl⟩]

theorem Program.Place.only {p : Program NodeId} {limit : Nat} {q : Progress} {id : Nat} {a : Analysis}
    {type : Option DataType} {d : Declarator NodeId} (place : p.Place limit q id a)
    (run : d.Run p.annotated q.reached type id a) {i : Nat} {x : String} {v : Variable}
    (found : p.annotated.scopes.symbol? i x = some (.var v)) (node : v.declaredAt = d.tag) :
    i = id ∧ x = d.name := by
  obtain ⟨fresh, passed, leads, away⟩ := run.ahead
  have apart := away d.tag (List.mem_append_left _ d.tagMem)
  rcases leads.origin found with before | new | new
  · rcases Declarator.annotateDeclares run i x v before with old | ⟨other, inside, name, _⟩
    · exact absurd (node ▸ place.vars i x v old) (run.apart d.tag d.tagMem)
    · simp only [List.mem_singleton, Prod.mk.injEq] at inside
      obtain ⟨rfl, rfl⟩ := inside
      exact ⟨rfl, name.symm⟩
  · exact absurd (node ▸ new) apart.1
  · exact absurd (node ▸ new) apart.2

structure Program.Between (p : Program NodeId) (done : List (Method NodeId)) (q : Progress)
    (a : Analysis) : Prop where
  marks : q.scopes.blank = p.annotated.scopes.blank
  object : p.tag ∈ q.reached
  params : ∀ m ∈ done, ∀ param ∈ m.params, param.tag ∈ q.reached
  vars : ∀ i x v, a.scopes.symbol? i x = some (.var v) → v.declaredAt ∈ q.reached

theorem Method.RunAll.beyond {F a : Analysis} {kept : List NodeId} {ms : List (Method NodeId)}
    (run : Method.RunAll F kept ms a) {m : Method NodeId} (member : m ∈ ms) {i : Nat}
    (bound : F.scopeIds.get? m.tag = some i) : a.scopes.size ≤ i := by
  induction ms generalizing a kept with
  | nil => contradiction
  | cons first rest ih =>
    obtain ⟨here, later⟩ := run.cons
    rcases List.mem_cons.mp member with rfl | behind
    · obtain rfl : a.scopes.size = i := by simpa [here.body.1] using bound
      exact Nat.le_refl _
    · exact Nat.le_trans (first.annotateWalks a run.rooted).size (ih later behind)

theorem Method.received {q : Progress} {kept : List NodeId} (m : Method NodeId)
    (covered : q.reached ⊆ kept) :
    (q.receive m.params).reached ⊆ m.params.map Param.tag ++ kept := by
  rw [Progress.receiveEq]
  intro n member
  rcases List.mem_append.mp member with new | old
  · exact List.mem_append_left _ (List.mem_reverse.mp new)
  · exact List.mem_append_right _ (covered old)

theorem Method.Passes.reached {F : Analysis} {q r : Progress} {m : Method NodeId}
    (passes : m.Passes F q r) :
    r.reached = ((Stmt.declaratorsAll m.body.stmts).map Declarator.tag).reverse ++
      (q.receive m.params).reached := by
  obtain ⟨inner, _, _, passed⟩ := passes.body
  exact (Stmt.passesReachesAll m.body.stmts passed).reached

theorem Method.Passes.reachedTags {F : Analysis} {q r : Progress} {m : Method NodeId}
    {kept : List NodeId} (passes : m.Passes F q r) (covered : q.reached ⊆ kept) :
    r.reached ⊆ m.tags ++ kept := by
  intro n member
  rw [passes.reached] at member
  rw [m.tagsEq]
  rcases List.mem_append.mp member with declared | others
  · obtain ⟨d, inside, rfl⟩ := List.mem_map.mp (List.mem_reverse.mp declared)
    have := Stmt.declaratorTagsAll m.body.stmts inside
    simp [this]
  · have := m.received covered others
    simp only [List.mem_append, List.mem_cons] at this ⊢
    grind

theorem Method.annotateSize (m : Method NodeId) (a : Analysis) : (m.annotate a).scopes.size =
    (Stmt.annotateAll m.body.stmts (Method.opened a m).scopes.size
      ((Method.opened a m).entered a.scopes.size m.body.tag)).scopes.size := by
  rw [Method.annotate, Analysis.inScopeSize, Block.annotate, Analysis.inScopeSize]
  rfl

namespace Program
variable {p : Program NodeId} {done : List (Method NodeId)} {m : Method NodeId} {q r : Progress}
  {a : Analysis} {kept : List NodeId}

theorem Between.place {rest : List (Method NodeId)} (between : p.Between done q a)
    (all : p.methods = done ++ m :: rest) (run : Method.RunAll p.annotated kept (m :: rest) a) :
    p.Place (m.annotate a).scopes.size (q.receive m.params) (Method.opened a m).scopes.size
      ((Method.opened a m).entered a.scopes.size m.body.tag) := by
  obtain ⟨here, later⟩ := run.cons
  obtain ⟨_, within, _, body⟩ := here.body
  have walks := Stmt.annotateAllWalks m.body.stmts _ _ body.inside
  have marks : (q.receive m.params).scopes.blank = p.annotated.scopes.blank := by
    rw [Progress.receiveEq]
    exact between.marks
  have earlier := q.receiveOld m.params
  refine ⟨?_, marks, ⟨earlier between.object, ?_⟩, ?_, ?_⟩
  · simp only [ScopeTree.root]
    omega
  · intro other member i bound below param given
    rw [all] at member
    rcases List.mem_append.mp member with before | now
    · exact earlier (between.params other before param given)
    · rcases List.mem_cons.mp now with rfl | behind
      · exact q.receiveNew given
      · have := later.beyond behind bound
        omega
  · rw [m.annotateSize]
    exact walks.size
  · intro i x v found
    rcases (Analysis.Declares.entered (F := p.annotated) (Method.opened a m) m.body.tag) i x v found
      with old | ⟨_, none, _⟩
    · rcases Param.annotateAllOrigins _ _ _ old with start | ⟨param, member, _, _, node, _⟩
      · rcases (Analysis.Declares.entered (F := p.annotated) a m.tag) i x v start with
          before | ⟨_, none, _⟩
        · exact earlier (between.vars i x v before)
        · contradiction
      · exact node ▸ q.receiveNew member
    · contradiction

theorem Between.after (between : p.Between done q a) (run : m.Run p.annotated kept a)
    (passes : m.Passes p.annotated q r) : p.Between (done ++ [m]) r (m.annotate a) := by
  have earlier : q.reached ⊆ r.reached := by
    rw [passes.reached]
    exact List.subset_append_of_subset_right _ (q.receiveOld m.params)
  have given (param : Param NodeId) (member : param ∈ m.params) : param.tag ∈ r.reached := by
    rw [passes.reached]
    exact List.mem_append_right _ (q.receiveNew member)
  refine ⟨passes.marks.trans between.marks, earlier between.object, ?_, ?_⟩
  · intro other member param inside
    rcases List.mem_append.mp member with old | new
    · exact earlier (between.params other old param inside)
    · obtain rfl := List.mem_singleton.mp new
      exact given param inside
  · intro i x v found
    rcases Method.annotateOrigins run found with
      before | ⟨_, param, member, _, node, _⟩ | ⟨d, placed, _, node, _⟩
    · exact earlier (between.vars i x v before)
    · exact node ▸ given param member
    · rw [passes.reached, ← node]
      exact List.mem_append_left _ (List.mem_reverse.mpr
        (List.mem_map.mpr ⟨d, Stmt.placedAllDeclarators m.body.stmts placed, rfl⟩))

theorem between (p : Program NodeId) : p.Between [] p.startProgress p.begun where
  marks := rfl
  object := List.mem_singleton.mpr rfl
  params := by simp
  vars i x v found := by
    rw [begunSymbol] at found
    split at found
    · cases found
      exact List.mem_singleton.mpr rfl
    · contradiction

theorem Clean.allowed (clean : p.Clean q) : ∀ m ∈ p.methods, ∀ i d,
    (i, d) ∈ bodyPlaced p.annotated m → d.Allowed p.annotated i := by
  have all {ms : List (Method NodeId)} {q r : Progress}
      (passes : Method.PassAll p.annotated q ms r) : ∀ m ∈ ms, ∀ i d,
        (i, d) ∈ bodyPlaced p.annotated m → d.Allowed p.annotated i := by
    induction passes with
    | nil => simp
    | @cons _ m _ _ _ first _ ih =>
      intro other member i d placed
      rcases List.mem_cons.mp member with rfl | behind
      · obtain ⟨inner, scope, _, passed⟩ := first.body
        rw [bodyPlaced, Analysis.scopeAtBound scope] at placed
        exact Stmt.passAllAllowed _ passed i d placed
      · exact ih other behind i d placed
  exact all clean.methods

end Program
end ClassCompiler
