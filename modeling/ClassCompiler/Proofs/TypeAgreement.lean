import ClassCompiler.Proofs.Visits

/-! The types that the first walk and the check give to expressions. The walk infers them while the
scopes are being built, the check once they are finished, and the code is made from what the walk has
recorded. In an accepted program all of them know every type, and agree. -/
namespace ClassCompiler

def NodeKind.isExpr : NodeKind → Bool
  | .literal _ | .var _ | .binary _ | .not | .assign _ | .call _ | .intrinsic _ => true
  | _ => false

section
variable (F : Analysis) (types : NodeId → Option DataType)

/-- What is recorded for an expression of a type. For an operator it is the type that both operands
have, and for a printed line the type of what is printed. -/
def Expr.Noted (id : Nat) (q : Progress) (type : DataType) : Expr NodeId → Prop
  | .binary n op left right =>
    ∃ common, types n = some common ∧ (left.check F id q).1 = some common ∧
      (right.check F id (left.check F id q).2).1 = some common ∧ type = op.yields common
  | .writeLine n value _ =>
    ∃ printed, types n = some printed ∧ (value.check F id q).1 = some printed
  | e => types e.tag = some type

/-- The walk and the check give one type to an expression. A name that is assigned to is recorded with
the type that the check knows it by. -/
def Visit.Typed (v : Visit) : Prop :=
  match v.part with
  | .value e => v.node = e.node ∧ ∃ type, (e.annotate v.here v.walk).1 = some type ∧
      (e.check F v.id v.check).1 = some type ∧ e.Noted F types v.id v.check type
  | .target => ∃ x type, v.node.kind = .var x ∧ v.check.types v.id x = some type ∧
      types v.node.tag = some type
  | .other => v.node.kind.isExpr = false

end

/-- The walk and the check stand in one scope, and the walk has made the declarations that the check has
reached. -/
structure Visit.Aligned (p : Program NodeId) (v : Visit) : Prop where
  scope : v.here = v.id
  marks : v.check.scopes.blank = p.annotated.scopes.blank
  settled : p.annotated.Settled p v.check.reached v.id v.walk
  known : ∀ x, v.node.kind = .var x → ∃ type, v.check.types v.id x = some type

structure Visit.Settled (p : Program NodeId) (returns : DataType) (v : Visit) : Prop where
  typed : v.Typed p.annotated p.annotated.typeOf?
  aligned : v.node.kind.isExpr = true → v.Aligned p
  returned : v.node.kind = .ret → p.annotated.typeOf? v.node.tag = some returns

theorem Visit.Settled.other {p : Program NodeId} {returns : DataType} {v : Visit} (part : v.part = .other)
    (plain : v.node.kind.isExpr = false)
    (returned : v.node.kind = .ret → p.annotated.typeOf? v.node.tag = some returns) :
    v.Settled p returns where
  typed := by
    rw [Visit.Typed, part]
    exact plain
  aligned expr := by simp [plain] at expr
  returned := returned

theorem Expr.kindIsExpr (e : Expr NodeId) : e.kind.isExpr = true := by
  cases e <;> rfl

theorem Expr.Noted.recorded {F : Analysis} {types : NodeId → Option DataType} {id : Nat} {q : Progress}
    {type : DataType} {e : Expr NodeId} (noted : e.Noted F types id q type) : (types e.tag).isSome = true := by
  cases e with
  | binary | writeLine =>
    obtain ⟨common, known, _⟩ := noted
    exact Option.isSome_of_eq_some known
  | _ => exact Option.isSome_of_eq_some noted

theorem Visit.Typed.recorded {F : Analysis} {types : NodeId → Option DataType} {v : Visit}
    (typed : v.Typed F types) (expr : v.node.kind.isExpr = true) : (types v.node.tag).isSome = true := by
  unfold Typed at typed
  split at typed
  · obtain ⟨node, _, _, _, noted⟩ := typed
    rw [node]
    exact noted.recorded
  · obtain ⟨_, _, _, _, known⟩ := typed
    exact Option.isSome_of_eq_some known
  · simp [expr] at typed

theorem Expr.checkYields (F : Analysis) (id : Nat) : ∀ (e : Expr NodeId) {type : DataType}
    {q : Progress}, e.HasType F.methods.uses (q.types id) type → (e.check F id q).1 = some type
  | .literal .., _, _, typed | .not .., _, _, typed | .writeLine .., _, _, typed
  | .read .., _, _, typed | .random .., _, _, typed | .randomBelow .., _, _, typed => by
    cases typed
    rfl
  | .var n x span, type, q, typed => by
    cases typed with
    | var known =>
      obtain ⟨home, v, found, same⟩ := Progress.typesSome.mp known
      simp [Expr.check, Progress.checkRead, found, same]
  | .binary n op left right, _, q, typed => by
    cases typed with
    | binary first second _ =>
      rw [← Progress.typesOnward (left.checkOnward F id q)] at second
      simp only [Expr.check, left.checkYields F id first, right.checkYields F id second,
        BinaryOp.resultYields]
  | .assign n target value, type, q, typed => by
    cases typed with
    | assign known assigned =>
      obtain ⟨home, v, found, _⟩ := Progress.typesSome.mp known
      simp only [Expr.check, Expr.asName, Progress.checkStore, found, value.checkYields F id assigned]
  | .call n m args span, _, q, typed => by
    cases typed with
    | call found _ =>
      obtain ⟨s, declared, same⟩ := Option.map_eq_some_iff.mp found
      cases same
      simp only [Expr.check, declared]

theorem Program.Clean.lawful {p : Program NodeId} {q : Progress} (clean : p.Clean q) :
    p.Lawful p.annotated := fun m member i d placed =>
  ⟨(clean.allowed m member i d placed).free, (clean.allowed m member i d placed).single⟩

section
variable {p : Program NodeId} {final : Analysis} {limit : Nat}

theorem Expr.Run.behind {reached : List NodeId} {id : Nat} {a : Analysis} {e : Expr NodeId}
    (run : e.Run p.annotated reached id a) (within : a.Within p reached) :
    p.annotated.Settled p reached id (e.annotate id a).2 where
  inside := by
    rw [Expr.annotateSize]
    exact run.inside
  tidy := (e.annotateWalks id a).tidy run.tidy
  ahead := run.ahead.mono (List.subset_append_right _ _)
  within := within.walks (e.annotateWalks id a) (e.annotateSize id a)

theorem Expr.assignNoted {F a : Analysis} {kept tags : List NodeId} {id : Nat} {n m : NodeId}
    {x : String} {span : Span} {value : Expr NodeId} {keep : Bool}
    {walk : Analysis → Option DataType × Analysis} {type : DataType}
    (segment : Analysis.Segment F kept tags a
      (a.annotateAssign id n keep (.var m x span) walk fun a => value.annotate id a).2)
    (sub : (Expr.assign n (.var m x span) value).tags.Sublist tags)
    (result : (value.annotate id a).1 = some type)
    (named : (value.annotate id a).2.nameType? id x = some type) :
    F.typeOf? n = some type ∧ F.typeOf? m = some type := by
  have listed : (Expr.assign n (.var m x span) value).tags = n :: m :: value.tags := by
    simp [Expr.tags, Expr.nodes]
  have unique := sub.nodup segment.unique
  rw [listed] at sub unique
  have apart : n ≠ m := by
    rintro rfl
    simp at unique
  have inside (k : NodeId) (member : k ∈ n :: m :: value.tags) : F.typeOf? k =
      (a.annotateAssign id n keep (.var m x span) walk fun a => value.annotate id a).2.typeOf? k :=
    segment.ahead.type (List.mem_append_left _ (sub.subset member))
  have stored (b : Analysis) : ((if keep then b.push id 1 else b).pop id 1).typeOf? m =
      b.typeOf? m := by cases keep <;> rfl
  constructor
  · rw [inside n (by simp), Expr.annotateVarAssign, result, Analysis.typeOfSetType, if_pos rfl]
  · rw [inside m (by simp), Expr.annotateVarAssign, result, named, Analysis.typeOfSetType,
      if_neg apart]
    exact (stored _).trans (by rw [Analysis.typeOfSetType, if_pos rfl])

theorem Expr.Run.noted {a : Analysis} {q : Progress} {id : Nat} {e : Expr NodeId} {type : DataType}
    (run : e.Run p.annotated q.reached id a) (within : a.Within p q.reached)
    (names : p.annotated.Names p q.reached id (q.types id))
    (typed : e.HasType p.annotated.methods.uses (q.types id) type)
    (plain : ∀ m target value, e ≠ .assign m target value) :
    e.Noted p.annotated p.annotated.typeOf? id q type := by
  have result := e.annotateTyped names run within typed
  have recorded := run.recorded
  cases typed with
  | assign => exact absurd rfl (plain _ _ _)
  | @binary n op left right common first second _ =>
    have onward := left.checkOnward p.annotated id q
    have second : right.HasType p.annotated.methods.uses
        ((left.check p.annotated id q).2.types id) common := by
      rwa [Progress.typesOnward onward]
    refine ⟨common, ?_, left.checkYields _ id first, right.checkYields _ id second, rfl⟩
    by_cases group : op.group = .logical
    · rw [Expr.annotateLogical group,
        left.annotateTyped names (run.logical group).1 within first] at recorded
      exact recorded.trans (by rw [Option.some_or, Expr.tag, Analysis.typeOfSetType, if_pos rfl])
    · rw [Expr.annotateStrict group,
        left.annotateTyped names (run.strict group).1 within first] at recorded
      exact recorded.trans (by rw [Option.some_or, Expr.tag, Analysis.typeOfSetType, if_pos rfl])
  | @writeLine n value span printed known _ =>
    have inner := value.annotateTyped names run.writeLine
      (within.walks (Analysis.Walks.push a id 1) (by simp)) known
    refine ⟨printed, ?_, value.checkYields _ id known⟩
    simp only [Expr.annotate, inner] at recorded
    exact recorded.trans (by rw [Expr.tag, Analysis.typeOfSetType, if_pos rfl])
  | var known =>
    simp only [Expr.annotate] at result recorded
    rw [result, Expr.tag, Analysis.typeOfSetType, if_pos rfl] at recorded
    exact recorded
  | call found given =>
    simp only [Expr.annotate, Option.some.injEq] at result recorded
    rw [result, Expr.tag, Analysis.typeOfSetType, if_pos rfl] at recorded
    exact recorded
  | literal | not | read | random | randomBelow =>
    simp only [Expr.annotate] at recorded
    rw [Expr.tag, Analysis.typeOfSetType, if_pos rfl] at recorded
    exact recorded

theorem Expr.Run.visited (unique : p.tags.Nodup) (lawful : p.Lawful p.annotated) {a : Analysis}
    {q : Progress} {id : Nat} {e : Expr NodeId} {type : DataType}
    (run : e.Run p.annotated q.reached id a) (marks : q.scopes.blank = p.annotated.scopes.blank)
    (within : a.Within p q.reached) (typed : e.HasType p.annotated.methods.uses (q.types id) type)
    (plain : ∀ m target value, e ≠ .assign m target value) (returns : DataType) :
    (e.visit id id a q).Settled p returns := by
  have names := p.names unique lawful marks id
  refine ⟨⟨rfl, type, e.annotateTyped names run within typed, e.checkYields _ id typed,
    run.noted within names typed plain⟩, fun _ => ⟨rfl, marks, run.settled within, ?_⟩, fun ret => ?_⟩
  · intro x named
    cases typed with
    | var known =>
      cases named
      exact ⟨type, known⟩
    | _ => cases named
  · exact absurd (e.kindIsExpr.symm.trans (congrArg NodeKind.isExpr ret)) (by decide)

theorem Expr.assignVisits (unique : p.tags.Nodup) (lawful : p.Lawful p.annotated) {a : Analysis}
    {q : Progress} {id : Nat} {n m : NodeId} {x : String} {place : Span} {value : Expr NodeId}
    {keep : Bool} {walk : Analysis → Option DataType × Analysis} {tags : List NodeId}
    {type returns : DataType} (marks : q.scopes.blank = p.annotated.scopes.blank)
    (within : a.Within p q.reached)
    (segment : Analysis.Segment p.annotated q.reached tags a
      (a.annotateAssign id n keep (.var m x place) walk fun a => value.annotate id a).2)
    (inside : id < a.scopes.size)
    (sub : (Expr.assign n (.var m x place) value).tags.Sublist tags)
    (known : q.types id x = some type)
    (assigned : value.HasType p.annotated.methods.uses (q.types id) type)
    (rest : value.Run p.annotated q.reached id a → ∀ v ∈ value.visits p.annotated id id a q,
      v.Settled p returns) :
    ∀ v ∈ (Expr.assign n (.var m x place) value).visits p.annotated id id a q,
      v.Settled p returns := by
  have names := p.names unique lawful marks id
  have run := Expr.assignRun segment inside sub
  have result := value.annotateTyped names run within assigned
  obtain ⟨whole, target⟩ := Expr.assignNoted segment sub result
    (names _ (run.behind within) x type known)
  have kept : (q.checkStore p.annotated id x place).2 = q := by
    obtain ⟨home, v, found, _⟩ := Progress.typesSome.mp known
    simp [Progress.checkStore, found]
  intro v member
  simp only [Expr.visits, Expr.asName, Expr.span, kept, List.mem_cons] at member
  rcases member with rfl | rfl | inner
  · exact ⟨⟨rfl, type, result, Expr.checkYields _ id _ (.assign known assigned), whole⟩,
      fun _ => ⟨rfl, marks, run.settled within, by rintro y ⟨⟩⟩, by rintro ⟨⟩⟩
  · refine ⟨⟨x, type, rfl, known, target⟩, fun _ => ⟨rfl, marks, run.behind within, ?_⟩, by rintro ⟨⟩⟩
    rintro y ⟨⟩
    exact ⟨type, known⟩
  · exact rest run v inner

theorem Expr.Run.sides {F a : Analysis} {reached : List NodeId} {id : Nat} {n : NodeId}
    {op : BinaryOp} {left right : Expr NodeId} (run : (Expr.binary n op left right).Run F reached id a)
    (within : a.Within p reached) :
    let between := if op.group = .logical then (left.annotate id a).2.pop id 1
      else (left.annotate id a).2
    left.Run F reached id a ∧ right.Run F reached id between ∧ between.Within p reached := by
  by_cases logical : op.group = .logical
  · simp only [if_pos logical]
    exact ⟨(run.logical logical).1, (run.logical logical).2,
      within.walks (left.conditionWalks id a) (by simp [Expr.annotateSize])⟩
  · simp only [if_neg logical]
    exact ⟨(run.strict logical).1, (run.strict logical).2,
      within.walks (left.annotateWalks id a) (left.annotateSize id a)⟩

mutual

theorem Expr.visitsSettled (unique : p.tags.Nodup) (lawful : p.Lawful p.annotated)
    (returns : DataType) {id : Nat} : ∀ (e : Expr NodeId) {type : DataType} {q : Progress}
    {a : Analysis}, q.scopes.blank = p.annotated.scopes.blank → a.Within p q.reached →
      e.Run p.annotated q.reached id a → e.HasType p.annotated.methods.uses (q.types id) type →
        ∀ v ∈ e.visits p.annotated id id a q, v.Settled p returns
  | .literal .., _, q, a, marks, within, run, typed, v, member
  | .var .., _, q, a, marks, within, run, typed, v, member
  | .read .., _, q, a, marks, within, run, typed, v, member
  | .random .., _, q, a, marks, within, run, typed, v, member => by
    obtain rfl := List.mem_singleton.mp member
    exact run.visited unique lawful marks within typed nofun returns
  | .binary n op left right, _, q, a, marks, within, run, typed, v, member => by
    have here := run.visited unique lawful marks within typed nofun returns
    cases typed with
    | binary first second _ =>
      have onward := left.checkOnward p.annotated id q
      obtain ⟨leftRun, rightRun, behind⟩ := run.sides within
      rw [Expr.visits, List.mem_cons, List.mem_append] at member
      rcases member with rfl | early | late
      · exact here
      · exact left.visitsSettled unique lawful returns marks within leftRun first v early
      · rw [← Progress.typesOnward onward id] at second
        rw [← onward.reached] at behind rightRun
        exact right.visitsSettled unique lawful returns (onward.marks.trans marks) behind rightRun
          second v late
  | .not n operand span, _, q, a, marks, within, run, typed, v, member => by
    rcases List.mem_cons.mp member with rfl | inner
    · exact run.visited unique lawful marks within typed nofun returns
    · cases typed with
      | not condition =>
        exact operand.visitsSettled unique lawful returns marks within run.not condition v inner
  | .assign n target value, _, q, a, marks, within, run, typed, v, member => by
    cases typed with
    | assign known assigned =>
      exact Expr.assignVisits unique lawful marks within run.toSegment run.inside
        (List.Sublist.refl _) known assigned
        (fun inner => value.visitsSettled unique lawful returns marks within inner assigned) v member
  | .call n m args span, _, q, a, marks, within, run, typed, v, member => by
    rcases List.mem_cons.mp member with rfl | inner
    · exact run.visited unique lawful marks within typed nofun returns
    · cases typed with
      | call _ given =>
        exact Expr.visitsAllSettled unique lawful returns args marks
          (within.walks (Analysis.Walks.push a id 1) (by simp)) run.call given v inner
  | .writeLine n value span, _, q, a, marks, within, run, typed, v, member => by
    rcases List.mem_cons.mp member with rfl | inner
    · exact run.visited unique lawful marks within typed nofun returns
    · cases typed with
      | writeLine printed _ =>
        exact value.visitsSettled unique lawful returns marks
          (within.walks (Analysis.Walks.push a id 1) (by simp)) run.writeLine printed v inner
  | .randomBelow n bound span, _, q, a, marks, within, run, typed, v, member => by
    rcases List.mem_cons.mp member with rfl | inner
    · exact run.visited unique lawful marks within typed nofun returns
    · cases typed with
      | randomBelow limit =>
        exact bound.visitsSettled unique lawful returns marks
          (within.walks ((Analysis.Walks.push a id 2).trans (Analysis.Walks.pop _ id 1)) (by simp))
          run.randomBelow limit v inner

theorem Expr.visitsAllSettled (unique : p.tags.Nodup) (lawful : p.Lawful p.annotated)
    (returns : DataType) {id : Nat} : ∀ (es : List (Expr NodeId)) {types : List DataType}
    {q : Progress} {a : Analysis}, q.scopes.blank = p.annotated.scopes.blank → a.Within p q.reached →
      Expr.RunAll p.annotated q.reached id es a →
      Expr.HaveTypes p.annotated.methods.uses (q.types id) es types →
        ∀ v ∈ Expr.visitsAll p.annotated id id es a q,
          v.Settled p returns
  | [], _, _, _, _, _, _, _, v, member => by contradiction
  | e :: rest, _, q, a, marks, within, run, typed, v, member => by
    cases typed with
    | cons first others =>
      obtain ⟨here, later⟩ := run.cons
      have onward := e.checkOnward p.annotated id q
      rcases List.mem_append.mp member with early | late
      · exact e.visitsSettled unique lawful returns marks within here first v early
      · have behind := within.walks (e.annotateWalks id a) (e.annotateSize id a)
        rw [← Progress.typesOnward onward id] at others
        rw [← onward.reached] at behind later
        exact Expr.visitsAllSettled unique lawful returns rest (onward.marks.trans marks) behind later
          others v late

end

theorem Stmt.exprVisits (unique : p.tags.Nodup) (lawful : p.Lawful p.annotated) {id : Nat}
    {n : NodeId} {e : Expr NodeId} {span : Span} {type returns : DataType} {q r : Progress}
    {a : Analysis} (place : p.Place limit q id a)
    (run : (Stmt.expr n e span).Run p.annotated q.reached id a)
    (passes : e.Passes p.annotated id q type r) :
    ∀ v ∈ e.visits p.annotated id id a q, v.Settled p returns := by
  by_cases assigns : ∃ m target value, e = .assign m target value
  · obtain ⟨m, target, value, rfl⟩ := assigns
    cases passes.typed with
    | @assign _ k x spot _ _ known assigned =>
      exact Expr.assignVisits unique lawful place.marks place.within run.assignment run.inside
        Stmt.exprPart known assigned fun inner =>
          value.visitsSettled unique lawful returns place.marks place.within inner assigned
  · have plain : ∀ m target value, e ≠ .assign m target value :=
      fun m target value same => assigns ⟨m, target, value, same⟩
    exact e.visitsSettled unique lawful returns place.marks place.within (run.plain plain)
      passes.typed

theorem Declarator.visitsAllSettled (unique : p.tags.Nodup) (lawful : p.Lawful p.annotated) {id : Nat}
    {type : Option DataType} {span : Span} {ds : List (Declarator NodeId)} {q r : Progress}
    {a : Analysis} (returns : DataType) (place : p.Place limit q id a)
    (run : Declarator.RunAll p.annotated q.reached type id ds a)
    (passes : Declarator.PassAll p.annotated type id q ds r) :
    ∀ v ∈ Declarator.visitsAll p.annotated type span id id ds a q,
      v.Settled p returns := by
  induction passes generalizing a with
  | nil => simp [Declarator.visitsAll]
  | @cons q d m rest r first others ih =>
    obtain ⟨here, later⟩ := run.cons
    intro v member
    rw [Declarator.visitsAll, first.check place.marks span, List.mem_cons, List.mem_append] at member
    rcases member with rfl | early | late
    · exact .other rfl rfl (by rintro ⟨⟩)
    · cases first with
      | bare _ missing => simp [missing, Expr.visitsOption] at early
      | @initial e _ _ _ given passes _ =>
        rw [given] at early
        exact e.visitsSettled unique lawful returns place.marks place.within (here.init given)
          passes.typed v early
    · exact ih (place.declared here first)
        ⟨later.toSegment.keep (Declarator.reachedTags first), later.inside⟩ v late

theorem Stmt.checkedPasses {F : Analysis} {returns : DataType} {s : Stmt NodeId} {id : Nat}
    {q r : Progress} (passes : Stmt.Passes F returns id q s r)
    (marks : q.scopes.blank = F.scopes.blank) : s.checked F returns id q = r := by
  rw [Stmt.checked, s.passesCheck passes marks]
  rfl

theorem Stmt.conditionalVisits (unique : p.tags.Nodup) (lawful : p.Lawful p.annotated) {id : Nat}
    {n : NodeId} {cond : Expr NodeId} {body : Stmt NodeId} {span : Span} {returns : DataType}
    {q m : Progress} {a : Analysis} (place : p.Place limit q id a) (inside : id < a.scopes.size)
    (condRun : cond.Run p.annotated q.reached a.scopes.size (a.entered id n))
    (bodyRun : body.Run p.annotated q.reached a.scopes.size
      ((cond.annotate a.scopes.size (a.entered id n)).2.pop a.scopes.size 1))
    (room : (a.inScope id n fun inner a =>
      body.annotate inner ((cond.annotate inner a).2.pop inner 1)).scopes.size ≤ limit)
    (condition : cond.Passes p.annotated a.scopes.size q .bool m)
    (rest : ∀ {c : Analysis}, p.Place limit m a.scopes.size c →
      body.Run p.annotated m.reached a.scopes.size c →
      (body.annotate a.scopes.size c).scopes.size ≤ limit →
        ∀ v ∈ body.visits p.annotated returns a.scopes.size a.scopes.size c m,
          v.Settled p returns) :
    ∀ v ∈ cond.visits p.annotated a.scopes.size a.scopes.size (a.entered id n) q ++
      body.visits p.annotated returns a.scopes.size a.scopes.size
        ((cond.annotate a.scopes.size (a.entered id n)).2.pop a.scopes.size 1)
        (cond.checkCondition p.annotated a.scopes.size span q),
      v.Settled p returns := by
  have walks := (cond.conditionWalks a.scopes.size (a.entered id n)).trans
    (body.annotateWalks a.scopes.size _ bodyRun.inside)
  rw [Analysis.inScopeSize] at room
  have start := place.entered n inside (Nat.le_trans walks.size room)
  rw [condition.condition]
  intro v member
  rcases List.mem_append.mp member with early | late
  · exact cond.visitsSettled unique lawful returns start.marks start.within condRun condition.typed v
      early
  · rw [← condition.onward.reached] at bodyRun
    exact rest (start.tested condition) bodyRun room v late

mutual

theorem Stmt.visitsSettled (unique : p.tags.Nodup) (lawful : p.Lawful p.annotated) :
    ∀ (s : Stmt NodeId) {returns : DataType} {id : Nat} {q r : Progress} {a : Analysis},
      p.Place limit q id a → s.Run p.annotated q.reached id a →
      (s.annotate id a).scopes.size ≤ limit → Stmt.Passes p.annotated returns id q s r →
        ∀ v ∈ s.visits p.annotated returns id id a q,
          v.Settled p returns
  | .expr n e span, _, id, q, r, a, place, run, room, passes, v, member => by
    rcases List.mem_cons.mp member with rfl | inner
    · exact .other rfl rfl (by rintro ⟨⟩)
    cases passes with
    | expr passes => exact Stmt.exprVisits unique lawful place run passes v inner
  | .declare n type vars span, returns, id, q, r, a, place, run, room, passes, v, member => by
    rcases List.mem_cons.mp member with rfl | inner
    · exact .other rfl rfl (by rintro ⟨⟩)
    cases passes with
    | declare passes =>
      exact Declarator.visitsAllSettled unique lawful returns place run.declare passes v inner
  | .ret n (some e) span, returns, id, q, r, a, place, run, room, passes, v, member => by
    cases passes with
    | ret passes agrees =>
      have result := e.annotateTyped (p.names unique lawful place.marks id) run.ret place.within
        passes.typed
      have noted := run.returned result
      rcases List.mem_cons.mp member with rfl | inner
      · exact .other rfl rfl fun _ => agrees _ noted ▸ noted
      · exact e.visitsSettled unique lawful returns place.marks place.within run.ret passes.typed v
          inner
  | .ret n none span, returns, id, q, r, a, place, run, room, passes, v, member => by
    cases passes with
    | leave agrees =>
      obtain rfl := List.mem_singleton.mp member
      exact .other rfl rfl fun _ => agrees .void run.left ▸ run.left
  | .block n body span, returns, id, q, r, a, place, run, room, passes, v, member => by
    rcases List.mem_cons.mp member with rfl | inner
    · exact .other rfl rfl (by rintro ⟨⟩)
    cases passes with
    | block scope passes =>
      obtain ⟨bound, within⟩ := run.block
      obtain rfl : a.scopes.size = _ := by simpa [bound] using scope
      have walks := Stmt.annotateAllWalks body a.scopes.size (a.entered id n) within.inside
      rw [Stmt.annotate, Analysis.inScopeSize] at room
      rw [p.annotated.scopeAtBound bound] at inner
      exact Stmt.visitsAllSettled unique lawful body
        (place.entered n run.inside (Nat.le_trans walks.size room)) within room passes v inner
  | .ifThen n cond yes span, returns, id, q, r, a, place, run, room, passes, v, member => by
    rcases List.mem_cons.mp member with rfl | inner
    · exact .other rfl rfl (by rintro ⟨⟩)
    cases passes with
    | ifThen scope condition passes =>
      obtain ⟨bound, condRun, within⟩ := run.ifThen
      obtain rfl : a.scopes.size = _ := by simpa [bound] using scope
      rw [p.annotated.scopeAtBound bound] at inner
      exact Stmt.conditionalVisits unique lawful place run.inside condRun within room condition
        (fun middle within fits => yes.visitsSettled unique lawful middle within fits passes) v inner
  | .ifElse n cond yes m no span, returns, id, q, r, a, place, run, room, passes, v, member => by
    cases passes with
    | ifElse scope condition passes beside otherwise =>
      obtain ⟨before, inside, other, noRun⟩ := run.ifElse
      obtain ⟨bound, condRun, within⟩ := before.ifThen
      obtain rfl : a.scopes.size = _ := by simpa [bound] using scope
      obtain ⟨earlier, entered, room⟩ := Stmt.elseRoom room
      have passed : Stmt.Passes p.annotated _ id q (.ifThen n cond yes span) _ :=
        .ifThen scope condition passes
      have middle := place.after before passed earlier
      obtain rfl : ((Stmt.ifThen n cond yes span).annotate id a).scopes.size = _ := by
        simpa [other] using beside
      rw [Stmt.visits, p.annotated.scopeAtBound bound, p.annotated.scopeAtBound other,
        Stmt.checkedPasses passed place.marks, List.mem_cons, List.mem_append, List.mem_cons] at member
      rcases member with rfl | early | rfl | late
      · exact .other rfl rfl (by rintro ⟨⟩)
      · exact Stmt.conditionalVisits unique lawful place run.inside condRun within earlier condition
          (fun middle within fits => yes.visitsSettled unique lawful middle within fits passes) v
          early
      · exact .other rfl rfl (by rintro ⟨⟩)
      · exact no.visitsSettled unique lawful (middle.entered m inside entered)
          ⟨noRun.toSegment.keep (Stmt.reachedTags passed), noRun.inside⟩ room otherwise v late
  | .loop n cond body span, returns, id, q, r, a, place, run, room, passes, v, member => by
    rcases List.mem_cons.mp member with rfl | inner
    · exact .other rfl rfl (by rintro ⟨⟩)
    cases passes with
    | loop scope condition passes =>
      obtain ⟨bound, condRun, within⟩ := run.loop
      obtain rfl : a.scopes.size = _ := by simpa [bound] using scope
      rw [p.annotated.scopeAtBound bound] at inner
      exact Stmt.conditionalVisits unique lawful place run.inside condRun within room condition
        (fun middle within fits => body.visitsSettled unique lawful middle within fits passes) v inner

theorem Stmt.visitsAllSettled (unique : p.tags.Nodup) (lawful : p.Lawful p.annotated) :
    ∀ (ss : List (Stmt NodeId)) {returns : DataType} {id : Nat} {q r : Progress} {a : Analysis},
      p.Place limit q id a → Stmt.RunAll p.annotated q.reached id ss a →
      (Stmt.annotateAll ss id a).scopes.size ≤ limit → Stmt.PassAll p.annotated returns id q ss r →
        ∀ v ∈ Stmt.visitsAll p.annotated returns ss id id a q,
          v.Settled p returns
  | [], _, _, _, _, _, _, _, _, _, v, member => by contradiction
  | s :: rest, returns, id, q, r, a, place, run, room, passes, v, member => by
    cases passes with
    | cons first others =>
      obtain ⟨here, later⟩ := run.cons
      have middle : (s.annotate id a).scopes.size ≤ limit :=
        Nat.le_trans (Stmt.annotateAllWalks rest id _ later.inside).size room
      rw [Stmt.visitsAll, Stmt.checkedPasses first place.marks] at member
      rcases List.mem_append.mp member with early | late
      · exact s.visitsSettled unique lawful place here middle first v early
      · exact Stmt.visitsAllSettled unique lawful rest (place.after here first middle)
          ⟨later.toSegment.keep (Stmt.reachedTags first), later.inside⟩ room others v late

end

theorem Param.visitsAllSettled (returns : DataType) {here id : Nat} {ps : List (Param NodeId)}
    {a : Analysis} {q : Progress} :
    ∀ v ∈ Param.visitsAll here id ps a q, v.Settled p returns := by
  induction ps generalizing a q with
  | nil => simp [Param.visitsAll]
  | cons param rest ih =>
    intro v member
    rcases List.mem_cons.mp member with rfl | inner
    · exact .other rfl rfl (by rintro ⟨⟩)
    · exact ih v inner

theorem Method.visitsAllSettled (unique : p.tags.Nodup) (lawful : p.Lawful p.annotated)
    {done ms : List (Method NodeId)} {q r : Progress} {a : Analysis} {kept : List NodeId}
    (between : p.Between done q a) (all : p.methods = done ++ ms)
    (run : Method.RunAll p.annotated kept ms a) (covered : q.reached ⊆ kept)
    (passes : Method.PassAll p.annotated q ms r) :
    (∀ v ∈ Method.visitsAll p.annotated ms a q, ∃ returns, v.Settled p returns) ∧
      ∀ m ∈ ms, ∀ n ∈ m.nodes, n.kind = .ret → p.annotated.typeOf? n.tag = some m.returnType := by
  induction passes generalizing done a kept with
  | nil => simp [Method.visitsAll]
  | @cons q m _ rest r first others ih =>
    obtain ⟨here, _⟩ := run.cons
    obtain ⟨_, _, bound, body⟩ := here.body
    obtain ⟨inner, scope, _, passed⟩ := first.body
    obtain rfl : (Method.opened a m).scopes.size = inner := by simpa [bound] using scope
    have own : ∀ v ∈ m.visits p.annotated a q,
        v.Settled p m.returnType := by
      intro v member
      rw [Method.visits, p.annotated.scopeAtBound bound, List.mem_cons, List.mem_append,
        List.mem_cons] at member
      rcases member with rfl | given | rfl | inside
      · exact .other rfl rfl (by rintro ⟨⟩)
      · exact Param.visitsAllSettled _ v given
      · exact .other rfl rfl (by rintro ⟨⟩)
      · exact Stmt.visitsAllSettled unique lawful m.body.stmts (between.place all run)
          ⟨body.toSegment.keep (m.received covered), body.inside⟩
          (Nat.le_of_eq (m.annotateSize a).symm) passed v inside
    obtain ⟨settled, returned⟩ :=
      ih (between.after here first) (by simp [all]) run.cons.2 (first.reachedTags covered)
    constructor
    · intro v member
      rw [Method.visitsAll, first.check between.marks] at member
      rcases List.mem_append.mp member with early | late
      · exact ⟨m.returnType, own v early⟩
      · exact settled v late
    · intro other member n inside ret
      rcases List.mem_cons.mp member with rfl | later
      · rw [← other.visitsNodes (F := p.annotated) a q] at inside
        obtain ⟨v, listed, rfl⟩ := List.mem_map.mp inside
        exact (own v listed).returned ret
      · exact returned other later n inside ret

theorem Program.Clean.visitsSettled {q : Progress} (clean : p.Clean q) (unique : p.tags.Nodup) :
    (∀ v ∈ p.visits, ∃ returns, v.Settled p returns) ∧
      ∀ m ∈ p.methods, ∀ n ∈ m.nodes, n.kind = .ret →
        p.annotated.typeOf? n.tag = some m.returnType := by
  obtain ⟨settled, returned⟩ := Method.visitsAllSettled unique clean.lawful p.between rfl
    (annotatedRuns unique) (List.Subset.refl _) clean.methods
  refine ⟨fun v member => ?_, returned⟩
  rw [Program.visits, clean.start] at member
  rcases List.mem_cons.mp member with rfl | inner
  · exact ⟨.void, .other rfl rfl (by rintro ⟨⟩)⟩
  · exact settled v inner

namespace Program

/-- In an accepted program the first walk and the check give the same type to every expression that is
evaluated, no expression is left without one, and what a return statement gives is recorded with the
return type of its method. -/
theorem typesAgree (unique : p.tags.Nodup) (done : p.analyze = .ok final) :
    p.visits.map Visit.node = p.nodes ∧
      (∀ v ∈ p.visits, v.Typed p.annotated final.typeOf?) ∧
      (∀ n ∈ p.nodes, n.kind.isExpr = true → (final.typeOf? n.tag).isSome = true) ∧
      ∀ m ∈ p.methods, ∀ n ∈ m.nodes, n.kind = .ret → final.typeOf? n.tag = some m.returnType := by
  obtain ⟨q, clean, rfl⟩ := cleanOfAnalyze unique done
  obtain ⟨settled, returned⟩ := clean.visitsSettled unique
  have every : ∀ v ∈ p.visits, v.Typed p.annotated p.annotated.typeOf? := by
    intro v member
    obtain ⟨returns, here⟩ := settled v member
    exact here.typed
  refine ⟨p.visitsNodes, every, fun n member expr => ?_, returned⟩
  rw [← p.visitsNodes] at member
  obtain ⟨v, listed, rfl⟩ := List.mem_map.mp member
  exact (every v listed).recorded expr

theorem sampleTypesAgree : ∃ a, sampleProgram.analyze = .ok a ∧
    sampleProgram.visits.map Visit.node = sampleProgram.nodes ∧
    (∀ v ∈ sampleProgram.visits, v.Typed sampleProgram.annotated a.typeOf?) ∧
    (∀ n ∈ sampleProgram.nodes, n.kind.isExpr = true → (a.typeOf? n.tag).isSome = true) ∧
    ∀ m ∈ sampleProgram.methods, ∀ n ∈ m.nodes, n.kind = .ret →
      a.typeOf? n.tag = some m.returnType := by
  obtain ⟨c, made⟩ := sampleCompiles
  obtain ⟨a, analyzed, _⟩ := compileParts made
  exact ⟨a, analyzed, typesAgree (by decide +kernel) analyzed⟩

end Program

end
end ClassCompiler
