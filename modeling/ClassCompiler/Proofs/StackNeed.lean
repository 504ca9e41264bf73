import ClassCompiler.Proofs.Alongside
import ClassCompiler.Proofs.Demand

/-! The counters of the first walk. Over a piece of a program that breaks no rule the counter moves by
the value that the piece leaves, and its maximum is raised to the need of the piece. -/
namespace ClassCompiler

def DataType.width : DataType → Nat
  | .void => 0
  | _ => 1

theorem DataType.widthOne {type : DataType} (solid : type ≠ .void) : type.width = 1 := by
  cases type <;> first | rfl | contradiction

theorem DataType.widthLe (type : DataType) : type.width ≤ 1 := by
  cases type <;> simp [DataType.width]

theorem BinaryOp.yieldsWidth {op : BinaryOp} {type : DataType} (admitted : op.admits type = true) :
    (op.yields type).width = 1 := by
  have solid := (DataType.isValueIff.mp (BinaryOp.admitsValue admitted)).1
  unfold BinaryOp.yields
  cases op.group with
  | arithmetic => exact DataType.widthOne solid
  | relational => rfl
  | logical => rfl

theorem Intrinsic.readWidth (input : Input) : (Intrinsic.read input).resultType.width = 1 := by
  cases input <;> rfl

namespace Analysis

def depth (a : Analysis) (id : Nat) : Nat := (a.scopes.scope id).stackDepth

def peak (a : Analysis) (id : Nat) : Nat := (a.scopes.scope id).maxStack

section
variable {a : Analysis} {id : Nat}

theorem depthPush (inside : id < a.scopes.size) (n : Nat) :
    (a.push id n).depth id = a.depth id + n := by
  simp [depth, push, mapScopes, ScopeTree.push, ScopeTree.scopeModify, inside, Scope.push]

theorem peakPush (inside : id < a.scopes.size) (n : Nat) :
    (a.push id n).peak id = max (a.peak id) (a.depth id + n) := by
  simp [peak, depth, push, mapScopes, ScopeTree.push, ScopeTree.scopeModify, inside, Scope.push]

theorem depthPop (inside : id < a.scopes.size) (n : Nat) :
    (a.pop id n).depth id = a.depth id - n := by
  simp [depth, pop, mapScopes, ScopeTree.pop, ScopeTree.scopeModify, inside, Scope.pop]

theorem peakPop (n : Nat) : (a.pop id n).peak id = a.peak id := by
  simp only [peak, pop, mapScopes, ScopeTree.pop, ScopeTree.scopeModify]
  split <;> rfl

theorem depthSetType (n : NodeId) (type : Option DataType) :
    (a.setType n type).depth id = a.depth id := by simp [depth]

theorem peakSetType (n : NodeId) (type : Option DataType) :
    (a.setType n type).peak id = a.peak id := by simp [peak]

theorem depthUseIntrinsic (i : Intrinsic) (params : List DataType) (span : Span) :
    (a.useIntrinsic id i params span).depth id = a.depth id := by
  simp only [depth, useIntrinsic, ScopeTree.useMethod, ScopeTree.scopeModify]
  split <;> rfl

theorem peakUseIntrinsic (i : Intrinsic) (params : List DataType) (span : Span) :
    (a.useIntrinsic id i params span).peak id = a.peak id := by
  simp only [peak, useIntrinsic, ScopeTree.useMethod, ScopeTree.scopeModify]
  split <;> rfl

theorem useMethodFound (inside : id < a.scopes.size) (below : a.depth id ≤ a.peak id) {m : String}
    {returns : DataType} {params : List DataType}
    (found : a.methods.uses m = some ⟨returns, params⟩) :
    (a.useMethod id m).2.depth id = a.depth id + returns.width ∧
      (a.useMethod id m).2.peak id = max (a.peak id) (a.depth id + returns.width) := by
  obtain ⟨s, declared, same⟩ := Option.map_eq_some_iff.mp found
  cases same
  have used (b : Analysis) (here : b = a.mapScopes fun t => t.useMethod id m ⟨s.returns, s.params⟩) :
      b.depth id = a.depth id ∧ b.peak id = a.peak id ∧ id < b.scopes.size := by
    subst here
    simp only [depth, peak, mapScopes, ScopeTree.useMethod, ScopeTree.scopeModify,
      ScopeTree.modifySize]
    refine ⟨?_, ?_, inside⟩
    · split <;> rfl
    · split <;> rfl
  obtain ⟨depthUsed, peakUsed, insideUsed⟩ := used _ rfl
  by_cases void : s.returns = .void
  · have nothing : s.returns.width = 0 := by rw [void]; rfl
    simp only [useMethod, declared, if_pos void, depthUsed, peakUsed, nothing]
    omega
  · simp only [useMethod, declared, if_neg void, DataType.widthOne void, depthPush insideUsed,
      peakPush insideUsed, depthUsed, peakUsed, and_self]

end
end Analysis

structure Analysis.Agrees (F : Analysis) (p : Program NodeId) (reached : List NodeId) (id : Nat)
    (vars : String → Option DataType) : Prop where
  types : F.Names p reached id vars
  solid : ∀ x type, vars x = some type → type ≠ .void
  params : ∀ m returns params, F.methods.uses m = some ⟨returns, params⟩ → .void ∉ params

structure Expr.Counted (id : Nat) (e : Expr NodeId) (a : Analysis) (type : DataType) : Prop where
  depth : (e.annotate id a).2.depth id = a.depth id + type.width
  peak : (e.annotate id a).2.peak id = max (a.peak id) (a.depth id + e.need)

theorem raisedTwice (top depth x y : Nat) :
    max (max top (depth + x)) (depth + y) = max top (depth + max x y) := by
  rw [Nat.max_assoc, Nat.add_max_add_left]

theorem raisedWithin {x y : Nat} (top depth : Nat) (below : y ≤ x) :
    max (max top (depth + x)) (depth + y) = max top (depth + x) := by
  rw [raisedTwice, Nat.max_eq_left below]

namespace Expr.Counted
variable {a : Analysis} {id : Nat} {type : DataType}

theorem value {e : Expr NodeId} (counted : e.Counted id a type) (value : type.isValue = true) :
    (e.annotate id a).2.depth id = a.depth id + 1 := by
  rw [counted.depth, DataType.widthOne (DataType.isValueIff.mp value).1]

theorem literal (inside : id < a.scopes.size) (n : NodeId) (value : Literal) (span : Span) :
    (Expr.literal n value span).Counted id a value.dataType := by
  have solid : value.dataType ≠ .void := by cases value <;> simp [Literal.dataType]
  refine ⟨?_, ?_⟩
  · simp only [Expr.annotate, Analysis.depthSetType, Analysis.depthPush inside,
      DataType.widthOne solid]
  · simp only [Expr.annotate, Analysis.peakSetType, Analysis.peakPush inside, Expr.need]

theorem var (inside : id < a.scopes.size) (solid : type ≠ .void) (n : NodeId) (x : String)
    (span : Span) : (Expr.var n x span).Counted id a type := by
  refine ⟨?_, ?_⟩
  · simp only [Expr.annotate, Analysis.depthSetType, Analysis.depthPush inside,
      DataType.widthOne solid]
  · simp only [Expr.annotate, Analysis.peakSetType, Analysis.peakPush inside, Expr.need]

theorem logical (inside : id < a.scopes.size) {op : BinaryOp} {left right : Expr NodeId}
    (group : op.group = .logical) (admitted : op.admits type = true) (n : NodeId)
    (l : left.Counted id a type) (r : right.Counted id ((left.annotate id a).2.pop id 1) type) :
    (Expr.binary n op left right).Counted id a (op.yields type) := by
  have value := BinaryOp.admitsValue admitted
  have one : id < (left.annotate id a).2.scopes.size := by simpa [Expr.annotateSize] using inside
  have two : id < (right.annotate id ((left.annotate id a).2.pop id 1)).2.scopes.size := by
    simpa [Expr.annotateSize] using inside
  have three : id < ((right.annotate id ((left.annotate id a).2.pop id 1)).2.pop id
      1).scopes.size := by simpa using two
  have between : ((left.annotate id a).2.pop id 1).depth id = a.depth id := by
    rw [Analysis.depthPop one, l.value value, Nat.add_sub_cancel]
  have behind := r.value value
  have top := r.peak
  rw [between] at behind top
  rw [Analysis.peakPop, l.peak, raisedTwice] at top
  refine ⟨?_, ?_⟩
  · simp only [Expr.annotateLogical group, Analysis.depthSetType, Analysis.depthPush three,
      Analysis.depthPop two, BinaryOp.yieldsWidth admitted, behind, Nat.add_sub_cancel]
  · simp only [Expr.annotateLogical group, Analysis.peakSetType, Analysis.peakPush three,
      Analysis.peakPop, Analysis.depthPop two, Expr.need, if_pos group, top, behind,
      Nat.add_sub_cancel]
    exact raisedWithin _ _ (Nat.le_trans left.needPositive (Nat.le_max_left ..))

theorem strict (inside : id < a.scopes.size) {op : BinaryOp} {left right : Expr NodeId}
    (group : op.group ≠ .logical) (admitted : op.admits type = true) (n : NodeId)
    (l : left.Counted id a type) (r : right.Counted id (left.annotate id a).2 type) :
    (Expr.binary n op left right).Counted id a (op.yields type) := by
  have value := BinaryOp.admitsValue admitted
  have one : id < (right.annotate id (left.annotate id a).2).2.scopes.size := by
    simpa [Expr.annotateSize] using inside
  refine ⟨?_, ?_⟩
  · simp only [Expr.annotateStrict group, Analysis.depthSetType, Analysis.depthPop one,
      BinaryOp.yieldsWidth admitted, r.value value, l.value value, Nat.add_sub_cancel]
  · simp only [Expr.annotateStrict group, Analysis.peakSetType, Analysis.peakPop, Expr.need,
      if_neg group, r.peak, l.peak, l.value value, Nat.add_assoc, raisedTwice]

theorem not {operand : Expr NodeId} (n : NodeId) (span : Span) (o : operand.Counted id a .bool) :
    (Expr.not n operand span).Counted id a .bool := by
  refine ⟨?_, ?_⟩
  · simpa only [Expr.annotate, Analysis.depthSetType] using o.depth
  · simpa only [Expr.annotate, Analysis.peakSetType, Expr.need] using o.peak

theorem writeLine (inside : id < a.scopes.size) {printed : Expr NodeId} (n : NodeId) (span : Span)
    (printable : type.isValue = true) (v : printed.Counted id (a.push id 1) type) :
    (Expr.writeLine n printed span).Counted id a .void := by
  have one : id < (printed.annotate id (a.push id 1)).2.scopes.size := by
    simpa [Expr.annotateSize] using inside
  refine ⟨?_, ?_⟩
  · simp only [Expr.annotate, Analysis.depthSetType, Analysis.depthUseIntrinsic,
      Analysis.depthPop one, DataType.width, v.value printable, Analysis.depthPush inside,
      Nat.add_assoc, Nat.add_sub_cancel, Nat.add_zero]
  · simp only [Expr.annotate, Analysis.peakSetType, Analysis.peakUseIntrinsic, Analysis.peakPop,
      Expr.need, v.peak, Analysis.depthPush inside, Analysis.peakPush inside, Nat.add_assoc,
      raisedTwice, Nat.max_eq_right (Nat.le_add_right 1 printed.need)]

theorem assign (inside : id < a.scopes.size) {given : Expr NodeId} (solid : type ≠ .void)
    (n m : NodeId) (x : String) (span : Span) (v : given.Counted id a type) :
    (Expr.assign n (.var m x span) given).Counted id a type := by
  have one : id < ((given.annotate id a).2.setType m
      ((given.annotate id a).2.nameType? id x)).scopes.size := by
    simpa [Expr.annotateSize] using inside
  have two : id < (((given.annotate id a).2.setType m
      ((given.annotate id a).2.nameType? id x)).push id 1).scopes.size := by simpa using one
  have depth := v.depth
  rw [DataType.widthOne solid] at depth
  refine ⟨?_, ?_⟩
  · rw [DataType.widthOne solid]
    simp only [Expr.annotate, Expr.annotateVarAssign, if_true, Analysis.depthSetType,
      Analysis.depthPop two, Analysis.depthPush one, depth, Nat.add_sub_cancel]
  · simp only [Expr.annotate, Expr.annotateVarAssign, if_true, Analysis.peakSetType,
      Analysis.peakPop, Analysis.peakPush one, Analysis.depthSetType, Expr.need, depth, v.peak,
      Nat.add_assoc, raisedTwice]

theorem call (inside : id < a.scopes.size) {m : String} {args : List (Expr NodeId)}
    {params : List DataType} (n : NodeId) (span : Span)
    (found : a.methods.uses m = some ⟨type, params⟩)
    (depth : (Expr.annotateAll id args (a.push id 1)).depth id =
      (a.push id 1).depth id + args.length)
    (peak : (Expr.annotateAll id args (a.push id 1)).peak id =
      max ((a.push id 1).peak id) ((a.push id 1).depth id + Expr.needAll args)) :
    (Expr.call n m args span).Counted id a type := by
  have one : id < (Expr.annotateAll id args (a.push id 1)).scopes.size := by
    simpa [Expr.annotateAllSize] using inside
  have uses : ((Expr.annotateAll id args (a.push id 1)).pop id (1 + args.length)).methods.uses m =
      a.methods.uses m := by
    have walked := ((Analysis.Walks.push a id 1).trans (Expr.annotateAllWalks id args _)).trans
      (Analysis.Walks.pop _ id (1 + args.length))
    simp only [MethodTable.uses, walked.found]
  have taken : ((Expr.annotateAll id args (a.push id 1)).pop id (1 + args.length)).depth id =
      a.depth id := by
    rw [Analysis.depthPop one, depth, Analysis.depthPush inside, Nat.add_assoc, Nat.add_sub_cancel]
  have still : ((Expr.annotateAll id args (a.push id 1)).pop id (1 + args.length)).peak id =
      max (a.peak id) (a.depth id + (1 + Expr.needAll args)) := by
    rw [Analysis.peakPop, peak, Analysis.depthPush inside, Analysis.peakPush inside, Nat.add_assoc,
      raisedTwice, Nat.max_eq_right (Nat.le_add_right ..)]
  have below : a.depth id ≤ max (a.peak id) (a.depth id + (1 + Expr.needAll args)) :=
    Nat.le_trans (Nat.le_add_right ..) (Nat.le_max_right ..)
  obtain ⟨after, top⟩ := Analysis.useMethodFound
    (show id < ((Expr.annotateAll id args (a.push id 1)).pop id (1 + args.length)).scopes.size by
      simpa using one) (by rw [taken, still]; exact below) (uses.trans found)
  refine ⟨?_, ?_⟩
  · simp only [Expr.annotate, Analysis.depthSetType, after, taken]
  · simp only [Expr.annotate, Analysis.peakSetType, top, taken, still, Expr.need]
    exact raisedWithin _ _ (Nat.le_trans type.widthLe (Nat.le_add_right ..))

theorem read (inside : id < a.scopes.size) (n : NodeId) (input : Input) (span : Span) :
    (Expr.read n input span).Counted id a (Intrinsic.read input).resultType := by
  have one : id < (a.push id 3).scopes.size := by simpa using inside
  have two : id < ((a.push id 3).pop id 3).scopes.size := by simpa using inside
  refine ⟨?_, ?_⟩
  · simp only [Expr.annotate, Analysis.depthSetType, Analysis.depthUseIntrinsic,
      Analysis.depthPush two, Analysis.depthPop one, Analysis.depthPush inside,
      Intrinsic.readWidth, Nat.add_sub_cancel]
  · simp only [Expr.annotate, Analysis.peakSetType, Analysis.peakUseIntrinsic,
      Analysis.peakPush two, Analysis.peakPop, Analysis.depthPop one,
      Analysis.depthPush inside, Analysis.peakPush inside, Expr.need, Nat.add_sub_cancel]
    exact raisedWithin _ _ (by decide)

theorem random (inside : id < a.scopes.size) (n : NodeId) (span : Span) :
    (Expr.random n span).Counted id a .int := by
  have one : id < (a.push id 2).scopes.size := by simpa using inside
  have two : id < ((a.push id 2).pop id 1).scopes.size := by simpa using inside
  have three : id < (((a.push id 2).pop id 1).pop id 1).scopes.size := by simpa using inside
  refine ⟨?_, ?_⟩
  · simp only [Expr.annotate, Analysis.depthSetType, Analysis.depthUseIntrinsic,
      Analysis.depthPush three, Analysis.depthPop two, Analysis.depthPop one,
      Analysis.depthPush inside, DataType.width, Nat.sub_sub, Nat.add_sub_cancel]
  · simp only [Expr.annotate, Analysis.peakSetType, Analysis.peakUseIntrinsic,
      Analysis.peakPush three, Analysis.peakPop, Analysis.depthPop two, Analysis.depthPop one,
      Analysis.depthPush inside, Analysis.peakPush inside, Expr.need, Nat.sub_sub,
      Nat.add_sub_cancel]
    exact raisedWithin _ _ (by decide)

theorem randomBelow (inside : id < a.scopes.size) {bound : Expr NodeId} (n : NodeId) (span : Span)
    (b : bound.Counted id ((a.push id 2).pop id 1) .int) :
    (Expr.randomBelow n bound span).Counted id a .int := by
  have one : id < (a.push id 2).scopes.size := by simpa using inside
  have two : id < (bound.annotate id ((a.push id 2).pop id 1)).2.scopes.size := by
    simpa [Expr.annotateSize] using inside
  have three : id < ((bound.annotate id ((a.push id 2).pop id 1)).2.pop id 2).scopes.size := by
    simpa using two
  have before : ((a.push id 2).pop id 1).depth id = a.depth id + 1 := by
    rw [Analysis.depthPop one, Analysis.depthPush inside, Nat.add_sub_assoc (by decide)]
  have behind := b.value rfl
  have top := b.peak
  rw [before, Nat.add_assoc] at behind top
  rw [Analysis.peakPop, Analysis.peakPush inside, raisedTwice] at top
  refine ⟨?_, ?_⟩
  · simp only [Expr.annotate, Analysis.depthSetType, Analysis.depthUseIntrinsic,
      Analysis.depthPush three, Analysis.depthPop two, DataType.width, behind, Nat.add_sub_cancel]
  · simp only [Expr.annotate, Analysis.peakSetType, Analysis.peakUseIntrinsic,
      Analysis.peakPush three, Analysis.peakPop, Analysis.depthPop two, Expr.need, top, behind,
      Nat.add_sub_cancel]
    exact raisedWithin _ _ (Nat.le_trans (by decide) (Nat.le_max_left 2 _))

end Expr.Counted

section
variable {p : Program NodeId} {F : Analysis} {reached : List NodeId} {id : Nat}
  {vars : String → Option DataType}

mutual

theorem Expr.annotateCounted (agrees : F.Agrees p reached id vars) : ∀ (e : Expr NodeId)
    {type : DataType} {a : Analysis}, e.Run F reached id a → a.Within p reached →
      e.HasType F.methods.uses vars type → e.Counted id a type
  | .literal n value span, _, a, run, within, typed => by
    cases typed
    exact .literal run.inside n value span
  | .var n x span, type, a, run, within, typed => by
    cases typed with
    | var known =>
      exact .var run.inside (agrees.solid x type known) n x span
  | .binary n op left right, _, a, run, within, typed => by
    cases typed with
    | binary first second admitted =>
      have walked := left.annotateWalks id a
      by_cases group : op.group = .logical
      · obtain ⟨leftRun, rightRun⟩ := run.logical group
        have moved := walked.trans (Analysis.Walks.pop _ id 1)
        exact .logical run.inside group admitted n
          (left.annotateCounted agrees leftRun within first)
          (right.annotateCounted agrees rightRun
            (within.walks moved (by simp [Expr.annotateSize])) second)
      · obtain ⟨leftRun, rightRun⟩ := run.strict group
        exact .strict run.inside group admitted n
          (left.annotateCounted agrees leftRun within first)
          (right.annotateCounted agrees rightRun
            (within.walks walked (Expr.annotateSize id left a)) second)
  | .not n operand span, _, a, run, within, typed => by
    cases typed with
    | not condition => exact .not n span (operand.annotateCounted agrees run.not within condition)
  | .assign n target value, type, a, run, within, typed => by
    cases typed with
    | @assign _ m x span _ _ known assigned =>
      exact .assign run.inside (agrees.solid x type known) n m x span
        (value.annotateCounted agrees
          (Expr.assignRun run.toSegment run.inside (List.Sublist.refl _)) within assigned)
  | .call n m args span, _, a, run, within, typed => by
    cases typed with
    | call found given =>
      have below : (a.push id 1).depth id ≤ (a.push id 1).peak id := by
        rw [Analysis.depthPush run.inside, Analysis.peakPush run.inside]
        omega
      obtain ⟨depth, peak⟩ := Expr.annotateAllCounted agrees args run.call
        (within.walks (Analysis.Walks.push a id 1) (Analysis.pushSize a id 1)) below given
        (agrees.params m _ _ found)
      exact .call run.inside n span (by rw [run.uses]; exact found) depth peak
  | .writeLine n value span, _, a, run, within, typed => by
    cases typed with
    | writeLine printed printable =>
      exact .writeLine run.inside n span printable (value.annotateCounted agrees run.writeLine
        (within.walks (Analysis.Walks.push a id 1) (Analysis.pushSize a id 1)) printed)
  | .read n input span, _, a, run, within, typed => by
    cases typed
    exact .read run.inside n input span
  | .random n span, _, a, run, within, typed => by
    cases typed
    exact .random run.inside n span
  | .randomBelow n bound span, _, a, run, within, typed => by
    cases typed with
    | randomBelow limit =>
      have moved := (Analysis.Walks.push a id 2).trans (Analysis.Walks.pop _ id 1)
      exact .randomBelow run.inside n span (bound.annotateCounted agrees run.randomBelow
        (within.walks moved (by simp)) limit)

theorem Expr.annotateAllCounted (agrees : F.Agrees p reached id vars) : ∀ (es : List (Expr NodeId))
    {types : List DataType} {a : Analysis}, Expr.RunAll F reached id es a →
      a.Within p reached → a.depth id ≤ a.peak id → Expr.HaveTypes F.methods.uses vars es types →
      .void ∉ types →
        (Expr.annotateAll id es a).depth id = a.depth id + es.length ∧
          (Expr.annotateAll id es a).peak id = max (a.peak id) (a.depth id + Expr.needAll es)
  | [], _, a, _, _, below, typed, _ => by
    cases typed
    simp only [Expr.annotateAll, Expr.needAll, List.length_nil]
    omega
  | e :: rest, _, a, run, within, below, typed, solid => by
    cases typed with
    | @cons _ _ type types first others =>
      obtain ⟨here, later⟩ := run.cons
      have head := e.annotateCounted agrees here within first
      have one : type.width = 1 := DataType.widthOne fun void => solid (by simp [void])
      have depth := head.depth
      rw [one] at depth
      have still : (e.annotate id a).2.depth id ≤ (e.annotate id a).2.peak id := by
        rw [depth, head.peak]
        exact Nat.le_trans (Nat.add_le_add_left e.needPositive _) (Nat.le_max_right ..)
      obtain ⟨restDepth, restPeak⟩ := Expr.annotateAllCounted agrees rest later
        (within.walks (e.annotateWalks id a) (Expr.annotateSize id e a)) still others
        fun void => solid (List.mem_cons_of_mem _ void)
      simp only [Expr.annotateAll, Expr.needAll, List.length_cons, restDepth, restPeak, depth,
        head.peak, Nat.add_assoc, raisedTwice, Nat.add_comm 1 rest.length, true_and]

end

theorem Expr.Run.recorded {a : Analysis} {kept : List NodeId} {e : Expr NodeId}
    (run : e.Run F kept id a) : F.typeOf? e.tag = (e.annotate id a).2.typeOf? e.tag :=
  run.ahead.type (List.mem_append_left _ e.tagMem)

mutual

theorem Expr.annotateRecorded (names : F.Names p reached id vars) : ∀ (e : Expr NodeId)
    {type : DataType} {a : Analysis}, e.Run F reached id a → a.Within p reached →
      e.HasType F.methods.uses vars type → e.Recorded F.typeOf? (Expr.HasType F.methods.uses vars)
  | .literal .., _, _, _, _, _ | .var .., _, _, _, _, _ | .read .., _, _, _, _, _
  | .random .., _, _, _, _, _ => trivial
  | .binary n op left right, _, a, run, within, typed => by
    have here := run.recorded
    cases typed with
    | binary first second admitted =>
      have walked := left.annotateWalks id a
      by_cases group : op.group = .logical
      · obtain ⟨leftRun, rightRun⟩ := run.logical group
        have moved := walked.trans (Analysis.Walks.pop _ id 1)
        refine ⟨fun type known => ?_, left.annotateRecorded names leftRun within first,
          right.annotateRecorded names rightRun
            (within.walks moved (by simp [Expr.annotateSize])) second⟩
        rw [Expr.annotateLogical group,
          left.annotateTyped names leftRun within known] at here
        exact here.trans (by rw [Option.some_or, Expr.tag, Analysis.typeOfSetType, if_pos rfl])
      · obtain ⟨leftRun, rightRun⟩ := run.strict group
        refine ⟨fun type known => ?_, left.annotateRecorded names leftRun within first,
          right.annotateRecorded names rightRun
            (within.walks walked (Expr.annotateSize id left a)) second⟩
        rw [Expr.annotateStrict group,
          left.annotateTyped names leftRun within known] at here
        exact here.trans (by rw [Option.some_or, Expr.tag, Analysis.typeOfSetType, if_pos rfl])
  | .not n operand span, _, a, run, within, typed => by
    cases typed with
    | not condition => exact operand.annotateRecorded names run.not within condition
  | .assign n target value, type, a, run, within, typed => by
    cases typed with
    | assign known assigned =>
      exact value.annotateRecorded names
        (Expr.assignRun run.toSegment run.inside (List.Sublist.refl _)) within assigned
  | .call n m args span, _, a, run, within, typed => by
    cases typed with
    | call found given =>
      exact Expr.annotateAllRecorded names args run.call
        (within.walks (Analysis.Walks.push a id 1) (Analysis.pushSize a id 1)) given
  | .writeLine n value span, _, a, run, within, typed => by
    have here := run.recorded
    cases typed with
    | writeLine printed printable =>
      have after := within.walks (Analysis.Walks.push a id 1) (Analysis.pushSize a id 1)
      refine ⟨fun type known => ?_, value.annotateRecorded names run.writeLine after printed⟩
      simp only [Expr.annotate, value.annotateTyped names run.writeLine after known,
        Expr.tag] at here
      exact here.trans (by rw [Analysis.typeOfSetType, if_pos rfl])
  | .randomBelow n bound span, _, a, run, within, typed => by
    cases typed with
    | randomBelow limit =>
      have moved := (Analysis.Walks.push a id 2).trans (Analysis.Walks.pop _ id 1)
      exact bound.annotateRecorded names run.randomBelow (within.walks moved (by simp)) limit

theorem Expr.annotateAllRecorded (names : F.Names p reached id vars) :
    ∀ (es : List (Expr NodeId)) {types : List DataType} {a : Analysis},
      Expr.RunAll F reached id es a → a.Within p reached →
      Expr.HaveTypes F.methods.uses vars es types →
        Expr.RecordedAll F.typeOf? (Expr.HasType F.methods.uses vars) es
  | [], _, _, _, _, _ => trivial
  | e :: rest, _, a, run, within, typed => by
    cases typed with
    | cons first others =>
      obtain ⟨here, later⟩ := run.cons
      exact ⟨e.annotateRecorded names here within first, Expr.annotateAllRecorded names rest later
        (within.walks (e.annotateWalks id a) (Expr.annotateSize id e a)) others⟩

end
end
end ClassCompiler
