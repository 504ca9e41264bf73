import ClassCompiler.Proofs.Alongside

/-! What the check of a method leaves alone. It marks variables of the scopes around what it checks, so
the scopes of the methods further down are as the first walk has left them, and so is the root, whose only
variable has a value from the start. -/
namespace ClassCompiler

/-- The check has passed these nodes and has not come to the scopes from `bound` on. -/
structure Progress.Spares (p : Program NodeId) (bound : Nat) (passed : List NodeId) (q : Progress) :
    Prop where
  ordered : q.scopes.Ordered
  size : q.scopes.size = p.annotated.scopes.size
  root : q.scopes.scope ScopeTree.root = p.annotated.scopes.scope ScopeTree.root
  beyond : ∀ k, bound ≤ k → q.scopes.scope k = p.annotated.scopes.scope k
  object : p.tag ∈ q.reached
  reached : q.reached ⊆ p.tag :: passed

section
variable {p : Program NodeId} {bound id : Nat} {passed : List NodeId} {q : Progress}

theorem Program.rootReady {x : String} {v : Variable}
    (found : p.annotated.scopes.symbol? ScopeTree.root x = some (.var v)) : v.initialized = true := by
  rcases (p.annotatedWalks.scope ScopeTree.root Nat.zero_lt_one).symbol x with
    kept | ⟨_, _, none, _⟩ | ⟨_, _, method⟩
  · have start := kept.symm.trans found
    rw [← ScopeTree.symbol?, Program.begunSymbol] at start
    split at start
    · cases start
      rfl
    · contradiction
  · contradiction
  · cases method.symm.trans found

namespace Progress.Spares

theorem tell (spares : q.Spares p bound passed) (ds : List Diagnostic) :
    Progress.Spares p bound passed { q with diagnostics := ds } :=
  ⟨spares.ordered, spares.size, spares.root, spares.beyond, spares.object, spares.reached⟩

theorem expectType (spares : q.Spares p bound passed) (expected : DataType) (found : Option DataType)
    (span : Span) : (q.expectType expected found span).Spares p bound passed := by
  unfold Progress.expectType
  split
  · split
    · exact spares
    · exact spares.tell _
  · exact spares

theorem reportAll (spares : q.Spares p bound passed) (vs : List Violation) (span : Span) :
    (vs.foldl (fun p v => p.report v span) q).Spares p bound passed := by
  induction vs generalizing q with
  | nil => exact spares
  | cons v rest ih => exact ih (spares.tell _)

theorem reach (spares : q.Spares p bound passed) {n : NodeId} (member : n ∈ passed) :
    (q.reach n).Spares p bound passed where
  ordered := spares.ordered
  size := spares.size
  root := spares.root
  beyond := spares.beyond
  object := List.mem_cons_of_mem _ spares.object
  reached := List.cons_subset.mpr ⟨List.mem_cons_of_mem _ member, spares.reached⟩

theorem receive (spares : q.Spares p bound passed) {ps : List (Param NodeId)}
    (sub : ps.map Param.tag ⊆ passed) : (q.receive ps).Spares p bound passed := by
  induction ps generalizing q with
  | nil => exact spares
  | cons param rest ih =>
    simp only [List.map_cons, List.cons_subset] at sub
    exact ih (spares.reach sub.1) sub.2

theorem mark (spares : q.Spares p bound passed) {home : Nat} (low : home < bound) (x : String) :
    Progress.Spares p bound passed { q with scopes := q.scopes.markInitialized home x } where
  ordered := by
    refine ScopeTree.orderedModify spares.ordered home fun s => ?_
    unfold Scope.markInitialized
    split <;> rfl
  size := (ScopeTree.modifySize ..).trans spares.size
  root := by
    rw [ScopeTree.markInitialized, ScopeTree.scopeModify]
    split
    · -- The variable has its mark already.
      rw [spares.root]
      unfold Scope.markInitialized
      split
      · rename_i v found
        have ready := Program.rootReady found
        have same : { v with initialized := true } = v := by rw [← ready]
        rw [same, Table.insertFound found]
      · rfl
    · exact spares.root
  beyond k high := by
    rw [ScopeTree.markInitialized, ScopeTree.scopeModify, if_neg fun both => ?_]
    · exact spares.beyond k high
    · omega
  object := spares.object
  reached := spares.reached

theorem checkStore (spares : q.Spares p bound passed) (F : Analysis) (low : id < bound) (x : String)
    (span : Span) : (q.checkStore F id x span).2.Spares p bound passed ∧
      ∀ home v, (q.checkStore F id x span).1 = some (home, v) → home < bound := by
  unfold Progress.checkStore
  split
  · rename_i home v found
    refine ⟨spares, fun home' w same => ?_⟩
    cases same
    exact Nat.lt_of_le_of_lt (ScopeTree.resolveLe spares.ordered found) low
  · exact ⟨spares.tell _, fun _ _ none => by contradiction⟩
  · exact ⟨spares.tell _, fun _ _ none => by contradiction⟩

end Progress.Spares

mutual

theorem Expr.checkSpares (F : Analysis) (low : id < bound) : ∀ (e : Expr NodeId) {q : Progress},
    q.Spares p bound passed → (e.check F id q).2.Spares p bound passed
  | .literal .., q, spares | .read .., q, spares | .random .., q, spares => by
    simp only [check]
    exact spares
  | .var _ x span, q, spares => by
    simp only [check, Progress.checkRead]
    split
    · dsimp only
      split
      · exact spares
      · exact spares.tell _
    · exact spares.tell _
    · exact spares.tell _
  | .binary _ op left right, q, spares => by
    have both := right.checkSpares F low (left.checkSpares F low spares)
    simp only [check]
    split
    · exact both.tell _
    · exact both
  | .not _ operand span, q, spares => (operand.checkSpares F low spares).expectType _ _ span
  | .assign _ target value, q, spares => by
    simp only [check]
    split
    · rename_i x name
      obtain ⟨stored, inside⟩ := spares.checkStore F low x target.span
      have both := value.checkSpares F low stored
      dsimp only
      split
      · rename_i home v found
        refine Progress.Spares.mark ?_ (inside home v found) x
        split
        · exact both.expectType _ _ _
        · exact both
      · exact both
    · exact value.checkSpares F low (target.checkSpares F low (spares.tell _))
  | .call _ m args span, q, spares => by
    simp only [check]
    split
    · refine Expr.checkArgsSpares F low args _ ?_
      split
      · exact spares
      · exact spares.tell _
    · exact Expr.checkArgsSpares F low args _ (spares.tell _)
  | .writeLine _ value span, q, spares => by
    simp only [check]
    split
    · exact (value.checkSpares F low spares).tell _
    · exact value.checkSpares F low spares
  | .randomBelow _ bound _, q, spares => (bound.checkSpares F low spares).expectType _ _ _

theorem Expr.checkArgsSpares (F : Analysis) (low : id < bound) : ∀ (es : List (Expr NodeId))
    (types : List DataType) {q : Progress}, q.Spares p bound passed →
      (Expr.checkArgs F id es types q).Spares p bound passed
  | [], _, q, spares => by
    rw [checkArgs]
    exact spares
  | e :: rest, [], q, spares => Expr.checkArgsSpares F low rest [] (e.checkSpares F low spares)
  | e :: rest, type :: types, q, spares =>
    Expr.checkArgsSpares F low rest types ((e.checkSpares F low spares).expectType _ _ _)

end

theorem Declarator.checkSpares {F : Analysis} (low : id < bound) (type : Option DataType) (span : Span)
    (d : Declarator NodeId) (member : d.tag ∈ passed) (spares : q.Spares p bound passed) :
    (d.check F type span id q).Spares p bound passed := by
  have told := spares.reportAll (d.violations F q.scopes id) d.span
  unfold Declarator.check
  cases d.init with
  | none =>
    cases type with
    | none => exact told.reach member
    | some type => exact (told.reach member).expectType type _ span
  | some e =>
    have walked := (Expr.checkSpares F low e told).reach member
    cases type with
    | none => exact walked
    | some type => exact walked.expectType type _ span

theorem Declarator.checkAllSpares {F : Analysis} (low : id < bound) (type : Option DataType) (span : Span)
    (ds : List (Declarator NodeId)) (sub : ds.flatMap Declarator.tags ⊆ passed)
    (spares : q.Spares p bound passed) :
    (Declarator.checkAll F type span id ds q).Spares p bound passed := by
  induction ds generalizing q with
  | nil => exact spares
  | cons d rest ih =>
    simp only [List.flatMap_cons, List.append_subset] at sub
    exact ih sub.2 (d.checkSpares low type span (sub.1 d.tagMem) spares)

theorem Expr.conditionSpares (F : Analysis) (low : id < bound) (e : Expr NodeId) (span : Span)
    (spares : q.Spares p bound passed) : (e.checkCondition F id span q).Spares p bound passed :=
  (e.checkSpares F low spares).expectType _ _ span

mutual

theorem Stmt.checkSpares : ∀ (s : Stmt NodeId) {returns : DataType} {kept : List NodeId} {id : Nat}
    {a : Analysis} {q r : Progress}, s.Run p.annotated kept id a →
      (s.annotate id a).scopes.size ≤ bound → s.tags ⊆ passed → q.Spares p bound passed →
        s.check p.annotated returns id q = .ok r → r.Spares p bound passed
  | .expr _ e _, _, _, id, a, q, r, run, room, sub, spares, done => by
    have low := Nat.lt_of_lt_of_le run.inside (Nat.le_trans (Stmt.annotateWalks _ id a run.inside).size room)
    cases done
    exact e.checkSpares _ low spares
  | .declare n type vars span, _, _, id, a, q, r, run, room, sub, spares, done => by
    have low := Nat.lt_of_lt_of_le run.inside (Nat.le_trans (Stmt.annotateWalks _ id a run.inside).size room)
    simp only [tags, nodes, List.map_cons, List.cons_subset, List.map_flatMap] at sub
    cases done
    exact Declarator.checkAllSpares low type span vars sub.2 spares
  | .ret _ (some e) span, _, _, id, a, q, r, run, room, sub, spares, done => by
    have low := Nat.lt_of_lt_of_le run.inside (Nat.le_trans (Stmt.annotateWalks _ id a run.inside).size room)
    cases done
    exact (e.checkSpares _ low spares).expectType _ _ span
  | .ret _ none span, _, _, _, _, q, r, _, _, _, spares, done => by
    cases done
    exact spares.expectType _ _ span
  | .block n body _, _, _, id, a, q, r, run, room, sub, spares, done => by
    simp only [tags, nodes, List.map_cons, List.cons_subset] at sub
    obtain ⟨known, inner⟩ := run.block
    obtain ⟨k, scope, done⟩ := bindOk.mp done
    obtain rfl : a.scopes.size = k := by simpa [known] using Progress.scopeOfOk.mp scope
    rw [Stmt.annotate, Analysis.inScopeSize] at room
    exact Stmt.checkAllSpares body inner room sub.2 spares done
  | .ifThen n cond yes span, _, _, id, a, q, r, run, room, sub, spares, done => by
    simp only [tags, nodes, List.map_cons, List.map_append, List.cons_subset, List.append_subset] at sub
    obtain ⟨known, _, inner⟩ := run.ifThen
    obtain ⟨k, scope, done⟩ := bindOk.mp done
    obtain rfl : a.scopes.size = k := by simpa [known] using Progress.scopeOfOk.mp scope
    rw [Stmt.annotate, Analysis.inScopeSize] at room
    have low := Nat.lt_of_lt_of_le inner.inside (Nat.le_trans (yes.annotateWalks _ _ inner.inside).size room)
    exact yes.checkSpares inner room sub.2.2 (cond.conditionSpares _ low span spares) done
  | .ifElse n cond yes m no span, _, _, id, a, q, r, run, room, sub, spares, done => by
    simp only [tags, nodes, List.map_cons, List.map_append, List.cons_subset, List.append_subset] at sub
    obtain ⟨_, ⟨_, first⟩, _, second⟩ := sub
    obtain ⟨before, _, other, noRun⟩ := run.ifElse
    obtain ⟨known, _, inner⟩ := before.ifThen
    obtain ⟨earlier, _, left⟩ := Stmt.elseRoom room
    obtain ⟨k, scope, done⟩ := bindOk.mp done
    obtain ⟨middle, one, done⟩ := bindOk.mp done
    obtain ⟨l, beside, done⟩ := bindOk.mp done
    obtain rfl : a.scopes.size = k := by simpa [known] using Progress.scopeOfOk.mp scope
    obtain rfl : _ = l := by simpa [other] using Progress.scopeOfOk.mp beside
    rw [Stmt.annotate, Analysis.inScopeSize] at earlier
    have low := Nat.lt_of_lt_of_le inner.inside
      (Nat.le_trans (yes.annotateWalks _ _ inner.inside).size earlier)
    have passed := yes.checkSpares inner earlier first (cond.conditionSpares _ low span spares) one
    exact no.checkSpares noRun left second passed done
  | .loop n cond body span, _, _, id, a, q, r, run, room, sub, spares, done => by
    simp only [tags, nodes, List.map_cons, List.map_append, List.cons_subset, List.append_subset] at sub
    obtain ⟨known, _, inner⟩ := run.loop
    obtain ⟨k, scope, done⟩ := bindOk.mp done
    obtain rfl : a.scopes.size = k := by simpa [known] using Progress.scopeOfOk.mp scope
    rw [Stmt.annotate, Analysis.inScopeSize] at room
    have low := Nat.lt_of_lt_of_le inner.inside (Nat.le_trans (body.annotateWalks _ _ inner.inside).size room)
    exact body.checkSpares inner room sub.2.2 (cond.conditionSpares _ low span spares) done

theorem Stmt.checkAllSpares : ∀ (ss : List (Stmt NodeId)) {returns : DataType} {kept : List NodeId}
    {id : Nat} {a : Analysis} {q r : Progress}, Stmt.RunAll p.annotated kept id ss a →
      (Stmt.annotateAll ss id a).scopes.size ≤ bound → Stmt.tagsAll ss ⊆ passed →
        q.Spares p bound passed → Stmt.checkAll p.annotated returns ss id q = .ok r →
          r.Spares p bound passed
  | [], _, _, _, _, q, r, _, _, _, spares, done => by
    cases done
    exact spares
  | s :: rest, _, _, id, a, q, r, run, room, sub, spares, done => by
    simp only [tagsAll, nodesAll, List.map_append, List.append_subset] at sub
    obtain ⟨here, later⟩ := run.cons
    obtain ⟨middle, one, done⟩ := bindOk.mp done
    have first : (s.annotate id a).scopes.size ≤ bound :=
      Nat.le_trans (Stmt.annotateAllWalks rest id _ later.inside).size room
    exact Stmt.checkAllSpares rest later room sub.2 (s.checkSpares here first sub.1 spares one) done

end

theorem Method.returnSpares {F : Analysis} {m : Method NodeId} {r : Progress}
    (spares : q.Spares p bound passed) (done : m.checkReturn F q = .ok r) : r.Spares p bound passed := by
  unfold Method.checkReturn at done
  split at done
  · cases done
    exact spares
  · obtain ⟨_, _, done⟩ := bindOk.mp done
    cases done
    split
    · exact spares
    · exact spares.tell _

theorem Method.checkSpares {m : Method NodeId} {kept : List NodeId} {a : Analysis} {r : Progress}
    (run : m.Run p.annotated kept a) (room : (m.annotate a).scopes.size ≤ bound) (sub : m.tags ⊆ passed)
    (spares : q.Spares p bound passed) (done : m.check p.annotated q = .ok r) :
    r.Spares p bound passed := by
  simp only [m.tagsEq, List.cons_subset, List.append_subset] at sub
  obtain ⟨_, params, _, stmts⟩ := sub
  obtain ⟨_, _, known, body⟩ := run.body
  have told : (if 1 < p.annotated.methods.count m.name then q.report (.duplicateMethod m.name) m.span
      else q).Spares p bound passed := by
    split
    · exact spares.tell _
    · exact spares
  obtain ⟨_, _, done⟩ := bindOk.mp done
  obtain ⟨middle, returned, done⟩ := bindOk.mp done
  obtain ⟨k, scope, done⟩ := bindOk.mp done
  obtain rfl : (opened a m).scopes.size = k := by simpa [known] using Progress.scopeOfOk.mp scope
  have onward := Method.returnSpares (told.receive params) returned
  rw [m.annotateSize] at room
  exact Stmt.checkAllSpares m.body.stmts body room stmts onward done

theorem Method.checkAllSpares {ms rest : List (Method NodeId)} {kept : List NodeId} {a : Analysis}
    {r : Progress} (run : Method.RunAll p.annotated kept (ms ++ rest) a)
    (room : (Method.annotateAll ms a).scopes.size ≤ bound) (sub : ms.flatMap Method.tags ⊆ passed)
    (spares : q.Spares p bound passed) (done : Method.checkAll p.annotated ms q = .ok r) :
    r.Spares p bound passed := by
  induction ms generalizing kept a q with
  | nil =>
    cases done
    exact spares
  | cons m others ih =>
    simp only [List.flatMap_cons, List.append_subset] at sub
    obtain ⟨here, later⟩ := Method.RunAll.cons run
    obtain ⟨middle, one, done⟩ := bindOk.mp done
    have first : (m.annotate a).scopes.size ≤ bound :=
      Nat.le_trans (Method.annotateAllWalks others _ later.rooted).size room
    exact ih later room sub.2 (Method.checkSpares here first sub.1 spares one) done

end

end ClassCompiler
