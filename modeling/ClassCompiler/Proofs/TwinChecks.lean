import ClassCompiler.Proofs.Gathering
import ClassCompiler.Proofs.TwinWalks

/-! The check of the same method at two places. It reads what the analyses say about the method, which
names are taken, and which nodes have been reached, so it reports the same on both sides. -/
namespace ClassCompiler

/-- The checks have come equally far in the method, and have reported the same since its start. -/
structure Progress.Twin (c : Renumbering) (limit : Nat) (before before' : List Diagnostic)
    (q r : Progress) : Prop where
  scopes : q.scopes.Twin c limit r.scopes
  reached : ∀ n, c.Owns n → (c.node n ∈ r.reached ↔ n ∈ q.reached)
  told : ∃ ds, q.diagnostics = before ++ ds ∧ r.diagnostics = before' ++ ds

section
variable {c : Renumbering} {limit i j : Nat} {before before' : List Diagnostic} {q r : Progress}
  {F G : Analysis}

namespace Progress.Twin

theorem tell (twin : q.Twin c limit before before' r) (d : Diagnostic) :
    Progress.Twin c limit before before' { q with diagnostics := q.diagnostics ++ [d] }
      { r with diagnostics := r.diagnostics ++ [d] } := by
  obtain ⟨ds, here, there⟩ := twin.told
  exact ⟨twin.scopes, twin.reached, ds ++ [d], by simp [here], by simp [there]⟩

theorem report (twin : q.Twin c limit before before' r) (v : Violation) (span : Span) :
    (q.report v span).Twin c limit before before' (r.report v span) := twin.tell ⟨v, span, .start⟩

theorem reportAll (twin : q.Twin c limit before before' r) (vs : List Violation) (span : Span) :
    (vs.foldl (fun p v => p.report v span) q).Twin c limit before before'
      (vs.foldl (fun p v => p.report v span) r) := by
  induction vs generalizing q r with
  | nil => exact twin
  | cons v rest ih => exact ih (twin.report v span)

theorem expectType (twin : q.Twin c limit before before' r) (expected : DataType)
    (found : Option DataType) (span : Span) :
    (q.expectType expected found span).Twin c limit before before'
      (r.expectType expected found span) := by
  unfold Progress.expectType
  split
  · split
    · exact twin
    · exact twin.report _ span
  · exact twin

theorem reach (twin : q.Twin c limit before before' r) {n : NodeId} (member : n ∈ c.nodes) :
    (q.reach n).Twin c limit before before' (r.reach (c.number n)) := by
  refine ⟨twin.scopes, fun m owned => ?_, twin.told⟩
  simp only [Progress.reach, List.mem_cons, twin.reached m owned, ← Renumbering.nodeNumber member,
    Renumbering.nodeIff owned (.inr member)]

theorem receive (twin : q.Twin c limit before before' r) {ps : List (Param NodeId)}
    (sub : ps.map Param.tag ⊆ c.nodes) : (q.receive ps).Twin c limit before before'
      (r.receive (ps.map (Param.retag c.number))) := by
  induction ps generalizing q r with
  | nil => exact twin
  | cons param rest ih =>
    simp only [List.map_cons, List.cons_subset] at sub
    exact ih (twin.reach sub.1) sub.2

theorem mark (twin : q.Twin c limit before before' r) (pair : c.Pair i j) (x : String) :
    Progress.Twin c limit before before' { q with scopes := q.scopes.markInitialized i x }
      { r with scopes := r.scopes.markInitialized j x } :=
  ⟨twin.scopes.markInitialized pair x, twin.reached, twin.told⟩

theorem resolve (twin : q.Twin c limit before before' r) (within : c.Within limit i j) (x : String) :
    Option.Rel (fun a b => c.Within limit a.1 b.1 ∧ a.2.OwnedBy c ∧ b.2 = a.2.renumber c)
      (q.resolve i x) (r.resolve j x) := by
  refine twin.scopes.resolve within x fun s owned => ?_
  cases s with
  | method m => rfl
  | var v =>
    rw [Bool.eq_iff_iff]
    simpa [Progress.sees, Symbol.renumber] using twin.reached v.declaredAt owned

theorem checkRead (twin : q.Twin c limit before before' r) (within : c.Within limit i j)
    (names : ∀ x, G.methods.contains x = F.methods.contains x) (x : String) (span : Span) :
    (r.checkRead G j x span).1 = (q.checkRead F i x span).1 ∧
      (q.checkRead F i x span).2.Twin c limit before before' (r.checkRead G j x span).2 := by
  have means := twin.resolve within x
  unfold Progress.checkRead
  generalize q.resolve i x = found at means ⊢
  generalize r.resolve j x = found' at means ⊢
  cases means with
  | none =>
    simp only [MethodTable.unresolved, names, true_and]
    exact twin.report _ span
  | @some a b same =>
    obtain ⟨home, s⟩ := a
    obtain ⟨home', s'⟩ := b
    obtain ⟨_, _, rfl⟩ := same
    cases s with
    | method m => exact ⟨rfl, twin.report _ span⟩
    | var v =>
      simp only [Symbol.renumber, true_and]
      split
      · exact twin
      · exact twin.report _ span

theorem checkStore (twin : q.Twin c limit before before' r) (within : c.Within limit i j)
    (names : ∀ x, G.methods.contains x = F.methods.contains x) (x : String) (span : Span) :
    Option.Rel (fun a b => c.Pair a.1 b.1 ∧ b.2.type = a.2.type) (q.checkStore F i x span).1
        (r.checkStore G j x span).1 ∧
      (q.checkStore F i x span).2.Twin c limit before before' (r.checkStore G j x span).2 := by
  have means := twin.resolve within x
  unfold Progress.checkStore
  generalize q.resolve i x = found at means ⊢
  generalize r.resolve j x = found' at means ⊢
  cases means with
  | none =>
    simp only [MethodTable.unresolved, names]
    exact ⟨.none, twin.report _ span⟩
  | @some a b same =>
    obtain ⟨home, s⟩ := a
    obtain ⟨home', s'⟩ := b
    obtain ⟨pair, _, rfl⟩ := same
    cases s with
    | method m => exact ⟨.none, twin.report _ span⟩
    | var v => exact ⟨.some ⟨pair.1, rfl⟩, twin⟩

theorem assigned (twin : q.Twin c limit before before' r) (pair : c.Pair i j) (x : String)
    {v w : Variable} (same : w.type = v.type) (found : Option DataType) (span : Span) :
    (q.assigned i x v found span).Twin c limit before before' (r.assigned j x w found span) := by
  simp only [Progress.assigned, same]
  refine Twin.mark ?_ pair x
  split
  · exact twin.expectType _ found span
  · exact twin

end Progress.Twin

mutual

theorem Expr.checkTwin (same : F.Twin c limit G) (within : c.Within limit i j)
    (names : ∀ x, G.methods.contains x = F.methods.contains x) :
    ∀ (e : Expr NodeId) {q r : Progress}, q.Twin c limit before before' r →
      ((e.retag c.number).check G j r).1 = (e.check F i q).1 ∧
        (e.check F i q).2.Twin c limit before before' ((e.retag c.number).check G j r).2
  | .literal .., q, r, twin => by
    simp only [retag, check, true_and]
    exact twin
  | .read .., q, r, twin => by
    simp only [retag, check, true_and]
    exact twin
  | .random .., q, r, twin => by
    simp only [retag, check, true_and]
    exact twin
  | .var _ x span, q, r, twin => by
    simp only [retag, check]
    exact twin.checkRead within names x span
  | .binary _ op left right, q, r, twin => by
    obtain ⟨one, walked⟩ := left.checkTwin same within names twin
    obtain ⟨two, walked⟩ := right.checkTwin same within names walked
    simp only [retag, check, one, two, Expr.spanRetag, true_and]
    split
    · exact walked.report _ _
    · exact walked
  | .not _ operand span, q, r, twin => by
    obtain ⟨type, walked⟩ := operand.checkTwin same within names twin
    simp only [retag, check, type, true_and]
    exact walked.expectType _ _ span
  | .assign _ target value, q, r, twin => by
    simp only [retag, check, Expr.asNameRetag, Expr.spanRetag]
    cases target.asName with
    | none =>
      obtain ⟨_, walked⟩ := target.checkTwin same within names
        (twin.report .invalidAssignmentTarget target.span)
      exact value.checkTwin same within names walked
    | some x =>
      obtain ⟨means, stored⟩ := twin.checkStore within names x target.span
      obtain ⟨type, walked⟩ := value.checkTwin same within names stored
      simp only [type, true_and]
      generalize (q.checkStore F i x target.span).1 = found at means ⊢
      generalize (r.checkStore G j x target.span).1 = found' at means ⊢
      cases means with
      | none => exact walked
      | some both => exact walked.assigned both.1 x both.2 _ _
  | .call _ m args span, q, r, twin => by
    simp only [retag, check, Expr.lengthRetag]
    rcases same.usesCases m with ⟨here, there⟩ | ⟨s, s', here, there, returns, params⟩
    · rw [here, there]
      exact ⟨rfl, Expr.checkArgsTwin same within names args [] (twin.report _ span)⟩
    · rw [here, there]
      simp only [returns, params, true_and]
      refine Expr.checkArgsTwin same within names args s.params ?_
      split
      · exact twin
      · exact twin.report _ span
  | .writeLine _ value span, q, r, twin => by
    obtain ⟨type, walked⟩ := value.checkTwin same within names twin
    simp only [retag, check, type, true_and]
    split
    · exact walked.report _ span
    · exact walked
  | .randomBelow _ bound _, q, r, twin => by
    obtain ⟨type, walked⟩ := bound.checkTwin same within names twin
    simp only [retag, check, type, Expr.spanRetag, true_and]
    exact walked.expectType _ _ _

theorem Expr.checkArgsTwin (same : F.Twin c limit G) (within : c.Within limit i j)
    (names : ∀ x, G.methods.contains x = F.methods.contains x) :
    ∀ (es : List (Expr NodeId)) (types : List DataType) {q r : Progress},
      q.Twin c limit before before' r → (Expr.checkArgs F i es types q).Twin c limit before before'
        (Expr.checkArgs G j (Expr.retagAll c.number es) types r)
  | [], _, q, r, twin => by
    simp only [retagAll, checkArgs]
    exact twin
  | e :: rest, [], q, r, twin => by
    obtain ⟨_, walked⟩ := e.checkTwin same within names twin
    simp only [retagAll, checkArgs]
    exact Expr.checkArgsTwin same within names rest [] walked
  | e :: rest, type :: types, q, r, twin => by
    obtain ⟨known, walked⟩ := e.checkTwin same within names twin
    simp only [retagAll, checkArgs, known, Expr.spanRetag]
    exact Expr.checkArgsTwin same within names rest types (walked.expectType _ _ _)

end

theorem Declarator.violationsTwin (same : F.Twin c limit G) (within : c.Within limit i j)
    (names : ∀ x, G.methods.contains x = F.methods.contains x) {t u : ScopeTree}
    (scopes : t.Twin c limit u) {d : Declarator NodeId} (member : d.tag ∈ c.nodes) :
    (d.retag c.number).violations G u j = d.violations F t i := by
  simp only [violations, retag, same.types d.tag member, names, scopes.declarationCount within]

theorem Declarator.checkTwin (same : F.Twin c limit G) (within : c.Within limit i j)
    (names : ∀ x, G.methods.contains x = F.methods.contains x) (type : Option DataType) (span : Span)
    (d : Declarator NodeId) (sub : d.tags ⊆ c.nodes) (twin : q.Twin c limit before before' r) :
    (d.check F type span i q).Twin c limit before before'
      ((d.retag c.number).check G type span j r) := by
  have member := sub d.tagMem
  have told := twin.reportAll (d.violations F q.scopes i) d.span
  simp only [Declarator.check, Declarator.violationsTwin same within names twin.scopes member]
  cases given : d.init with
  | none =>
    simp only [retag, given, Option.map_none]
    cases type with
    | none => exact told.reach member
    | some type => exact (told.reach member).expectType type none span
  | some e =>
    obtain ⟨known, walked⟩ := e.checkTwin same within names told
    simp only [retag, given, Option.map_some, known]
    cases type with
    | none => exact walked.reach member
    | some type => exact (walked.reach member).expectType type _ span

theorem Declarator.checkAllTwin (same : F.Twin c limit G) (within : c.Within limit i j)
    (names : ∀ x, G.methods.contains x = F.methods.contains x) (type : Option DataType) (span : Span)
    (ds : List (Declarator NodeId)) (sub : ds.flatMap Declarator.tags ⊆ c.nodes)
    (twin : q.Twin c limit before before' r) :
    (Declarator.checkAll F type span i ds q).Twin c limit before before'
      (Declarator.checkAll G type span j (ds.map (Declarator.retag c.number)) r) := by
  induction ds generalizing q r with
  | nil => exact twin
  | cons d rest ih =>
    simp only [List.flatMap_cons, List.append_subset] at sub
    exact ih sub.2 (d.checkTwin same within names type span sub.1 twin)

theorem Expr.conditionTwin (same : F.Twin c limit G) (within : c.Within limit i j)
    (names : ∀ x, G.methods.contains x = F.methods.contains x) (e : Expr NodeId) (span : Span)
    (twin : q.Twin c limit before before' r) :
    (e.checkCondition F i span q).Twin c limit before before'
      ((e.retag c.number).checkCondition G j span r) := by
  obtain ⟨type, walked⟩ := e.checkTwin same within names twin
  simp only [checkCondition, type]
  exact walked.expectType _ _ span

theorem Analysis.Twin.scopesFound (same : F.Twin c limit G) {n : NodeId} (member : n ∈ c.nodes)
    {k l : Nat} (here : q.scopeOf F n = .ok k) (there : r.scopeOf G (c.number n) = .ok l) :
    c.Within limit k l := by
  have both := same.bound n member
  rw [Progress.scopeOfOk.mp here, Progress.scopeOfOk.mp there] at both
  cases both with
  | some within => exact within

mutual

theorem Stmt.checkTwin (same : F.Twin c limit G) (names : ∀ x, G.methods.contains x = F.methods.contains x)
    {returns : DataType} : ∀ (s : Stmt NodeId) {i j : Nat} {q r q' r' : Progress}, s.tags ⊆ c.nodes →
      c.Within limit i j → q.Twin c limit before before' r → s.check F returns i q = .ok q' →
        (s.retag c.number).check G returns j r = .ok r' → q'.Twin c limit before before' r'
  | .expr _ e _, i, j, q, r, q', r', sub, within, twin, here, there => by
    cases here
    cases there
    exact (e.checkTwin same within names twin).2
  | .declare n type vars span, i, j, q, r, q', r', sub, within, twin, here, there => by
    simp only [tags, nodes, List.map_cons, List.cons_subset, List.map_flatMap] at sub
    cases here
    cases there
    exact Declarator.checkAllTwin same within names type span vars sub.2 twin
  | .ret n (some e) span, i, j, q, r, q', r', sub, within, twin, here, there => by
    simp only [tags, nodes, List.map_cons, List.cons_subset] at sub
    obtain ⟨_, walked⟩ := e.checkTwin same within names twin
    cases here
    cases there
    rw [same.types n sub.1]
    exact walked.expectType _ _ span
  | .ret n none span, i, j, q, r, q', r', sub, within, twin, here, there => by
    simp only [tags, nodes, List.map_cons, List.cons_subset] at sub
    cases here
    cases there
    rw [same.types n sub.1]
    exact twin.expectType _ _ span
  | .block n body _, i, j, q, r, q', r', sub, within, twin, here, there => by
    simp only [tags, nodes, List.map_cons, List.cons_subset] at sub
    obtain ⟨k, scope, here⟩ := bindOk.mp here
    obtain ⟨l, scope', there⟩ := bindOk.mp there
    exact Stmt.checkAllTwin same names body sub.2 (same.scopesFound sub.1 scope scope') twin here there
  | .ifThen n cond yes span, i, j, q, r, q', r', sub, within, twin, here, there => by
    simp only [tags, nodes, List.map_cons, List.map_append, List.cons_subset, List.append_subset] at sub
    obtain ⟨k, scope, here⟩ := bindOk.mp here
    obtain ⟨l, scope', there⟩ := bindOk.mp there
    have inner := same.scopesFound sub.1 scope scope'
    exact yes.checkTwin same names sub.2.2 inner (cond.conditionTwin same inner names span twin) here there
  | .ifElse n cond yes m no span, i, j, q, r, q', r', sub, within, twin, here, there => by
    simp only [tags, nodes, List.map_cons, List.map_append, List.cons_subset, List.append_subset] at sub
    obtain ⟨own, ⟨_, first⟩, other, second⟩ := sub
    obtain ⟨k, scope, here⟩ := bindOk.mp here
    obtain ⟨l, scope', there⟩ := bindOk.mp there
    obtain ⟨p, one, here⟩ := bindOk.mp here
    obtain ⟨p', one', there⟩ := bindOk.mp there
    obtain ⟨k', beside, here⟩ := bindOk.mp here
    obtain ⟨l', beside', there⟩ := bindOk.mp there
    have inner := same.scopesFound own scope scope'
    have middle := yes.checkTwin same names first inner (cond.conditionTwin same inner names span twin)
      one one'
    exact no.checkTwin same names second (same.scopesFound other beside beside') middle here there
  | .loop n cond body span, i, j, q, r, q', r', sub, within, twin, here, there => by
    simp only [tags, nodes, List.map_cons, List.map_append, List.cons_subset, List.append_subset] at sub
    obtain ⟨k, scope, here⟩ := bindOk.mp here
    obtain ⟨l, scope', there⟩ := bindOk.mp there
    have inner := same.scopesFound sub.1 scope scope'
    exact body.checkTwin same names sub.2.2 inner (cond.conditionTwin same inner names span twin) here there

theorem Stmt.checkAllTwin (same : F.Twin c limit G)
    (names : ∀ x, G.methods.contains x = F.methods.contains x) {returns : DataType} :
    ∀ (ss : List (Stmt NodeId)) {i j : Nat} {q r q' r' : Progress}, Stmt.tagsAll ss ⊆ c.nodes →
      c.Within limit i j → q.Twin c limit before before' r → Stmt.checkAll F returns ss i q = .ok q' →
        Stmt.checkAll G returns (Stmt.retagAll c.number ss) j r = .ok r' →
          q'.Twin c limit before before' r'
  | [], i, j, q, r, q', r', _, _, twin, here, there => by
    cases here
    cases there
    exact twin
  | s :: rest, i, j, q, r, q', r', sub, within, twin, here, there => by
    simp only [tagsAll, nodesAll, List.map_append, List.append_subset] at sub
    obtain ⟨p, one, here⟩ := bindOk.mp here
    obtain ⟨p', one', there⟩ := bindOk.mp there
    exact Stmt.checkAllTwin same names rest sub.2 within
      (s.checkTwin same names sub.1 within twin one one') here there

end

theorem Method.checkReturnTwin (same : F.Twin c limit G) {m : Method NodeId} (member : m.body.tag ∈ c.nodes)
    (twin : q.Twin c limit before before' r) {q' r' : Progress} (here : m.checkReturn F q = .ok q')
    (there : (m.retag c.number).checkReturn G r = .ok r') : q'.Twin c limit before before' r' := by
  have type : (m.retag c.number).returnType = m.returnType := rfl
  unfold Method.checkReturn at here there
  rw [type] at there
  split at here
  · rename_i void
    rw [if_pos void] at there
    cases here
    cases there
    exact twin
  · rename_i value
    rw [if_neg value] at there
    obtain ⟨k, scope, here⟩ := bindOk.mp here
    obtain ⟨l, scope', there⟩ := bindOk.mp there
    cases here
    cases there
    rw [(twin.scopes.scope (same.scopesFound member scope scope')).hasReturn]
    split
    · exact twin
    · exact twin.tell _

theorem Method.checkTwin (same : F.Twin c limit G) (counts : ∀ x, G.methods.count x = F.methods.count x)
    (m : Method NodeId) (sub : m.tags ⊆ c.nodes) (twin : q.Twin c limit before before' r)
    {q' r' : Progress} (here : m.check F q = .ok q') (there : (m.retag c.number).check G r = .ok r') :
    q'.Twin c limit before before' r' := by
  have names (x : String) : G.methods.contains x = F.methods.contains x := by
    rw [Bool.eq_iff_iff, MethodTable.containsCount, MethodTable.containsCount, counts]
  simp only [m.tagsEq, List.cons_subset, List.append_subset] at sub
  obtain ⟨own, params, body, stmts⟩ := sub
  have told : (if 1 < F.methods.count m.name then q.report (.duplicateMethod m.name) m.span
        else q).Twin c limit before before'
      (if 1 < G.methods.count m.name then r.report (.duplicateMethod m.name) m.span else r) := by
    rw [counts]
    split
    · exact twin.report _ _
    · exact twin
  obtain ⟨_, _, here⟩ := bindOk.mp here
  obtain ⟨_, _, there⟩ := bindOk.mp there
  obtain ⟨p, returned, here⟩ := bindOk.mp here
  obtain ⟨p', returned', there⟩ := bindOk.mp there
  obtain ⟨k, scope, here⟩ := bindOk.mp here
  obtain ⟨l, scope', there⟩ := bindOk.mp there
  have middle := Method.checkReturnTwin same body (told.receive params) returned returned'
  exact Stmt.checkAllTwin same names m.body.stmts stmts (same.scopesFound body scope scope') middle here
    there

end

end ClassCompiler
