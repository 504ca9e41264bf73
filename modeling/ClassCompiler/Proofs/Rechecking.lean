import ClassCompiler.Numbering
import ClassCompiler.Proofs.CheckTotal
import ClassCompiler.Proofs.Fitting
import ClassCompiler.Proofs.Frames
import Mathlib.Control.Monad.Basic

/-! Checking a program once more. The check changes nothing but the marks of variables, and which
variables it marks does not hang on the marks, so a second check goes the way of the first and finds
all its marks set already. It reports what the first has reported, except for variables that are read
above the place where they get their value. -/
namespace ClassCompiler

inductive Symbol.Initializes : Symbol → Symbol → Prop where
  | same (s : Symbol) : Initializes s s
  | value (v : Variable) (bare : v.initialized = false) :
      Initializes (.var v) (.var { v with initialized := true })

namespace Symbol.Initializes

theorem trans {s t u : Symbol} (left : s.Initializes t) (right : t.Initializes u) :
    s.Initializes u := by
  cases left with
  | same => exact right
  | value v bare =>
    cases right with
    | same => exact .value v bare
    | value _ again => contradiction

theorem marked (s : Symbol) : s.Initializes s.marked := by
  cases s with
  | method m => exact .same _
  | var v =>
    by_cases ready : v.initialized = true
    · have same : v = { v with initialized := true } := by rw [← ready]
      rw [Symbol.marked, ← same]
      exact .same _
    · exact .value v (by simpa using ready)

theorem markedSame {s t : Symbol} (initializes : s.Initializes t) : t.marked = s.marked := by
  cases initializes <;> rfl

end Symbol.Initializes

namespace ScopeTree

structure Initializes (t u : ScopeTree) : Prop where
  marks : u.blank = t.blank
  symbol : ∀ id x, Option.Rel Symbol.Initializes (t.symbol? id x) (u.symbol? id x)

def markAll (t : ScopeTree) (marks : List (Nat × String)) : ScopeTree :=
  marks.foldl (fun t m => t.markInitialized m.1 m.2) t

theorem relSame (s : Option Symbol) : Option.Rel Symbol.Initializes s s := by
  cases s with
  | none => exact .none
  | some s => exact .some (.same s)

namespace Initializes
variable {t u w : ScopeTree}

theorem refl (t : ScopeTree) : t.Initializes t := ⟨rfl, fun _ _ => relSame _⟩

theorem trans (left : t.Initializes u) (right : u.Initializes w) : t.Initializes w where
  marks := right.marks.trans left.marks
  symbol id x := by
    have first := left.symbol id x
    have second := right.symbol id x
    generalize t.symbol? id x = a at first
    generalize u.symbol? id x = b at first second
    generalize w.symbol? id x = c at second
    cases first with
    | none => exact second
    | some one =>
      cases second with
      | some two => exact .some (one.trans two)

theorem mark (t : ScopeTree) (id : Nat) (x : String) : t.Initializes (t.markInitialized id x) where
  marks := t.blankMark id x
  symbol i y := by
    rw [markedSymbol]
    split
    · cases t.symbol? i y with
      | none => exact .none
      | some s => exact .some (.marked s)
    · exact relSame _

theorem both (initializes : t.Initializes u) (id : Nat) (x : String) :
    (t.markInitialized id x).Initializes (u.markInitialized id x) where
  marks := by rw [blankMark, blankMark, initializes.marks]
  symbol i y := by
    have before := initializes.symbol i y
    rw [markedSymbol, markedSymbol]
    split
    · generalize t.symbol? i y = a at before
      generalize u.symbol? i y = b at before
      cases before with
      | none => exact .none
      | some related =>
        rw [Option.map_some, Option.map_some, related.markedSame]
        exact relSame _
    · exact before

theorem markAll (t : ScopeTree) (marks : List (Nat × String)) : t.Initializes (t.markAll marks) := by
  induction marks generalizing t with
  | nil => exact refl t
  | cons m rest ih => exact (mark t m.1 m.2).trans (ih _)

theorem bothAll (initializes : t.Initializes u) (marks : List (Nat × String)) :
    (t.markAll marks).Initializes (u.markAll marks) := by
  induction marks generalizing t u with
  | nil => exact initializes
  | cons m rest ih => exact ih (initializes.both m.1 m.2)

theorem resolve (initializes : t.Initializes u) (id : Nat) (x : String) {visible : Symbol → Bool}
    (even : ∀ s : Symbol, visible s.blank = visible s) :
    Option.Rel (fun r r' => r'.1 = r.1 ∧ r.2.Initializes r'.2) (t.resolve id x visible)
      (u.resolve id x visible) := by
  have same := sameResolve initializes.marks id x even
  cases here : t.resolve id x visible with
  | none =>
    rw [here, Option.map_none, Option.map_eq_none_iff] at same
    rw [same]
    exact .none
  | some r =>
    obtain ⟨home, s⟩ := r
    cases there : u.resolve id x visible with
    | none => simp [here, there] at same
    | some r' =>
      obtain ⟨home', s'⟩ := r'
      simp only [here, there, Option.map_some, Option.some.injEq, Prod.mk.injEq] at same
      obtain ⟨rfl, _⟩ := same
      have related := initializes.symbol home' x
      rw [(resolveSymbol here).1, (resolveSymbol there).1] at related
      cases related with
      | some related => exact .some ⟨rfl, related⟩

end Initializes

def Ready (t : ScopeTree) (m : Nat × String) : Prop :=
  ∀ v, t.symbol? m.1 m.2 = some (.var v) → v.initialized = true

theorem Ready.marked (t : ScopeTree) (id : Nat) (x : String) :
    (t.markInitialized id x).Ready (id, x) := by
  intro v found
  rw [markedSymbol, if_pos ⟨rfl, rfl⟩] at found
  obtain ⟨s, _, same⟩ := Option.map_eq_some_iff.mp found
  cases s with
  | method m => cases same
  | var w =>
    cases same
    rfl

theorem Ready.later {t u : ScopeTree} {m : Nat × String} (ready : t.Ready m)
    (initializes : t.Initializes u) : u.Ready m := by
  intro v found
  have related := initializes.symbol m.1 m.2
  rw [found] at related
  generalize before : t.symbol? m.1 m.2 = a at related
  cases related with
  | some related =>
    cases related with
    | same => exact ready v before
    | value => rfl

theorem Ready.stays {t : ScopeTree} {m : Nat × String} (ready : t.Ready m) :
    t.markInitialized m.1 m.2 = t := by
  have own : (t.scope m.1).markInitialized m.2 = t.scope m.1 := by
    unfold Scope.markInitialized
    split
    · rename_i v found
      have same : { v with initialized := true } = v := by rw [← ready v found]
      rw [same, Table.insertFound found]
    · rfl
  simp only [markInitialized, modify]
  congr 1
  apply List.ext_getElem?
  intro i
  rw [List.getElem?_modify]
  cases inside : t.scopes[i]? with
  | none => rfl
  | some s =>
    by_cases here : m.1 = i
    · have scope : t.scope m.1 = s := by rw [here, ScopeTree.scope, inside, Option.getD_some]
      rw [scope] at own
      simp [here, own]
    · simp [here]

theorem markAllReady (t : ScopeTree) (marks : List (Nat × String)) :
    ∀ m ∈ marks, (t.markAll marks).Ready m := by
  induction marks generalizing t with
  | nil => simp
  | cons first rest ih =>
    intro m member
    rcases List.mem_cons.mp member with rfl | later
    · exact (Ready.marked t m.1 m.2).later (.markAll _ rest)
    · exact ih _ m later

theorem markAllAgain (t : ScopeTree) (marks : List (Nat × String)) :
    (t.markAll marks).markAll marks = t.markAll marks := by
  -- All the marks are set, so no step of the second round changes anything.
  have ready := t.markAllReady marks
  generalize t.markAll marks = u at ready
  induction marks with
  | nil => rfl
  | cons m rest ih =>
    have here := (ready m (List.mem_cons_self ..)).stays
    have others := ih fun k member => ready k (List.mem_cons_of_mem _ member)
    rw [markAll, List.foldl_cons, here]
    exact others

end ScopeTree

/-- The second list is the first without some reports of variables that have no value. -/
inductive Thinned : List Diagnostic → List Diagnostic → Prop where
  | nil : Thinned [] []
  | keep {ds es} (d : Diagnostic) (rest : Thinned ds es) : Thinned (d :: ds) (d :: es)
  | drop {ds es} (x : String) (span : Span) (rest : Thinned ds es) :
      Thinned (⟨.uninitialized x, span, .start⟩ :: ds) es

namespace Thinned

theorem refl : ∀ ds : List Diagnostic, Thinned ds ds
  | [] => .nil
  | d :: rest => .keep d (refl rest)

theorem append {ds es ds' es' : List Diagnostic} (left : Thinned ds es) (right : Thinned ds' es') :
    Thinned (ds ++ ds') (es ++ es') := by
  induction left with
  | nil => exact right
  | keep d _ ih => exact .keep d ih
  | drop x span _ ih => exact .drop x span ih

end Thinned

namespace Progress

/-- Two checks have come equally far, one from the scopes `t` and one from `u`, and have marked the
same variables on the way. -/
structure Again (t u : ScopeTree) (p q : Progress) : Prop where
  marked : ∃ marks, p.scopes = t.markAll marks ∧ q.scopes = u.markAll marks
  reached : q.reached = p.reached
  told : Thinned p.diagnostics q.diagnostics

namespace Again
variable {t u : ScopeTree} {p q : Progress} {a b : Analysis}

theorem scopes (again : p.Again t u q) (ahead : t.Initializes u) :
    p.scopes.Initializes q.scopes := by
  obtain ⟨marks, here, there⟩ := again.marked
  rw [here, there]
  exact ahead.bothAll marks

theorem tell (again : p.Again t u q) {ds es : List Diagnostic} (thinned : Thinned ds es) :
    Again t u { p with diagnostics := p.diagnostics ++ ds }
      { q with diagnostics := q.diagnostics ++ es } :=
  ⟨again.marked, again.reached, again.told.append thinned⟩

theorem report (again : p.Again t u q) (v : Violation) (span : Span) :
    (p.report v span).Again t u (q.report v span) := again.tell (.refl _)

theorem reportAll (again : p.Again t u q) (vs : List Violation) (span : Span) :
    (vs.foldl (fun p v => p.report v span) p).Again t u
      (vs.foldl (fun p v => p.report v span) q) := by
  induction vs generalizing p q with
  | nil => exact again
  | cons v rest ih => exact ih (again.report v span)

theorem expectType (again : p.Again t u q) (expected : DataType) (found : Option DataType)
    (span : Span) : (p.expectType expected found span).Again t u
      (q.expectType expected found span) := by
  unfold Progress.expectType
  split
  · split
    · exact again
    · exact again.report _ span
  · exact again

theorem reach (again : p.Again t u q) (n : NodeId) : (p.reach n).Again t u (q.reach n) :=
  ⟨again.marked, by rw [Progress.reach, Progress.reach, again.reached], again.told⟩

theorem receive (again : p.Again t u q) (ps : List (Param NodeId)) :
    (p.receive ps).Again t u (q.receive ps) := by
  induction ps generalizing p q with
  | nil => exact again
  | cons param rest ih => exact ih (again.reach param.tag)

theorem mark (again : p.Again t u q) (home : Nat) (x : String) :
    Again t u { p with scopes := p.scopes.markInitialized home x }
      { q with scopes := q.scopes.markInitialized home x } := by
  obtain ⟨marks, here, there⟩ := again.marked
  refine ⟨⟨marks ++ [(home, x)], ?_, ?_⟩, again.reached, again.told⟩
  · simp [here, ScopeTree.markAll]
  · simp [there, ScopeTree.markAll]

theorem resolve (again : p.Again t u q) (ahead : t.Initializes u) (id : Nat) (x : String) :
    Option.Rel (fun r r' => r'.1 = r.1 ∧ r.2.Initializes r'.2) (p.resolve id x) (q.resolve id x) := by
  have sees : q.sees = p.sees := by
    funext s
    cases s <;> simp [Progress.sees, again.reached]
  rw [Progress.resolve, Progress.resolve, sees]
  exact (again.scopes ahead).resolve id x p.seesBlank

theorem checkRead (again : p.Again t u q) (ahead : t.Initializes u) (alike : b.Alike a) (id : Nat)
    (x : String) (span : Span) : (q.checkRead b id x span).1 = (p.checkRead a id x span).1 ∧
      (p.checkRead a id x span).2.Again t u (q.checkRead b id x span).2 := by
  have means := again.resolve ahead id x
  unfold Progress.checkRead
  generalize p.resolve id x = found at means ⊢
  generalize q.resolve id x = found' at means ⊢
  cases means with
  | none =>
    rw [alike.methods]
    exact ⟨rfl, again.report _ span⟩
  | @some r r' same =>
    obtain ⟨home, s⟩ := r
    obtain ⟨home', s'⟩ := r'
    obtain ⟨_, related⟩ := same
    cases related with
    | same =>
      cases s with
      | method m => exact ⟨rfl, again.report _ span⟩
      | var v =>
        refine ⟨rfl, ?_⟩
        dsimp only
        split
        · exact again
        · exact again.report _ span
    | value v bare =>
      -- Only here do the reports differ: the variable has got its value further down.
      simp only [bare, if_true, true_and, Bool.false_eq_true, if_false]
      refine ⟨again.marked, again.reached, ?_⟩
      simpa [Progress.report] using again.told.append (.drop x span .nil)

theorem checkStore (again : p.Again t u q) (ahead : t.Initializes u) (alike : b.Alike a) (id : Nat)
    (x : String) (span : Span) :
    Option.Rel (fun r r' => r'.1 = r.1 ∧ r'.2.type = r.2.type) (p.checkStore a id x span).1
        (q.checkStore b id x span).1 ∧
      (p.checkStore a id x span).2.Again t u (q.checkStore b id x span).2 := by
  have means := again.resolve ahead id x
  unfold Progress.checkStore
  generalize p.resolve id x = found at means ⊢
  generalize q.resolve id x = found' at means ⊢
  cases means with
  | none =>
    rw [alike.methods]
    exact ⟨.none, again.report _ span⟩
  | @some r r' same =>
    obtain ⟨home, s⟩ := r
    obtain ⟨home', s'⟩ := r'
    obtain ⟨place, related⟩ := same
    cases related with
    | same =>
      cases s with
      | method m => exact ⟨.none, again.report _ span⟩
      | var v => exact ⟨.some ⟨place, rfl⟩, again⟩
    | value v bare => exact ⟨.some ⟨place, rfl⟩, again⟩

theorem assigned (again : p.Again t u q) (home : Nat) (x : String) {v w : Variable}
    (same : w.type = v.type) (found : Option DataType) (span : Span) :
    (p.assigned home x v found span).Again t u (q.assigned home x w found span) := by
  simp only [Progress.assigned, same]
  refine mark ?_ home x
  split
  · exact again.expectType _ found span
  · exact again

end Again
end Progress

section
variable {t u : ScopeTree} {a b : Analysis}

mutual

theorem Expr.checkAgain (ahead : t.Initializes u) (alike : b.Alike a) (id : Nat) :
    ∀ (e : Expr NodeId) {p q : Progress}, p.Again t u q →
      (e.check b id q).1 = (e.check a id p).1 ∧ (e.check a id p).2.Again t u (e.check b id q).2
  | .literal .., p, q, again | .read .., p, q, again | .random .., p, q, again => by
    simp only [Expr.check, true_and]
    exact again
  | .var _ x span, p, q, again => again.checkRead ahead alike id x span
  | .binary _ op left right, p, q, again => by
    obtain ⟨one, walked⟩ := left.checkAgain ahead alike id again
    obtain ⟨two, walked⟩ := right.checkAgain ahead alike id walked
    simp only [Expr.check, one, two, true_and]
    split
    · exact walked.report _ _
    · exact walked
  | .not _ operand span, p, q, again => by
    obtain ⟨type, walked⟩ := operand.checkAgain ahead alike id again
    simp only [Expr.check, type, true_and]
    exact walked.expectType _ _ span
  | .assign _ target value, p, q, again => by
    simp only [Expr.check]
    cases target.asName with
    | none =>
      obtain ⟨_, walked⟩ := target.checkAgain ahead alike id
        (again.report .invalidAssignmentTarget target.span)
      exact value.checkAgain ahead alike id walked
    | some x =>
      obtain ⟨means, stored⟩ := again.checkStore ahead alike id x target.span
      obtain ⟨type, walked⟩ := value.checkAgain ahead alike id stored
      simp only [type, true_and]
      generalize (p.checkStore a id x target.span).1 = found at means ⊢
      generalize (q.checkStore b id x target.span).1 = found' at means ⊢
      cases means with
      | none => exact walked
      | @some r r' both =>
        obtain ⟨home, v⟩ := r
        obtain ⟨home', w⟩ := r'
        obtain ⟨rfl, same⟩ := both
        exact walked.assigned _ x same _ _
  | .call _ m args span, p, q, again => by
    simp only [Expr.check, alike.methods]
    split
    · refine ⟨rfl, Expr.checkArgsAgain ahead alike id args _ ?_⟩
      split
      · exact again
      · exact again.report _ span
    · exact ⟨rfl, Expr.checkArgsAgain ahead alike id args [] (again.report _ span)⟩
  | .writeLine _ value span, p, q, again => by
    obtain ⟨type, walked⟩ := value.checkAgain ahead alike id again
    simp only [Expr.check, type, true_and]
    split
    · exact walked.report _ span
    · exact walked
  | .randomBelow _ bound _, p, q, again => by
    obtain ⟨type, walked⟩ := bound.checkAgain ahead alike id again
    simp only [Expr.check, type, true_and]
    exact walked.expectType _ _ _

theorem Expr.checkArgsAgain (ahead : t.Initializes u) (alike : b.Alike a) (id : Nat) :
    ∀ (es : List (Expr NodeId)) (types : List DataType) {p q : Progress}, p.Again t u q →
      (Expr.checkArgs a id es types p).Again t u (Expr.checkArgs b id es types q)
  | [], _, p, q, again => by
    simp only [Expr.checkArgs]
    exact again
  | e :: rest, [], p, q, again => by
    obtain ⟨_, walked⟩ := e.checkAgain ahead alike id again
    exact Expr.checkArgsAgain ahead alike id rest [] walked
  | e :: rest, type :: types, p, q, again => by
    obtain ⟨known, walked⟩ := e.checkAgain ahead alike id again
    simp only [Expr.checkArgs, known]
    exact Expr.checkArgsAgain ahead alike id rest types (walked.expectType _ _ _)

end

theorem Declarator.violationsAgain (alike : b.Alike a) {p q : Progress}
    (initializes : p.scopes.Initializes q.scopes) (id : Nat) (d : Declarator NodeId) :
    d.violations b q.scopes id = d.violations a p.scopes id := by
  have counts : q.scopes.declarationCount id d.name = p.scopes.declarationCount id d.name := by
    rw [← ScopeTree.blankDeclarationCount, initializes.marks, ScopeTree.blankDeclarationCount]
  unfold Declarator.violations Analysis.typeOf?
  rw [counts, alike.methods, alike.types]

theorem Declarator.checkAgain (ahead : t.Initializes u) (alike : b.Alike a) (type : Option DataType)
    (span : Span) (id : Nat) (d : Declarator NodeId) {p q : Progress} (again : p.Again t u q) :
    (d.check a type span id p).Again t u (d.check b type span id q) := by
  have told := again.reportAll (d.violations a p.scopes id) d.span
  simp only [Declarator.check, Declarator.violationsAgain alike (again.scopes ahead)]
  cases d.init with
  | none =>
    cases type with
    | none => exact told.reach d.tag
    | some type => exact (told.reach d.tag).expectType type none span
  | some e =>
    obtain ⟨known, walked⟩ := e.checkAgain ahead alike id told
    cases type with
    | none => exact walked.reach d.tag
    | some type =>
      simp only [known]
      exact (walked.reach d.tag).expectType type _ span

theorem Declarator.checkAllAgain (ahead : t.Initializes u) (alike : b.Alike a)
    (type : Option DataType) (span : Span) (id : Nat) (ds : List (Declarator NodeId)) {p q : Progress}
    (again : p.Again t u q) : (Declarator.checkAll a type span id ds p).Again t u
      (Declarator.checkAll b type span id ds q) := by
  induction ds generalizing p q with
  | nil => exact again
  | cons d rest ih => exact ih (d.checkAgain ahead alike type span id again)

theorem Expr.conditionAgain (ahead : t.Initializes u) (alike : b.Alike a) (id : Nat)
    (e : Expr NodeId) (span : Span) {p q : Progress} (again : p.Again t u q) :
    (e.checkCondition a id span p).Again t u (e.checkCondition b id span q) := by
  obtain ⟨type, walked⟩ := e.checkAgain ahead alike id again
  simp only [Expr.checkCondition, type]
  exact walked.expectType _ _ span

theorem Progress.scopeOfAgain (alike : b.Alike a) {p q : Progress} {n : NodeId} {id : Nat}
    (found : p.scopeOf a n = .ok id) : q.scopeOf b n = .ok id := by
  rw [Progress.scopeOfOk] at found ⊢
  rw [alike.scopeIds, found]

mutual

theorem Stmt.checkAgain (ahead : t.Initializes u) (alike : b.Alike a) {returns : DataType} :
    ∀ (s : Stmt NodeId) {id : Nat} {p p' q : Progress}, p.Again t u q →
      s.check a returns id p = .ok p' → ∃ q', s.check b returns id q = .ok q' ∧ p'.Again t u q'
  | .expr _ e _, id, p, p', q, again, done => by
    cases done
    exact ⟨_, rfl, (e.checkAgain ahead alike id again).2⟩
  | .declare _ type vars span, id, p, p', q, again, done => by
    cases done
    exact ⟨_, rfl, Declarator.checkAllAgain ahead alike type span id vars again⟩
  | .ret n (some e) span, id, p, p', q, again, done => by
    cases done
    refine ⟨_, rfl, ?_⟩
    rw [Analysis.typeOf?, Analysis.typeOf?, alike.types]
    exact (e.checkAgain ahead alike id again).2.expectType _ _ span
  | .ret n none span, id, p, p', q, again, done => by
    cases done
    refine ⟨_, rfl, ?_⟩
    rw [Analysis.typeOf?, Analysis.typeOf?, alike.types]
    exact again.expectType _ _ span
  | .block n body _, id, p, p', q, again, done => by
    obtain ⟨inner, scope, done⟩ := bindOk.mp done
    obtain ⟨q', there, walked⟩ := Stmt.checkAllAgain ahead alike body again done
    exact ⟨q', bindOk.mpr ⟨inner, Progress.scopeOfAgain alike scope, there⟩, walked⟩
  | .ifThen n cond yes span, id, p, p', q, again, done => by
    obtain ⟨inner, scope, done⟩ := bindOk.mp done
    obtain ⟨q', there, walked⟩ := yes.checkAgain ahead alike
      (cond.conditionAgain ahead alike inner span again) done
    exact ⟨q', bindOk.mpr ⟨inner, Progress.scopeOfAgain alike scope, there⟩, walked⟩
  | .ifElse n cond yes m no span, id, p, p', q, again, done => by
    obtain ⟨inner, scope, done⟩ := bindOk.mp done
    obtain ⟨middle, first, done⟩ := bindOk.mp done
    obtain ⟨other, beside, done⟩ := bindOk.mp done
    obtain ⟨middle', there, walked⟩ := yes.checkAgain ahead alike
      (cond.conditionAgain ahead alike inner span again) first
    obtain ⟨q', last, walked⟩ := no.checkAgain ahead alike walked done
    exact ⟨q', bindOk.mpr ⟨inner, Progress.scopeOfAgain alike scope, bindOk.mpr ⟨middle', there,
      bindOk.mpr ⟨other, Progress.scopeOfAgain alike beside, last⟩⟩⟩, walked⟩
  | .loop n cond body span, id, p, p', q, again, done => by
    obtain ⟨inner, scope, done⟩ := bindOk.mp done
    obtain ⟨q', there, walked⟩ := body.checkAgain ahead alike
      (cond.conditionAgain ahead alike inner span again) done
    exact ⟨q', bindOk.mpr ⟨inner, Progress.scopeOfAgain alike scope, there⟩, walked⟩

theorem Stmt.checkAllAgain (ahead : t.Initializes u) (alike : b.Alike a) {returns : DataType} :
    ∀ (ss : List (Stmt NodeId)) {id : Nat} {p p' q : Progress}, p.Again t u q →
      Stmt.checkAll a returns ss id p = .ok p' →
        ∃ q', Stmt.checkAll b returns ss id q = .ok q' ∧ p'.Again t u q'
  | [], id, p, p', q, again, done => by
    cases done
    exact ⟨q, rfl, again⟩
  | s :: rest, id, p, p', q, again, done => by
    obtain ⟨middle, first, done⟩ := bindOk.mp done
    obtain ⟨middle', there, walked⟩ := s.checkAgain ahead alike again first
    obtain ⟨q', last, walked⟩ := Stmt.checkAllAgain ahead alike rest walked done
    exact ⟨q', bindOk.mpr ⟨middle', there, last⟩, walked⟩

end

theorem Method.checkReturnAgain (ahead : t.Initializes u) (alike : b.Alike a) {m : Method NodeId}
    {p p' q : Progress} (again : p.Again t u q) (done : m.checkReturn a p = .ok p') :
    ∃ q', m.checkReturn b q = .ok q' ∧ p'.Again t u q' := by
  unfold Method.checkReturn at done ⊢
  split at done
  · rename_i void
    cases done
    exact ⟨q, if_pos void, again⟩
  · rename_i value
    obtain ⟨inner, scope, done⟩ := bindOk.mp done
    cases done
    rw [if_neg value]
    refine ⟨_, bindOk.mpr ⟨inner, Progress.scopeOfAgain alike scope, rfl⟩, ?_⟩
    rw [ScopeTree.blankReturn (again.scopes ahead).marks]
    split
    · exact again
    · exact again.tell (.refl _)

theorem Method.checkAgain (ahead : t.Initializes u) (alike : b.Alike a) {m : Method NodeId}
    {p p' q : Progress} (again : p.Again t u q) (done : m.check a p = .ok p') :
    ∃ q', m.check b q = .ok q' ∧ p'.Again t u q' := by
  have told : (if 1 < a.methods.count m.name then p.report (.duplicateMethod m.name) m.span
        else p).Again t u
      (if 1 < b.methods.count m.name then q.report (.duplicateMethod m.name) m.span else q) := by
    rw [alike.methods]
    split
    · exact again.report _ _
    · exact again
  obtain ⟨_, outer, done⟩ := bindOk.mp done
  obtain ⟨middle, returned, done⟩ := bindOk.mp done
  obtain ⟨inner, scope, done⟩ := bindOk.mp done
  obtain ⟨middle', there, walked⟩ := Method.checkReturnAgain ahead alike (told.receive m.params) returned
  obtain ⟨q', last, walked⟩ := Stmt.checkAllAgain ahead alike m.body.stmts walked done
  exact ⟨q', bindOk.mpr ⟨_, Progress.scopeOfAgain alike outer, bindOk.mpr ⟨middle', there,
    bindOk.mpr ⟨inner, Progress.scopeOfAgain alike scope, last⟩⟩⟩, walked⟩

theorem Method.checkAllAgain (ahead : t.Initializes u) (alike : b.Alike a) {ms : List (Method NodeId)}
    {p p' q : Progress} (again : p.Again t u q) (done : Method.checkAll a ms p = .ok p') :
    ∃ q', Method.checkAll b ms q = .ok q' ∧ p'.Again t u q' := by
  induction ms generalizing p q with
  | nil =>
    cases done
    exact ⟨q, rfl, again⟩
  | cons m rest ih =>
    obtain ⟨middle, first, done⟩ := bindOk.mp done
    obtain ⟨middle', there, walked⟩ := Method.checkAgain ahead alike again first
    obtain ⟨q', last, walked⟩ := ih walked done
    exact ⟨q', bindOk.mpr ⟨middle', there, last⟩, walked⟩

end

namespace Analysis.Alike
variable {a b : Analysis}

theorem sameType (alike : b.Alike a) (n : NodeId) : b.typeOf? n = a.typeOf? n := by
  rw [typeOf?, typeOf?, alike.types]

theorem sameTypeOf (alike : b.Alike a) (n : NodeId) : b.typeOf n = a.typeOf n := by
  rw [Analysis.typeOf, Analysis.typeOf, alike.sameType]

theorem sameScopeOf (alike : b.Alike a) (n : NodeId) : b.scopeOf n = a.scopeOf n := by
  rw [Analysis.scopeOf, Analysis.scopeOf, alike.scopeIds]

theorem sameSlot (alike : b.Alike a) (id : Nat) (x purpose : String) :
    b.localSlot id x purpose = a.localSlot id x purpose := by
  have same : (b.scopes.resolve id x fun _ => true).map (fun r => (r.1, r.2.blank)) =
      (a.scopes.resolve id x fun _ => true).map fun r => (r.1, r.2.blank) :=
    ScopeTree.sameResolve alike.marks id x fun _ => rfl
  unfold localSlot ScopeTree.lookup
  cases here : b.scopes.resolve id x fun _ => true with
  | none =>
    rw [here, Option.map_none, eq_comm, Option.map_eq_none_iff] at same
    rw [same]
  | some r =>
    obtain ⟨home, s⟩ := r
    cases there : a.scopes.resolve id x fun _ => true with
    | none => simp [here, there] at same
    | some r' =>
      obtain ⟨home', s'⟩ := r'
      simp only [here, there, Option.map_some, Option.some.injEq, Prod.mk.injEq] at same
      cases s' with
      | var v =>
        obtain ⟨marked, rfl⟩ := ScopeTree.sameVariable same.2
        rfl
      | method m =>
        cases s with
        | var w => simp [Symbol.blank] at same
        | method w => rfl

theorem sameAssign (alike : b.Alike a) (id : Nat) (node : NodeId) (keep : Bool)
    (target : Expr NodeId) (value : Nat → Except Fault (List Instruction × Nat)) (n : Nat) :
    b.assignCode id node keep target value n = a.assignCode id node keep target value n := by
  unfold assignCode
  cases target.asName <;> simp only [alike.sameSlot, alike.sameTypeOf]

end Analysis.Alike

section
variable {a b : Analysis}

mutual

theorem Expr.codeAlike (alike : b.Alike a) (className : String) (id : Nat) :
    ∀ (e : Expr NodeId) (n : Nat), e.code b className id n = e.code a className id n
  | .literal .., _ | .read .., _ | .random .., _ => rfl
  | .var _ x _, n => by simp only [Expr.code, alike.sameSlot]
  | .binary node op left right, n => by
    simp only [Expr.code, left.codeAlike alike className id, right.codeAlike alike className id,
      alike.sameTypeOf]
  | .not _ operand _, n => by simp only [Expr.code, operand.codeAlike alike className id]
  | .assign node target value, n => by
    simp only [Expr.code, value.codeAlike alike className id, alike.sameAssign]
  | .call _ m args _, n => by
    simp only [Expr.code, Expr.codeAllAlike alike className id args, alike.methods]
  | .writeLine node value _, n => by
    simp only [Expr.code, value.codeAlike alike className id, alike.sameTypeOf]
  | .randomBelow _ bound _, n => by simp only [Expr.code, bound.codeAlike alike className id]

theorem Expr.codeAllAlike (alike : b.Alike a) (className : String) (id : Nat) :
    ∀ (es : List (Expr NodeId)) (n : Nat), Expr.codeAll b className id es n = Expr.codeAll a className id es n
  | [], _ => rfl
  | e :: rest, n => by
    simp only [Expr.codeAll, e.codeAlike alike className id, Expr.codeAllAlike alike className id rest]

end

theorem Expr.codeDroppedAlike (alike : b.Alike a) (className : String) (id : Nat) (node : NodeId)
    (e : Expr NodeId) (n : Nat) :
    e.codeDropped b className id node n = e.codeDropped a className id node n := by
  unfold Expr.codeDropped
  split <;> simp only [Expr.codeAlike alike, alike.sameAssign, alike.sameType]

theorem Declarator.codeAllAlike (alike : b.Alike a) (className : String) (id : Nat)
    (ds : List (Declarator NodeId)) (n : Nat) :
    Declarator.codeAll b className id ds n = Declarator.codeAll a className id ds n := by
  induction ds generalizing n with
  | nil => rfl
  | cons d rest ih =>
    have first : d.code b className id n = d.code a className id n := by
      unfold Declarator.code
      cases d.init <;> simp only [Expr.codeAlike alike, alike.sameSlot]
    simp only [Declarator.codeAll, first, ih]

mutual

theorem Stmt.codeAlike (alike : b.Alike a) (className : String) : ∀ (s : Stmt NodeId) (id n : Nat),
    s.code b className id n = s.code a className id n
  | .expr node e _, id, n => e.codeDroppedAlike alike className id node n
  | .declare _ _ vars _, id, n => Declarator.codeAllAlike alike className id vars n
  | .ret node (some e) _, id, n => by simp only [Stmt.code, e.codeAlike alike, alike.sameTypeOf]
  | .ret node none _, id, n => by simp only [Stmt.code, alike.sameTypeOf]
  | .block node body _, id, n => by
    simp only [Stmt.code, alike.sameScopeOf, Stmt.codeAllAlike alike className body]
  | .ifThen node cond yes _, id, n => by
    simp only [Stmt.code, alike.sameScopeOf, cond.codeAlike alike, yes.codeAlike alike className]
  | .ifElse node cond yes m no _, id, n => by
    simp only [Stmt.code, alike.sameScopeOf, cond.codeAlike alike, yes.codeAlike alike className,
      no.codeAlike alike className]
  | .loop node cond body _, id, n => by
    simp only [Stmt.code, alike.sameScopeOf, cond.codeAlike alike, body.codeAlike alike className]

theorem Stmt.codeAllAlike (alike : b.Alike a) (className : String) :
    ∀ (ss : List (Stmt NodeId)) (id n : Nat),
      Stmt.codeAll b className ss id n = Stmt.codeAll a className ss id n
  | [], _, _ => rfl
  | s :: rest, id, n => by
    simp only [Stmt.codeAll, s.codeAlike alike className, Stmt.codeAllAlike alike className rest]

end

theorem Method.compileAllAlike (alike : b.Alike a) (className : String) (ms : List (Method NodeId))
    (n : Nat) : Method.compileAll b className ms n = Method.compileAll a className ms n := by
  have stack (id : Nat) : (b.scopes.scope id).maxStack = (a.scopes.scope id).maxStack := by
    have both := congrArg (fun t : ScopeTree => (t.scope id).maxStack) alike.marks
    simpa only [ScopeTree.blankScope, Scope.blank] using both
  induction ms generalizing n with
  | nil => rfl
  | cons m rest ih =>
    simp only [Method.compileAll, Method.compile, alike.sameScopeOf, Stmt.codeAllAlike alike, stack,
      ScopeTree.blankLocals alike.marks, ih]

theorem Analysis.Alike.generate (alike : b.Alike a) (options : Options) (p : Program NodeId) :
    b.generate options p = a.generate options p := by
  simp only [Analysis.generate, Method.compileAllAlike alike]

end

def verdict (ds : List Diagnostic) : Except Failure Unit :=
  if ds.isEmpty then .ok () else .error (.violations ds)

namespace Analysis

def recheck (a : Analysis) (p : Program NodeId) : Nat → Analysis
  | 0 => a
  | n + 1 => ((a.recheck p n).check p).2

/-- Nothing has changed but that variables have got values, and no diagnostic is left. -/
structure Initializes (a b : Analysis) : Prop where
  methods : b.methods = a.methods
  types : b.types = a.types
  scopeIds : b.scopeIds = a.scopeIds
  scopes : a.scopes.Initializes b.scopes
  quiet : b.diagnostics = []

theorem Initializes.alike {a b : Analysis} (initializes : a.Initializes b) : b.Alike a :=
  ⟨initializes.methods, initializes.types, initializes.scopeIds, initializes.scopes.marks⟩

theorem startAgain {a b : Analysis} (alike : b.Alike a) (told : Thinned a.diagnostics b.diagnostics)
    (p : Program NodeId) :
    (a.startCheck p).Again a.scopes b.scopes (b.startCheck p) := by
  have start : Progress.Again a.scopes b.scopes ⟨a.scopes, [p.tag], a.diagnostics⟩
      ⟨b.scopes, [p.tag], b.diagnostics⟩ := ⟨⟨[], rfl, rfl⟩, rfl, told⟩
  unfold startCheck
  rw [alike.methods]
  split
  · exact start.report _ _
  · exact start

end Analysis

namespace Program

theorem checkTwice (p : Program NodeId) {a : Analysis} (covers : a.Covers p.nodes)
    (quiet : a.diagnostics = []) :
    ∃ b first later, a.check p = (verdict first, b) ∧ b.check p = (verdict later, b) ∧
      Thinned first later ∧ a.Initializes b := by
  obtain ⟨q, done, checked⟩ := p.checkEnds covers
  -- A check that runs beside itself shows which variables it marks.
  have itself : a.Alike a := ⟨rfl, rfl, rfl, rfl⟩
  obtain ⟨_, _, again⟩ := Method.checkAllAgain (.refl a.scopes) itself
    (Analysis.startAgain itself (.refl _) p) done
  obtain ⟨marks, marked, _⟩ := again.marked
  let b : Analysis := { a with scopes := q.scopes, diagnostics := [] }
  have initializes : a.Initializes b :=
    ⟨rfl, rfl, rfl, show a.scopes.Initializes q.scopes from marked ▸ .markAll a.scopes marks, rfl⟩
  obtain ⟨r, second, again⟩ := Method.checkAllAgain initializes.scopes initializes.alike
    (Analysis.startAgain initializes.alike (quiet ▸ .nil) p) done
  obtain ⟨r', done', checked'⟩ := p.checkEnds (a := b) covers
  obtain rfl := Except.ok.inj (second.symm.trans done')
  obtain ⟨same, here, there⟩ := again.marked
  -- The second check marks the same variables on top of the marks of the first.
  have settled : r.scopes = q.scopes := by
    have scopes : b.scopes = q.scopes := rfl
    rw [there, scopes, here, ScopeTree.markAllAgain]
  refine ⟨b, q.diagnostics, r.diagnostics, checked, ?_, again.told, initializes⟩
  rw [checked', settled]
  rfl

def annotatedFrom (p : Program NodeId) (start : Analysis) : Analysis :=
  (start.declareMethods p).annotate p

theorem recheckStable (p : Program NodeId) {start : Analysis} (quiet : start.diagnostics = []) :
    ∃ first later, Thinned first later ∧ ((p.annotatedFrom start).check p).1 = verdict first ∧
      (∀ n, (p.annotatedFrom start).Initializes ((p.annotatedFrom start).recheck p (n + 1))) ∧
      (∀ n, (((p.annotatedFrom start).recheck p (n + 1)).check p).1 = verdict later) ∧
      ∀ n options, ((p.annotatedFrom start).recheck p n).generate options p =
        (p.annotatedFrom start).generate options p := by
  obtain ⟨b, first, later, once, twice, thinned, initializes⟩ :=
    p.checkTwice (p.annotateCovers start) ((p.annotateOpens start).quiet.trans quiet)
  have settled (n : Nat) : (p.annotatedFrom start).recheck p (n + 1) = b := by
    induction n with
    | zero => exact congrArg Prod.snd once
    | succ n ih =>
      rw [Analysis.recheck, ih, twice]
  refine ⟨first, later, thinned, congrArg Prod.fst once, fun n => ?_, fun n => ?_, fun n options => ?_⟩
  · rw [settled]
    exact initializes
  · rw [settled, twice]
  · cases n with
    | zero => rfl
    | succ n =>
      rw [settled]
      exact initializes.alike.generate options p

/-- A loop reads `x` above the place where `x` gets its value; `y` never gets one. -/
def lateValue : Program NodeId :=
  let bare (x : String) : Declarator Unit := ⟨(), x, none, {}⟩
  let print (x : String) : Stmt Unit := .expr () (.writeLine () (.var () x {}) {}) {}
  let set : Stmt Unit := .expr () (.assign () (.var () "x" {}) (.literal () (.int 1) {})) {}
  let body : List (Stmt Unit) :=
    [.declare () (some .int) [bare "x", bare "y"] {},
      .loop () (.literal () (.bool true) {}) (.block () [print "x", set] {}) {}, print "y"]
  (Program.number ⟨(), [⟨(), "Main", none, [], ⟨(), body, {}⟩, {}⟩]⟩ 0).1

theorem lateValueSettles :
    ((lateValue.annotatedFrom lateValue.annotated).check lateValue).1 =
        verdict [⟨.duplicateMethod "Main", {}, .start⟩, ⟨.uninitialized "x", {}, .start⟩,
          ⟨.uninitialized "y", {}, .start⟩] ∧
      (((lateValue.annotatedFrom lateValue.annotated).recheck lateValue 1).check lateValue).1 =
        verdict [⟨.duplicateMethod "Main", {}, .start⟩, ⟨.uninitialized "y", {}, .start⟩] ∧
      lateValue.annotated.diagnostics = [] ∧ ∃ first later, Thinned first later ∧
        ((lateValue.annotatedFrom lateValue.annotated).check lateValue).1 = verdict first ∧
        (∀ n, (lateValue.annotatedFrom lateValue.annotated).Initializes
          ((lateValue.annotatedFrom lateValue.annotated).recheck lateValue (n + 1))) ∧
        (∀ n, (((lateValue.annotatedFrom lateValue.annotated).recheck lateValue (n + 1)).check
          lateValue).1 = verdict later) ∧
        ∀ n options, ((lateValue.annotatedFrom lateValue.annotated).recheck lateValue n).generate
          options lateValue =
            (lateValue.annotatedFrom lateValue.annotated).generate options lateValue :=
  ⟨by decide +kernel, by decide +kernel, by decide +kernel,
    lateValue.recheckStable (by decide +kernel)⟩

end Program
end ClassCompiler
