import ClassCompiler.Compile
import ClassCompiler.Proofs.CleanExpr

/-! Programs in which the check finds nothing to report, by rules over their constructs. The rules
read the finished analysis that the check reads; the check passes a program exactly when they
hold. -/
namespace ClassCompiler

structure Expr.Passes (a : Analysis) (id : Nat) (p : Progress) (e : Expr NodeId) (type : DataType)
    (q : Progress) : Prop where
  typed : e.HasType a.methods.uses (p.types id) type
  used : p.accessAll? id e.accesses = some q

structure Declarator.Allowed (a : Analysis) (id : Nat) (d : Declarator NodeId) : Prop where
  free : a.methods.contains d.name = false
  single : a.scopes.declarationCount id d.name ≤ 1
  typed : ∃ type, a.typeOf? d.tag = some type ∧ type.isValue = true

inductive Declarator.Passes (a : Analysis) (type : Option DataType) (id : Nat) (p : Progress)
    (d : Declarator NodeId) : Progress → Prop where
  | bare (allowed : d.Allowed a id) (missing : d.init = none) : Passes a type id p d (p.reach d.tag)
  | initial {e found q} (allowed : d.Allowed a id) (given : d.init = some e)
      (passes : e.Passes a id p found q)
      (agrees : ∀ expected, type = some expected → found = expected) :
      Passes a type id p d (q.reach d.tag)

inductive Declarator.PassAll (a : Analysis) (type : Option DataType) (id : Nat) :
    Progress → List (Declarator NodeId) → Progress → Prop where
  | nil {p} : PassAll a type id p [] p
  | cons {p d m rest q} (first : d.Passes a type id p m) (others : PassAll a type id m rest q) :
      PassAll a type id p (d :: rest) q

mutual

inductive Stmt.Passes (a : Analysis) (returns : DataType) :
    Nat → Progress → Stmt NodeId → Progress → Prop where
  | expr {id p n e span type q} (passes : e.Passes a id p type q) :
      Passes a returns id p (.expr n e span) q
  | declare {id p n type vars span q} (passes : Declarator.PassAll a type id p vars q) :
      Passes a returns id p (.declare n type vars span) q
  | ret {id p n e span type q} (passes : e.Passes a id p type q)
      (agrees : ∀ found, a.typeOf? n = some found → found = returns) :
      Passes a returns id p (.ret n (some e) span) q
  | leave {id p n span} (agrees : ∀ found, a.typeOf? n = some found → found = returns) :
      Passes a returns id p (.ret n none span) p
  | block {id p n body span inner q} (scope : a.scopeIds.get? n = some inner)
      (passes : Stmt.PassAll a returns inner p body q) :
      Passes a returns id p (.block n body span) q
  | ifThen {id p n cond yes span inner m q} (scope : a.scopeIds.get? n = some inner)
      (condition : cond.Passes a inner p .bool m) (passes : Passes a returns inner m yes q) :
      Passes a returns id p (.ifThen n cond yes span) q
  | ifElse {id p n cond yes elseNode no span inner other m r q}
      (scope : a.scopeIds.get? n = some inner) (condition : cond.Passes a inner p .bool m)
      (passes : Passes a returns inner m yes r) (beside : a.scopeIds.get? elseNode = some other)
      (otherwise : Passes a returns other r no q) :
      Passes a returns id p (.ifElse n cond yes elseNode no span) q
  | loop {id p n cond body span inner m q} (scope : a.scopeIds.get? n = some inner)
      (condition : cond.Passes a inner p .bool m) (passes : Passes a returns inner m body q) :
      Passes a returns id p (.loop n cond body span) q

inductive Stmt.PassAll (a : Analysis) (returns : DataType) :
    Nat → Progress → List (Stmt NodeId) → Progress → Prop where
  | nil {id p} : PassAll a returns id p [] p
  | cons {id p s m rest q} (first : Stmt.Passes a returns id p s m)
      (others : PassAll a returns id m rest q) : PassAll a returns id p (s :: rest) q

end

def Progress.receive (p : Progress) (params : List (Param NodeId)) : Progress :=
  params.foldl (fun p param => p.reach param.tag) p

structure Method.Passes (a : Analysis) (p : Progress) (m : Method NodeId) (q : Progress) : Prop where
  single : a.methods.count m.name ≤ 1
  scope : ∃ outer, a.scopeIds.get? m.tag = some outer
  body : ∃ inner, a.scopeIds.get? m.body.tag = some inner ∧
    (m.returnType ≠ .void → (a.scopes.scope inner).hasReturn = true) ∧
    Stmt.PassAll a m.returnType inner (p.receive m.params) m.body.stmts q

inductive Method.PassAll (a : Analysis) : Progress → List (Method NodeId) → Progress → Prop where
  | nil {p} : PassAll a p [] p
  | cons {p method m rest q} (first : Method.Passes a p method m) (others : PassAll a m rest q) :
      PassAll a p (method :: rest) q

def Analysis.Typed (a : Analysis) (n : NodeId) : Prop :=
  ∀ id x v, a.scopes.symbol? id x = some (.var v) → v.declaredAt = n → v.type ≠ none

namespace Progress

/-- The scopes of a check are those of the analysis up to marks, and what has been reached has a
type. -/
structure Sound (a : Analysis) (p : Progress) : Prop where
  marks : p.scopes.blank = a.scopes.blank
  known : ∀ n ∈ p.reached, a.Typed n

theorem Sound.onward {a : Analysis} {p q : Progress} (sound : p.Sound a) (onward : p.Onward q) :
    q.Sound a :=
  ⟨onward.marks.trans sound.marks, onward.reached ▸ sound.known⟩

theorem Sound.all {a : Analysis} {p : Progress} (sound : p.Sound a) (id : Nat) : p.Known id := by
  intro x home v found
  obtain ⟨here, seen⟩ := ScopeTree.resolveSymbol found
  obtain ⟨marked, there⟩ := ScopeTree.symbolVariable sound.marks here
  have reached : v.declaredAt ∈ p.reached := by simpa [sees] using seen
  exact sound.known _ reached home x { v with initialized := marked } there rfl

end Progress

theorem bindOk {ε α β : Type} {x : Except ε α} {f : α → Except ε β} {result : β} :
    (x >>= f) = .ok result ↔ ∃ value, x = .ok value ∧ f value = .ok result := by
  cases x with
  | error e => simp [bind, Except.bind]
  | ok value => simp [bind, Except.bind]

theorem Progress.scopeOfOk {p : Progress} {a : Analysis} {n : NodeId} {id : Nat} :
    p.scopeOf a n = .ok id ↔ a.scopeIds.get? n = some id := by
  unfold Progress.scopeOf
  rw [← Analysis.scopeOfOk]
  cases a.scopeOf n <;> simp

theorem Expr.Passes.check {a : Analysis} {id : Nat} {p q : Progress} {e : Expr NodeId}
    {type : DataType} (passes : e.Passes a id p type q) : e.check a id p = (some type, q) :=
  e.checkTyped a id passes.typed passes.used

theorem Expr.Passes.onward {a : Analysis} {id : Nat} {p q : Progress} {e : Expr NodeId}
    {type : DataType} (passes : e.Passes a id p type q) : p.Onward q :=
  Progress.accessAllOnward passes.used

theorem Expr.passesClean {a : Analysis} {id : Nat} {p : Progress} {e : Expr NodeId}
    (sound : p.Sound a) (clean : (e.check a id p).2.diagnostics = []) :
    ∃ type, (e.check a id p).1 = some type ∧ e.Passes a id p type (e.check a id p).2 := by
  obtain ⟨type, typed, result, used⟩ := e.checkClean a id (sound.all id) clean
  exact ⟨type, result, typed, used⟩

theorem Expr.Passes.condition {a : Analysis} {id : Nat} {p q : Progress} {e : Expr NodeId}
    (passes : e.Passes a id p .bool q) (span : Span) : e.checkCondition a id span p = q := by
  simp [Expr.checkCondition, passes.check, Progress.expectFits]

theorem Expr.conditionOnward (a : Analysis) (id : Nat) (e : Expr NodeId) (span : Span)
    (p : Progress) : p.Onward (e.checkCondition a id span p) :=
  (e.checkOnward a id p).trans (.expectType _ _ _ span)

theorem Expr.conditionClean {a : Analysis} {id : Nat} {p : Progress} {e : Expr NodeId} {span : Span}
    (sound : p.Sound a) (clean : (e.checkCondition a id span p).diagnostics = []) :
    e.Passes a id p .bool (e.checkCondition a id span p) := by
  unfold Expr.checkCondition at clean ⊢
  obtain ⟨type, result, passes⟩ :=
    Expr.passesClean sound ((Progress.Onward.expectType _ _ _ span).clean clean)
  dsimp only at clean ⊢
  rw [result] at clean ⊢
  obtain rfl := Progress.expectClean clean
  rwa [Progress.expectFits]

namespace Declarator

theorem violationsNone {a : Analysis} {scopes : ScopeTree} (marks : scopes.blank = a.scopes.blank)
    {id : Nat} {d : Declarator NodeId} : d.violations a scopes id = [] ↔ d.Allowed a id := by
  have count : scopes.declarationCount id d.name = a.scopes.declarationCount id d.name := by
    rw [← ScopeTree.blankDeclarationCount, marks, ScopeTree.blankDeclarationCount]
  unfold violations
  rw [count]
  constructor
  · intro none
    simp only [List.append_eq_nil_iff, ite_eq_right_iff, List.cons_ne_nil, imp_false,
      Option.toList_eq_nil_iff, Option.map_eq_none_iff] at none
    obtain ⟨⟨⟨free, known⟩, single⟩, value⟩ := none
    cases typed : a.typeOf? d.tag with
    | none => simp [typed] at known
    | some type =>
      refine ⟨by simpa using free, by omega, type, typed, ?_⟩
      simpa [typed, Option.filter] using value
  · rintro ⟨free, single, type, typed, value⟩
    have few : ¬ 1 < a.scopes.declarationCount id d.name := by omega
    simp [free, few, typed, value, Option.filter]

theorem reportAll (vs : List Violation) (span : Span) (p : Progress) :
    p.Onward (vs.foldl (fun p v => p.report v span) p) := by
  induction vs generalizing p with
  | nil => exact .refl p
  | cons v rest ih => exact (Progress.Onward.report p v span).trans (ih _)

theorem reportAllClean {vs : List Violation} {span : Span} {p : Progress}
    (clean : (vs.foldl (fun p v => p.report v span) p).diagnostics = []) : vs = [] := by
  cases vs with
  | nil => rfl
  | cons v rest => exact Progress.reportTold ((reportAll rest span (p.report v span)).clean clean)

theorem Passes.check {a : Analysis} {type : Option DataType} {id : Nat} {p q : Progress}
    {d : Declarator NodeId} (passes : d.Passes a type id p q)
    (marks : p.scopes.blank = a.scopes.blank) (span : Span) : d.check a type span id p = q := by
  cases passes with
  | bare allowed missing =>
    simp only [Declarator.check, (violationsNone marks).mpr allowed, missing, List.foldl_nil]
    cases type <;> rfl
  | initial allowed given passes agrees =>
    simp only [Declarator.check, (violationsNone marks).mpr allowed, given, List.foldl_nil,
      passes.check]
    cases type with
    | none => rfl
    | some expected =>
      rw [agrees expected rfl]
      exact Progress.expectFits _ _ _

theorem checkTold (a : Analysis) (type : Option DataType) (span : Span) (id : Nat)
    (d : Declarator NodeId) (p : Progress) :
    ((d.violations a p.scopes id).foldl (fun p v => p.report v d.span) p).diagnostics <+:
      (d.check a type span id p).diagnostics := by
  unfold Declarator.check
  generalize (d.violations a p.scopes id).foldl (fun p v => p.report v d.span) p = m
  cases d.init with
  | none =>
    cases type with
    | none => exact List.prefix_refl _
    | some expected => exact List.prefix_refl _
  | some e =>
    have walked := e.checkOnward a id m
    cases type with
    | none => exact walked.told
    | some expected =>
      exact walked.told.trans
        (Progress.Onward.expectType ((e.check a id m).2.reach d.tag) expected _ span).told

theorem checkClean {a : Analysis} {type : Option DataType} {span : Span} {id : Nat}
    {d : Declarator NodeId} {p : Progress} (sound : p.Sound a)
    (clean : (d.check a type span id p).diagnostics = []) :
    d.Passes a type id p (d.check a type span id p) := by
  have none : d.violations a p.scopes id = [] :=
    reportAllClean (List.prefix_nil.mp (clean ▸ d.checkTold a type span id p))
  have allowed := (violationsNone sound.marks).mp none
  simp only [Declarator.check, none, List.foldl_nil] at clean ⊢
  cases given : d.init with
  | none =>
    cases type with
    | none => exact .bare allowed given
    | some expected => exact .bare allowed given
  | some e =>
    simp only [given] at clean
    cases type with
    | none =>
      obtain ⟨found, _, passes⟩ := Expr.passesClean sound clean
      exact .initial allowed given passes (by simp)
    | some expected =>
      obtain ⟨found, result, passes⟩ := Expr.passesClean sound
        ((Progress.Onward.expectType ((e.check a id p).2.reach d.tag) expected _ span).clean clean)
      simp only [result] at clean ⊢
      obtain rfl := Progress.expectClean clean
      rw [Progress.expectFits]
      exact .initial allowed given passes (by simp)

theorem Passes.allowed {a : Analysis} {type : Option DataType} {id : Nat} {p q : Progress}
    {d : Declarator NodeId} (passes : d.Passes a type id p q) : d.Allowed a id := by
  cases passes with
  | bare allowed => exact allowed
  | initial allowed => exact allowed

theorem Passes.marks {a : Analysis} {type : Option DataType} {id : Nat} {p q : Progress}
    {d : Declarator NodeId} (passes : d.Passes a type id p q) :
    q.scopes.blank = p.scopes.blank := by
  cases passes with
  | bare => rfl
  | initial _ _ passes => exact passes.onward.marks

theorem Passes.reached {a : Analysis} {type : Option DataType} {id : Nat} {p q : Progress}
    {d : Declarator NodeId} (passes : d.Passes a type id p q) : q.reached = d.tag :: p.reached := by
  cases passes with
  | bare => rfl
  | initial _ _ passes => simp [Progress.reach, passes.onward.reached]

theorem PassAll.marks {a : Analysis} {type : Option DataType} {id : Nat} {p q : Progress}
    {ds : List (Declarator NodeId)} (passes : PassAll a type id p ds q) :
    q.scopes.blank = p.scopes.blank := by
  induction passes with
  | nil => rfl
  | cons first _ ih => exact ih.trans first.marks

theorem PassAll.reached {a : Analysis} {type : Option DataType} {id : Nat} {p q : Progress}
    {ds : List (Declarator NodeId)} (passes : PassAll a type id p ds q) :
    q.reached = (ds.map Declarator.tag).reverse ++ p.reached := by
  induction passes with
  | nil => rfl
  | cons first _ ih => simp [ih, first.reached]

theorem PassAll.allowed {a : Analysis} {type : Option DataType} {id : Nat} {p q : Progress}
    {ds : List (Declarator NodeId)} (passes : PassAll a type id p ds q) :
    ∀ d ∈ ds, d.Allowed a id := by
  induction passes with
  | nil => simp
  | cons first _ ih =>
    intro d member
    rcases List.mem_cons.mp member with rfl | later
    · exact first.allowed
    · exact ih d later

theorem PassAll.check {a : Analysis} {type : Option DataType} {id : Nat} {p q : Progress}
    {ds : List (Declarator NodeId)} (passes : PassAll a type id p ds q)
    (marks : p.scopes.blank = a.scopes.blank) (span : Span) :
    Declarator.checkAll a type span id ds p = q := by
  induction passes with
  | nil => rfl
  | cons first _ ih =>
    rw [Declarator.checkAll, first.check marks span]
    exact ih (first.marks.trans marks)

theorem checkAllTold (a : Analysis) (type : Option DataType) (span : Span) (id : Nat)
    (ds : List (Declarator NodeId)) (p : Progress) :
    p.diagnostics <+: (Declarator.checkAll a type span id ds p).diagnostics := by
  induction ds generalizing p with
  | nil => exact List.prefix_refl _
  | cons d rest ih =>
    exact ((reportAll _ _ p).told.trans (d.checkTold a type span id p)).trans (ih _)

end Declarator

def Analysis.Noted (a : Analysis) : Prop := ∀ n, a.typeOf? n ≠ none → a.Typed n

theorem Progress.Sound.passed {a : Analysis} (noted : a.Noted) {type : Option DataType} {id : Nat}
    {p q : Progress} {d : Declarator NodeId} (sound : p.Sound a) (passes : d.Passes a type id p q) :
    q.Sound a := by
  refine ⟨passes.marks.trans sound.marks, ?_⟩
  intro n reached
  rw [passes.reached, List.mem_cons] at reached
  rcases reached with rfl | before
  · obtain ⟨type, typed, _⟩ := passes.allowed.typed
    exact noted d.tag (by simp [typed])
  · exact sound.known n before

theorem Declarator.checkAllClean {a : Analysis} (noted : a.Noted) {type : Option DataType}
    {span : Span} {id : Nat} {ds : List (Declarator NodeId)} {p : Progress} (sound : p.Sound a)
    (clean : (Declarator.checkAll a type span id ds p).diagnostics = []) :
    Declarator.PassAll a type id p ds (Declarator.checkAll a type span id ds p) ∧
      (Declarator.checkAll a type span id ds p).Sound a := by
  induction ds generalizing p with
  | nil => exact ⟨.nil, sound⟩
  | cons d rest ih =>
    have quiet : (d.check a type span id p).diagnostics = [] :=
      List.prefix_nil.mp (clean ▸ Declarator.checkAllTold a type span id rest _)
    have first := Declarator.checkClean sound quiet
    obtain ⟨others, still⟩ := ih (sound.passed noted first) clean
    exact ⟨.cons first others, still⟩

mutual

def Stmt.declarators {τ : Type} : Stmt τ → List (Declarator τ)
  | .expr .. | .ret .. => []
  | .declare _ _ vars _ => vars
  | .block _ body _ => Stmt.declaratorsAll body
  | .ifThen _ _ yes _ => yes.declarators
  | .ifElse _ _ yes _ no _ => yes.declarators ++ no.declarators
  | .loop _ _ body _ => body.declarators

def Stmt.declaratorsAll {τ : Type} : List (Stmt τ) → List (Declarator τ)
  | [] => []
  | s :: rest => s.declarators ++ Stmt.declaratorsAll rest

end

namespace Progress

structure Reaches (ds : List (Declarator NodeId)) (p q : Progress) : Prop where
  marks : q.scopes.blank = p.scopes.blank
  reached : q.reached = (ds.map Declarator.tag).reverse ++ p.reached

theorem Reaches.trans {ds es : List (Declarator NodeId)} {p q r : Progress}
    (left : p.Reaches ds q) (right : q.Reaches es r) : p.Reaches (ds ++ es) r :=
  ⟨right.marks.trans left.marks, by simp [left.reached, right.reached]⟩

theorem Onward.reaches {p q : Progress} (onward : p.Onward q) : p.Reaches [] q :=
  ⟨onward.marks, by simp [onward.reached]⟩

end Progress

section
variable {a : Analysis} {returns : DataType}

mutual

theorem Stmt.passesReaches : ∀ (s : Stmt NodeId) {id : Nat} {p q : Progress},
    Stmt.Passes a returns id p s q → p.Reaches s.declarators q
  | .expr .., _, _, _, .expr passes => passes.onward.reaches
  | .declare .., _, _, _, .declare passes => ⟨passes.marks, passes.reached⟩
  | .ret _ (some _) _, _, _, _, .ret passes _ => passes.onward.reaches
  | .ret _ none _, _, _, _, .leave _ => ⟨rfl, rfl⟩
  | .block _ body _, _, _, _, .block _ passes => Stmt.passesReachesAll body passes
  | .ifThen _ _ yes _, _, _, _, .ifThen _ condition passes =>
    condition.onward.reaches.trans (yes.passesReaches passes)
  | .ifElse _ _ yes _ no _, _, _, _, .ifElse _ condition passes _ otherwise =>
    (condition.onward.reaches.trans (yes.passesReaches passes)).trans (no.passesReaches otherwise)
  | .loop _ _ body _, _, _, _, .loop _ condition passes =>
    condition.onward.reaches.trans (body.passesReaches passes)

theorem Stmt.passesReachesAll : ∀ (ss : List (Stmt NodeId)) {id : Nat} {p q : Progress},
    Stmt.PassAll a returns id p ss q → p.Reaches (Stmt.declaratorsAll ss) q
  | [], _, _, _, .nil => ⟨rfl, rfl⟩
  | s :: rest, _, _, _, .cons first others =>
    (s.passesReaches first).trans (Stmt.passesReachesAll rest others)

end

mutual

theorem Stmt.passesCheck : ∀ (s : Stmt NodeId) {id : Nat} {p q : Progress},
    Stmt.Passes a returns id p s q → p.scopes.blank = a.scopes.blank →
      s.check a returns id p = .ok q
  | .expr .., id, p, q, .expr passes, _ => by rw [Stmt.check, passes.check]
  | .declare .., id, p, q, .declare passes, marks => by rw [Stmt.check, passes.check marks]
  | .ret n (some e) span, id, p, q, .ret passes agrees, _ => by
    rw [Stmt.check, passes.check]
    cases found : a.typeOf? n with
    | none => rfl
    | some type => rw [agrees type found, Progress.expectFits]
  | .ret n none span, id, p, _, .leave agrees, _ => by
    rw [Stmt.check]
    cases found : a.typeOf? n with
    | none => rfl
    | some type => rw [agrees type found, Progress.expectFits]
  | .block _ body _, id, p, q, .block scope passes, marks => by
    rw [Stmt.check, Progress.scopeOfOk.mpr scope]
    exact Stmt.passesCheckAll body passes marks
  | .ifThen _ cond yes span, id, p, q, .ifThen scope condition passes, marks => by
    rw [Stmt.check, Progress.scopeOfOk.mpr scope]
    simp only [bind, Except.bind, condition.condition]
    exact yes.passesCheck passes (condition.onward.marks.trans marks)
  | .ifElse _ cond yes _ no span, id, p, q, .ifElse scope condition passes beside otherwise,
      marks => by
    have first := condition.onward.marks.trans marks
    have second := (yes.passesReaches passes).marks.trans first
    rw [Stmt.check, Progress.scopeOfOk.mpr scope]
    simp only [bind, Except.bind, condition.condition, yes.passesCheck passes first,
      Progress.scopeOfOk.mpr beside]
    exact no.passesCheck otherwise second
  | .loop _ cond body span, id, p, q, .loop scope condition passes, marks => by
    rw [Stmt.check, Progress.scopeOfOk.mpr scope]
    simp only [bind, Except.bind, condition.condition]
    exact body.passesCheck passes (condition.onward.marks.trans marks)

theorem Stmt.passesCheckAll : ∀ (ss : List (Stmt NodeId)) {id : Nat} {p q : Progress},
    Stmt.PassAll a returns id p ss q → p.scopes.blank = a.scopes.blank →
      Stmt.checkAll a returns ss id p = .ok q
  | [], _, _, _, .nil, _ => rfl
  | s :: rest, id, p, q, .cons first others, marks => by
    rw [Stmt.checkAll, s.passesCheck first marks]
    exact Stmt.passesCheckAll rest others ((s.passesReaches first).marks.trans marks)

end

mutual

theorem Stmt.checkTold : ∀ (s : Stmt NodeId) {id : Nat} {p q : Progress},
    s.check a returns id p = .ok q → p.diagnostics <+: q.diagnostics
  | .expr _ e _, id, p, q, done => by
    cases done
    exact (e.checkOnward a id p).told
  | .declare _ type vars span, id, p, q, done => by
    cases done
    exact Declarator.checkAllTold a type span id vars p
  | .ret n (some e) span, id, p, q, done => by
    cases done
    exact ((e.checkOnward a id p).trans (.expectType _ _ _ span)).told
  | .ret n none span, id, p, q, done => by
    cases done
    exact (Progress.Onward.expectType p _ _ span).told
  | .block _ body _, id, p, q, done => by
    obtain ⟨inner, _, done⟩ := bindOk.mp done
    exact Stmt.checkAllTold body done
  | .ifThen _ cond yes span, id, p, q, done => by
    obtain ⟨inner, _, done⟩ := bindOk.mp done
    exact (cond.conditionOnward a inner span p).told.trans (yes.checkTold done)
  | .ifElse _ cond yes _ no span, id, p, q, done => by
    obtain ⟨inner, _, done⟩ := bindOk.mp done
    obtain ⟨m, first, done⟩ := bindOk.mp done
    obtain ⟨other, _, done⟩ := bindOk.mp done
    exact ((cond.conditionOnward a inner span p).told.trans (yes.checkTold first)).trans
      (no.checkTold done)
  | .loop _ cond body span, id, p, q, done => by
    obtain ⟨inner, _, done⟩ := bindOk.mp done
    exact (cond.conditionOnward a inner span p).told.trans (body.checkTold done)

theorem Stmt.checkAllTold : ∀ (ss : List (Stmt NodeId)) {id : Nat} {p q : Progress},
    Stmt.checkAll a returns ss id p = .ok q → p.diagnostics <+: q.diagnostics
  | [], id, p, q, done => by
    cases done
    exact List.prefix_refl _
  | s :: rest, id, p, q, done => by
    obtain ⟨m, first, done⟩ := bindOk.mp done
    exact (s.checkTold first).trans (Stmt.checkAllTold rest done)

end

theorem Stmt.conditionSound {id : Nat} {p : Progress} {e : Expr NodeId} {span : Span}
    (sound : p.Sound a) (clean : (e.checkCondition a id span p).diagnostics = []) :
    e.Passes a id p .bool (e.checkCondition a id span p) ∧
      (e.checkCondition a id span p).Sound a :=
  ⟨Expr.conditionClean sound clean, sound.onward (e.conditionOnward a id span p)⟩

mutual

theorem Stmt.checkClean (noted : a.Noted) : ∀ (s : Stmt NodeId) {id : Nat} {p q : Progress},
    p.Sound a → s.check a returns id p = .ok q → q.diagnostics = [] →
      Stmt.Passes a returns id p s q ∧ q.Sound a
  | .expr _ e _, id, p, q, sound, done, clean => by
    cases done
    obtain ⟨type, _, passes⟩ := Expr.passesClean sound clean
    exact ⟨.expr passes, sound.onward passes.onward⟩
  | .declare _ type vars span, id, p, q, sound, done, clean => by
    cases done
    obtain ⟨passes, still⟩ := Declarator.checkAllClean noted sound clean
    exact ⟨.declare passes, still⟩
  | .ret n (some e) span, id, p, q, sound, done, clean => by
    cases done
    obtain ⟨type, _, passes⟩ :=
      Expr.passesClean sound ((Progress.Onward.expectType _ _ _ span).clean clean)
    have agrees (found : DataType) (recorded : a.typeOf? n = some found) : found = returns :=
      Progress.expectClean (recorded ▸ clean)
    have same : (e.check a id p).2.expectType returns (a.typeOf? n) span = (e.check a id p).2 := by
      cases recorded : a.typeOf? n with
      | none => rfl
      | some found => rw [agrees found recorded, Progress.expectFits]
    rw [same]
    exact ⟨.ret passes agrees, sound.onward passes.onward⟩
  | .ret n none span, id, p, q, sound, done, clean => by
    cases done
    have agrees (found : DataType) (recorded : a.typeOf? n = some found) : found = returns :=
      Progress.expectClean (recorded ▸ clean)
    have same : p.expectType returns (a.typeOf? n) span = p := by
      cases recorded : a.typeOf? n with
      | none => rfl
      | some found => rw [agrees found recorded, Progress.expectFits]
    rw [same]
    exact ⟨.leave agrees, sound⟩
  | .block _ body _, id, p, q, sound, done, clean => by
    obtain ⟨inner, scope, done⟩ := bindOk.mp done
    obtain ⟨passes, still⟩ := Stmt.checkAllClean noted body sound done clean
    exact ⟨.block (Progress.scopeOfOk.mp scope) passes, still⟩
  | .ifThen _ cond yes span, id, p, q, sound, done, clean => by
    obtain ⟨inner, scope, done⟩ := bindOk.mp done
    obtain ⟨condition, middle⟩ := Stmt.conditionSound sound
      (List.prefix_nil.mp (clean ▸ yes.checkTold done))
    obtain ⟨passes, still⟩ := yes.checkClean noted middle done clean
    exact ⟨.ifThen (Progress.scopeOfOk.mp scope) condition passes, still⟩
  | .ifElse _ cond yes _ no span, id, p, q, sound, done, clean => by
    obtain ⟨inner, scope, done⟩ := bindOk.mp done
    obtain ⟨m, first, done⟩ := bindOk.mp done
    obtain ⟨other, beside, done⟩ := bindOk.mp done
    have quiet : m.diagnostics = [] := List.prefix_nil.mp (clean ▸ no.checkTold done)
    obtain ⟨condition, middle⟩ := Stmt.conditionSound sound
      (List.prefix_nil.mp (quiet ▸ yes.checkTold first))
    obtain ⟨passes, middle⟩ := yes.checkClean noted middle first quiet
    obtain ⟨otherwise, still⟩ := no.checkClean noted middle done clean
    exact ⟨.ifElse (Progress.scopeOfOk.mp scope) condition passes (Progress.scopeOfOk.mp beside)
      otherwise, still⟩
  | .loop _ cond body span, id, p, q, sound, done, clean => by
    obtain ⟨inner, scope, done⟩ := bindOk.mp done
    obtain ⟨condition, middle⟩ := Stmt.conditionSound sound
      (List.prefix_nil.mp (clean ▸ body.checkTold done))
    obtain ⟨passes, still⟩ := body.checkClean noted middle done clean
    exact ⟨.loop (Progress.scopeOfOk.mp scope) condition passes, still⟩

theorem Stmt.checkAllClean (noted : a.Noted) : ∀ (ss : List (Stmt NodeId)) {id : Nat}
    {p q : Progress}, p.Sound a → Stmt.checkAll a returns ss id p = .ok q → q.diagnostics = [] →
      Stmt.PassAll a returns id p ss q ∧ q.Sound a
  | [], id, p, q, sound, done, clean => by
    cases done
    exact ⟨.nil, sound⟩
  | s :: rest, id, p, q, sound, done, clean => by
    obtain ⟨m, first, done⟩ := bindOk.mp done
    obtain ⟨passes, middle⟩ := s.checkClean noted sound first
      (List.prefix_nil.mp (clean ▸ Stmt.checkAllTold rest done))
    obtain ⟨others, still⟩ := Stmt.checkAllClean noted rest middle done clean
    exact ⟨.cons passes others, still⟩

end
end

theorem Progress.receiveEq (p : Progress) (params : List (Param NodeId)) :
    p.receive params = { p with reached := (params.map Param.tag).reverse ++ p.reached } := by
  unfold Progress.receive
  induction params generalizing p with
  | nil => rfl
  | cons param rest ih =>
    rw [List.foldl_cons, ih]
    simp [Progress.reach]

theorem Progress.receiveOld (p : Progress) (params : List (Param NodeId)) :
    p.reached ⊆ (p.receive params).reached := by
  rw [receiveEq]
  exact List.subset_append_right _ _

theorem Progress.receiveNew (p : Progress) {params : List (Param NodeId)} {param : Param NodeId}
    (member : param ∈ params) : param.tag ∈ (p.receive params).reached := by
  rw [receiveEq]
  exact List.mem_append_left _ (List.mem_reverse.mpr (List.mem_map.mpr ⟨param, member, rfl⟩))

theorem ScopeTree.blankReturn {t u : ScopeTree} (same : t.blank = u.blank) (id : Nat) :
    (t.scope id).hasReturn = (u.scope id).hasReturn := by
  have both := congrArg (fun w : ScopeTree => (w.scope id).hasReturn) same
  simpa only [ScopeTree.blankScope, Scope.blank] using both

theorem Method.Passes.check {a : Analysis} {p q : Progress} {m : Method NodeId}
    (passes : m.Passes a p q) (marks : p.scopes.blank = a.scopes.blank) : m.check a p = .ok q := by
  obtain ⟨outer, scope⟩ := passes.scope
  obtain ⟨inner, within, returning, body⟩ := passes.body
  have few : ¬ 1 < a.methods.count m.name := Nat.not_lt.mpr passes.single
  have marked : (p.receive m.params).scopes.blank = a.scopes.blank := by
    rw [Progress.receiveEq]
    exact marks
  have returned : m.checkReturn a (p.receive m.params) = .ok (p.receive m.params) := by
    unfold Method.checkReturn
    split
    · rfl
    · rename_i value
      simp only [Progress.scopeOfOk.mpr within, bind, Except.bind, pure, Except.pure,
        ScopeTree.blankReturn marked, returning value, if_true]
  unfold Method.check
  simp only [if_neg few, Progress.scopeOfOk.mpr scope, bind, Except.bind]
  rw [← Progress.receive, returned]
  simp only [Progress.scopeOfOk.mpr within]
  exact Stmt.passesCheckAll m.body.stmts body marked

theorem Method.checkReturnOnward {a : Analysis} {p q : Progress} {m : Method NodeId}
    (returned : m.checkReturn a p = .ok q) : p.Onward q := by
  unfold Method.checkReturn at returned
  split at returned
  · cases returned
    exact .refl _
  · obtain ⟨id, _, last⟩ := bindOk.mp returned
    cases last
    split
    · exact .refl _
    · exact ⟨rfl, rfl, List.prefix_append _ _⟩

theorem Method.checkClean {a : Analysis} (noted : a.Noted) {p q : Progress} {m : Method NodeId}
    (given : ∀ param ∈ m.params, a.Typed param.tag) (sound : p.Sound a) (done : m.check a p = .ok q)
    (clean : q.diagnostics = []) : m.Passes a p q ∧ q.Sound a := by
  unfold Method.check at done
  obtain ⟨outer, scope, done⟩ := bindOk.mp done
  obtain ⟨r, returned, done⟩ := bindOk.mp done
  obtain ⟨inner, within, body⟩ := bindOk.mp done
  rw [Progress.scopeOfOk] at scope within
  have quiet : r.diagnostics = [] :=
    List.prefix_nil.mp (clean ▸ Stmt.checkAllTold m.body.stmts body)
  rw [← Progress.receive] at returned
  have few : ¬ 1 < a.methods.count m.name := by
    intro many
    rw [if_pos many, Progress.receiveEq] at returned
    exact Progress.reportTold ((Method.checkReturnOnward returned).clean quiet)
  rw [if_neg few] at returned
  have admitted : (p.receive m.params).Sound a := by
    rw [Progress.receiveEq]
    refine ⟨sound.marks, fun n reached => ?_⟩
    rcases List.mem_append.mp reached with new | old
    · obtain ⟨param, member, rfl⟩ := List.mem_map.mp (List.mem_reverse.mp new)
      exact given param member
    · exact sound.known n old
  have result : r = p.receive m.params ∧
      (m.returnType ≠ .void → (a.scopes.scope inner).hasReturn = true) := by
    unfold Method.checkReturn at returned
    split at returned
    · rename_i void
      cases returned
      exact ⟨rfl, fun value => absurd void value⟩
    · obtain ⟨id, here, last⟩ := bindOk.mp returned
      obtain rfl : id = inner := by simpa [within] using (Progress.scopeOfOk.mp here).symm
      cases last
      split at quiet
      · rename_i returns
        rw [if_pos returns]
        exact ⟨rfl, fun _ => (ScopeTree.blankReturn admitted.marks id).symm.trans returns⟩
      · simp at quiet
  obtain ⟨rfl, returning⟩ := result
  obtain ⟨passes, still⟩ := Stmt.checkAllClean noted m.body.stmts admitted body clean
  exact ⟨⟨Nat.not_lt.mp few, ⟨outer, scope⟩, inner, within, returning, passes⟩, still⟩

theorem Method.checkTold {a : Analysis} {p q : Progress} {m : Method NodeId}
    (done : m.check a p = .ok q) : p.diagnostics <+: q.diagnostics := by
  unfold Method.check at done
  obtain ⟨outer, _, done⟩ := bindOk.mp done
  obtain ⟨r, returned, done⟩ := bindOk.mp done
  obtain ⟨inner, _, body⟩ := bindOk.mp done
  refine List.IsPrefix.trans ?_ (Stmt.checkAllTold m.body.stmts body)
  rw [← Progress.receive, Progress.receiveEq] at returned
  have first : p.diagnostics <+: (if 1 < a.methods.count m.name then
      p.report (.duplicateMethod m.name) m.span else p).diagnostics := by
    split
    · exact List.prefix_append _ _
    · exact List.prefix_refl _
  exact first.trans (Method.checkReturnOnward returned).told

theorem Method.checkAllTold {a : Analysis} {ms : List (Method NodeId)} {p q : Progress}
    (done : Method.checkAll a ms p = .ok q) : p.diagnostics <+: q.diagnostics := by
  induction ms generalizing p with
  | nil =>
    cases done
    exact List.prefix_refl _
  | cons m rest ih =>
    obtain ⟨r, first, done⟩ := bindOk.mp done
    exact (Method.checkTold first).trans (ih done)

theorem Method.Passes.marks {a : Analysis} {p q : Progress} {m : Method NodeId}
    (passes : m.Passes a p q) : q.scopes.blank = p.scopes.blank := by
  obtain ⟨inner, _, _, body⟩ := passes.body
  have reaches := Stmt.passesReachesAll m.body.stmts body
  rw [reaches.marks, Progress.receiveEq]

theorem Method.PassAll.marks {a : Analysis} {p q : Progress} {ms : List (Method NodeId)}
    (passes : Method.PassAll a p ms q) : q.scopes.blank = p.scopes.blank := by
  induction passes with
  | nil => rfl
  | cons first _ ih => exact ih.trans first.marks

theorem Method.PassAll.check {a : Analysis} {p q : Progress} {ms : List (Method NodeId)}
    (passes : Method.PassAll a p ms q) (marks : p.scopes.blank = a.scopes.blank) :
    Method.checkAll a ms p = .ok q := by
  induction passes with
  | nil => rfl
  | cons first _ ih =>
    rw [Method.checkAll, first.check marks]
    exact ih (first.marks.trans marks)

theorem Method.checkAllClean {a : Analysis} (noted : a.Noted) {ms : List (Method NodeId)}
    {p q : Progress} (given : ∀ m ∈ ms, ∀ param ∈ m.params, a.Typed param.tag) (sound : p.Sound a)
    (done : Method.checkAll a ms p = .ok q) (clean : q.diagnostics = []) :
    Method.PassAll a p ms q := by
  induction ms generalizing p with
  | nil =>
    cases done
    exact .nil
  | cons m rest ih =>
    obtain ⟨r, first, done⟩ := bindOk.mp done
    have quiet := List.prefix_nil.mp (clean ▸ Method.checkAllTold done)
    obtain ⟨passes, middle⟩ :=
      Method.checkClean noted (given m (List.mem_cons_self ..)) sound first quiet
    exact .cons passes
      (ih (fun other member => given other (List.mem_cons_of_mem _ member)) middle done)

namespace Program

/-- The analysis that the check of a program starts with. -/
def annotated (p : Program NodeId) : Analysis := (({} : Analysis).declareMethods p).annotate p

theorem analyzeEq (p : Program NodeId) : p.analyze =
    match (p.annotated.check p).1 with
    | .ok () => .ok (p.annotated.check p).2
    | .error failure => .error failure := rfl

def startProgress (p : Program NodeId) : Progress := ⟨p.annotated.scopes, [p.tag], []⟩

structure Clean (p : Program NodeId) (q : Progress) : Prop where
  main : p.annotated.methods.mainViolation? = none
  methods : Method.PassAll p.annotated p.startProgress p.methods q

theorem startCheckEq {p : Program NodeId} (main : p.annotated.methods.mainViolation? = none)
    (quiet : p.annotated.diagnostics = []) : p.annotated.startCheck p = p.startProgress := by
  simp [Analysis.startCheck, main, startProgress, quiet]

theorem Clean.analyze {p : Program NodeId} {q : Progress} (clean : p.Clean q)
    (quiet : p.annotated.diagnostics = []) {root : Nat}
    (bound : p.annotated.scopeIds.get? p.tag = some root) (told : q.diagnostics = []) :
    p.analyze = .ok { p.annotated with scopes := q.scopes, diagnostics := [] } := by
  have done := clean.methods.check rfl
  simp only [analyzeEq, Analysis.check, Analysis.scopeOfOk.mpr bound, startCheckEq clean.main quiet,
    done, told, List.isEmpty_nil, if_true]

theorem analyzeChecked {p : Program NodeId} {a : Analysis} (done : p.analyze = .ok a) :
    ∃ q, Method.checkAll p.annotated p.methods (p.annotated.startCheck p) = .ok q ∧
      q.diagnostics = [] ∧ a = { p.annotated with scopes := q.scopes, diagnostics := [] } := by
  simp only [analyzeEq, Analysis.check] at done
  cases bound : p.annotated.scopeOf p.tag with
  | error fault => simp [bound] at done
  | ok root =>
    cases checked : Method.checkAll p.annotated p.methods (p.annotated.startCheck p) with
    | error stopped => simp [bound, checked] at done
    | ok q =>
      simp only [bound, checked] at done
      cases told : q.diagnostics with
      | cons d rest => simp [told] at done
      | nil =>
        simp only [told, List.isEmpty_nil, if_true, Except.ok.injEq] at done
        exact ⟨q, rfl, told, done.symm⟩

theorem analyzeClean {p : Program NodeId} {a : Analysis} (noted : p.annotated.Noted)
    (start : p.annotated.Typed p.tag)
    (given : ∀ m ∈ p.methods, ∀ param ∈ m.params, p.annotated.Typed param.tag)
    (quiet : p.annotated.diagnostics = []) (done : p.analyze = .ok a) :
    ∃ q, p.Clean q ∧ a = { p.annotated with scopes := q.scopes, diagnostics := [] } := by
  obtain ⟨q, checked, told, same⟩ := analyzeChecked done
  have before : (p.annotated.startCheck p).diagnostics = [] :=
    List.prefix_nil.mp (told ▸ Method.checkAllTold checked)
  have main : p.annotated.methods.mainViolation? = none := by
    cases violated : p.annotated.methods.mainViolation? with
    | none => rfl
    | some v =>
      simp only [Analysis.startCheck, violated] at before
      exact Progress.reportTold before
  rw [startCheckEq main quiet] at checked
  have sound : p.startProgress.Sound p.annotated :=
    ⟨rfl, fun n reached => by
      obtain rfl := List.mem_singleton.mp reached
      exact start⟩
  exact ⟨q, ⟨main, Method.checkAllClean noted given sound checked told⟩, same⟩

end Program
end ClassCompiler
