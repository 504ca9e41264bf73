import ClassCompiler.Proofs.Marks
import ClassCompiler.Proofs.Typing
import ClassCompiler.RuleCheck

/-! Expressions in which the check finds nothing to report: those that have a type and that use
their variables in an order in which each has a value when it is read. -/
namespace ClassCompiler

namespace Progress

def types (p : Progress) (id : Nat) (x : String) : Option DataType :=
  match p.resolve id x with
  | some (_, .var v) => v.type
  | _ => none

def access? (id : Nat) (p : Progress) : VarAccess → Option Progress
  | .read x =>
    match p.resolve id x with
    | some (_, .var v) => if v.initialized then some p else none
    | _ => none
  | .write x =>
    match p.resolve id x with
    | some (home, .var _) => some { p with scopes := p.scopes.markInitialized home x }
    | _ => none

def accessAll? (id : Nat) (p : Progress) (uses : List VarAccess) : Option Progress :=
  uses.foldlM (access? id) p

/-- `q` differs from `p` only by marks and by further diagnostics. -/
structure Onward (p q : Progress) : Prop where
  marks : q.scopes.blank = p.scopes.blank
  reached : q.reached = p.reached
  told : p.diagnostics <+: q.diagnostics

namespace Onward

theorem refl (p : Progress) : p.Onward p := ⟨rfl, rfl, List.prefix_refl _⟩

theorem trans {p q r : Progress} (left : p.Onward q) (right : q.Onward r) : p.Onward r :=
  ⟨right.marks.trans left.marks, right.reached.trans left.reached, left.told.trans right.told⟩

theorem report (p : Progress) (v : Violation) (span : Span) : p.Onward (p.report v span) :=
  ⟨rfl, rfl, List.prefix_append _ _⟩

theorem expectType (p : Progress) (expected : DataType) (found : Option DataType) (span : Span) :
    p.Onward (p.expectType expected found span) := by
  unfold Progress.expectType
  split
  · split
    · exact refl p
    · exact report p _ span
  · exact refl p

theorem mark (p : Progress) (home : Nat) (x : String) :
    p.Onward { p with scopes := p.scopes.markInitialized home x } :=
  ⟨p.scopes.blankMark home x, rfl, List.prefix_refl _⟩

theorem clean {p q : Progress} (onward : p.Onward q) (clean : q.diagnostics = []) :
    p.diagnostics = [] := List.prefix_nil.mp (clean ▸ onward.told)

end Onward

theorem seesBlank (p : Progress) (s : Symbol) : p.sees s.blank = p.sees s := by
  cases s <;> rfl

theorem resolveOnward {p q : Progress} (onward : p.Onward q) {id home : Nat} {x : String}
    {v : Variable} (found : p.resolve id x = some (home, .var v)) :
    ∃ marked, q.resolve id x = some (home, .var { v with initialized := marked }) := by
  have sees : q.sees = p.sees := by
    funext s
    cases s <;> simp [Progress.sees, onward.reached]
  rw [Progress.resolve, sees]
  exact ScopeTree.resolveVariable onward.marks.symm p.seesBlank found

theorem resolveBackward {p q : Progress} (onward : p.Onward q) {id home : Nat} {x : String}
    {v : Variable} (found : q.resolve id x = some (home, .var v)) :
    ∃ marked, p.resolve id x = some (home, .var { v with initialized := marked }) := by
  have sees : p.sees = q.sees := by
    funext s
    cases s <;> simp [Progress.sees, onward.reached]
  rw [Progress.resolve, sees]
  exact ScopeTree.resolveVariable onward.marks q.seesBlank found

theorem typesSome {p : Progress} {id : Nat} {x : String} {type : DataType} :
    p.types id x = some type ↔
      ∃ home v, p.resolve id x = some (home, .var v) ∧ v.type = some type := by
  unfold types
  constructor
  · intro known
    split at known
    · rename_i home v found
      exact ⟨home, v, found, known⟩
    · contradiction
  · rintro ⟨home, v, found, known⟩
    rw [found]
    exact known

theorem typesOnward {p q : Progress} (onward : p.Onward q) (id : Nat) : q.types id = p.types id := by
  funext x
  apply Option.ext
  intro type
  simp only [typesSome]
  constructor
  · rintro ⟨home, v, found, known⟩
    obtain ⟨marked, there⟩ := resolveBackward onward found
    exact ⟨home, _, there, known⟩
  · rintro ⟨home, v, found, known⟩
    obtain ⟨marked, there⟩ := resolveOnward onward found
    exact ⟨home, _, there, known⟩

theorem accessOnward {p q : Progress} {id : Nat} {u : VarAccess} (done : p.access? id u = some q) :
    p.Onward q := by
  cases u with
  | read x =>
    simp only [access?] at done
    split at done
    · split at done
      · cases done
        exact .refl p
      · contradiction
    · contradiction
  | write x =>
    simp only [access?] at done
    split at done
    · cases done
      exact .mark p _ x
    · contradiction

theorem accessAllAppend (id : Nat) (p : Progress) (us vs : List VarAccess) :
    p.accessAll? id (us ++ vs) = (p.accessAll? id us).bind fun q => q.accessAll? id vs := by
  simp only [accessAll?, List.foldlM_append]
  rfl

theorem accessAllSplit {id : Nat} {p r : Progress} {us vs : List VarAccess}
    (done : p.accessAll? id (us ++ vs) = some r) :
    ∃ q, p.accessAll? id us = some q ∧ q.accessAll? id vs = some r := by
  rw [accessAllAppend] at done
  exact Option.bind_eq_some_iff.mp done

theorem accessAllJoin {id : Nat} {p q r : Progress} {us vs : List VarAccess}
    (first : p.accessAll? id us = some q) (second : q.accessAll? id vs = some r) :
    p.accessAll? id (us ++ vs) = some r := by
  rw [accessAllAppend, first]
  exact second

theorem accessAllOne (id : Nat) (p : Progress) (u : VarAccess) :
    p.accessAll? id [u] = p.access? id u := by
  simp only [accessAll?, List.foldlM_cons, List.foldlM_nil]
  cases p.access? id u <;> rfl

theorem accessAllOnward {id : Nat} {us : List VarAccess} {p q : Progress}
    (done : p.accessAll? id us = some q) : p.Onward q := by
  induction us generalizing p with
  | nil =>
    cases done
    exact .refl _
  | cons u rest ih =>
    obtain ⟨r, first, second⟩ := accessAllSplit (show p.accessAll? id ([u] ++ rest) = some q from done)
    rw [accessAllOne] at first
    exact (accessOnward first).trans (ih second)

end Progress

namespace BinaryOp

theorem violationNone {op : BinaryOp} {left right : DataType} :
    op.violation? (some left) (some right) = none ↔ left = right ∧ op.admits left = true := by
  unfold violation? admits clash
  cases op.group with
  | arithmetic => by_cases same : left = right <;> simp [same]
  | relational =>
    by_cases same : left = right
    · subst same
      by_cases value : left.isValue = true <;> by_cases text : left = .string <;>
        simp [value, text, Option.filter]
    · simp [same]
  | logical =>
    by_cases bool : left = .bool
    · by_cases same : left = right <;> simp_all [Option.filter]
    · simp [bool, Option.filter]

theorem resultYields (op : BinaryOp) (type : DataType) :
    op.resultType (some type) (some type) = some (op.yields type) := by
  unfold resultType yields
  cases op.group <;> rfl

end BinaryOp

theorem Progress.expectFits (p : Progress) (type : DataType) (span : Span) :
    p.expectType type (some type) span = p := by
  simp [Progress.expectType]

open Progress (Onward)

mutual

theorem Expr.checkOnward (a : Analysis) (id : Nat) : ∀ (e : Expr NodeId) (p : Progress),
    p.Onward (e.check a id p).2
  | .literal _ _ _, p | .read _ _ _, p | .random _ _, p => .refl p
  | .var _ x span, p => by
    simp only [Expr.check, Progress.checkRead]
    split
    · dsimp only
      split
      · exact .refl p
      · exact .report p _ span
    · exact .report p _ span
    · exact .report p _ span
  | .binary _ op left right, p => by
    have both := (left.checkOnward a id p).trans (right.checkOnward a id _)
    simp only [Expr.check]
    split
    · exact both.trans (.report _ _ _)
    · exact both
  | .not _ operand span, p => (operand.checkOnward a id p).trans (.expectType _ _ _ span)
  | .assign _ target value, p => by
    simp only [Expr.check]
    split
    · rename_i x name
      have store : p.Onward (p.checkStore a id x target.span).2 := by
        unfold Progress.checkStore
        split
        · exact .refl p
        · exact .report p _ _
        · exact .report p _ _
      have both := store.trans (value.checkOnward a id _)
      dsimp only
      split
      · refine both.trans (Onward.trans ?_ (.mark _ _ x))
        split
        · exact .expectType _ _ _ _
        · exact .refl _
      · exact both
    · exact ((Onward.report p _ _).trans (target.checkOnward a id _)).trans
        (value.checkOnward a id _)
  | .call _ m args span, p => by
    simp only [Expr.check]
    split
    · refine Onward.trans ?_ (Expr.checkArgsOnward a id args _ _)
      split
      · exact .refl p
      · exact .report p _ span
    · exact (Onward.report p _ span).trans (Expr.checkArgsOnward a id args _ _)
  | .writeLine _ value span, p => by
    simp only [Expr.check]
    split
    · exact (value.checkOnward a id p).trans (.report _ _ span)
    · exact value.checkOnward a id p
  | .randomBelow _ bound _, p => (bound.checkOnward a id p).trans (.expectType _ _ _ _)

theorem Expr.checkArgsOnward (a : Analysis) (id : Nat) :
    ∀ (es : List (Expr NodeId)) (types : List DataType) (p : Progress),
      p.Onward (Expr.checkArgs a id es types p)
  | [], _, p => by
    rw [Expr.checkArgs]
    exact .refl p
  | e :: rest, [], p => (e.checkOnward a id p).trans (Expr.checkArgsOnward a id rest [] _)
  | e :: rest, type :: types, p =>
    ((e.checkOnward a id p).trans (.expectType _ _ _ _)).trans
      (Expr.checkArgsOnward a id rest types _)

end

mutual

theorem Expr.checkTyped (a : Analysis) (id : Nat) : ∀ (e : Expr NodeId) {type : DataType}
    {p q : Progress}, e.HasType a.methods.uses (p.types id) type →
      p.accessAll? id e.accesses = some q → e.check a id p = (some type, q)
  | .literal _ value _, _, p, q, typed, done => by
    cases typed
    cases done
    rfl
  | .read _ input _, _, p, q, typed, done => by
    cases typed
    cases done
    rfl
  | .random _ _, _, p, q, typed, done => by
    cases typed
    cases done
    rfl
  | .var _ x span, type, p, q, typed, done => by
    cases typed with
    | var known =>
      obtain ⟨home, v, found, knownType⟩ := Progress.typesSome.mp known
      rw [Expr.accesses, Progress.accessAllOne] at done
      simp only [Progress.access?, found] at done
      split at done
      · rename_i ready
        cases done
        simp [Expr.check, Progress.checkRead, found, knownType, ready]
      · contradiction
  | .binary _ op left right, _, p, q, typed, done => by
    cases typed with
    | binary first second admitted =>
      obtain ⟨m, before, after⟩ := Progress.accessAllSplit done
      rw [← Progress.typesOnward (Progress.accessAllOnward before)] at second
      simp [Expr.check, left.checkTyped a id first before, right.checkTyped a id second after,
        BinaryOp.violationNone.mpr ⟨rfl, admitted⟩, BinaryOp.resultYields]
  | .not _ operand span, _, p, q, typed, done => by
    cases typed with
    | not condition =>
      simp [Expr.check, operand.checkTyped a id condition done, Progress.expectFits]
  | .assign _ target value, type, p, q, typed, done => by
    cases typed with
    | assign known assigned =>
      rename_i n x span
      obtain ⟨home, v, found, knownType⟩ := Progress.typesSome.mp known
      obtain ⟨m, before, after⟩ := Progress.accessAllSplit done
      obtain ⟨marked, there⟩ := Progress.resolveOnward (Progress.accessAllOnward before) found
      have written : m.access? id (.write x) = some q :=
        (Progress.accessAllOne id m (.write x)).symm.trans after
      simp only [Progress.access?, there, Option.some.injEq] at written
      simp [Expr.check, Expr.asName, Progress.checkStore, found,
        value.checkTyped a id assigned before, Progress.assigned, knownType, Progress.expectFits,
        written]
  | .call _ m args span, _, p, q, typed, done => by
    cases typed with
    | call found given =>
      obtain ⟨s, declared, same⟩ := Option.map_eq_some_iff.mp found
      cases same
      have length := Expr.haveTypesLength given
      simp [Expr.check, declared, length, Expr.checkArgsTyped a id args given done]
  | .writeLine _ value span, _, p, q, typed, done => by
    cases typed with
    | writeLine printed printable =>
      simp [Expr.check, value.checkTyped a id printed done, printable, Option.filter]
  | .randomBelow _ bound _, _, p, q, typed, done => by
    cases typed with
    | randomBelow limit =>
      simp [Expr.check, bound.checkTyped a id limit done, Progress.expectFits]

theorem Expr.checkArgsTyped (a : Analysis) (id : Nat) : ∀ (es : List (Expr NodeId))
    {types : List DataType} {p q : Progress}, Expr.HaveTypes a.methods.uses (p.types id) es types →
      p.accessAll? id (Expr.accessesAll es) = some q → Expr.checkArgs a id es types p = q
  | [], types, p, q, typed, done => by
    cases typed
    cases done
    rfl
  | e :: rest, _, p, q, typed, done => by
    cases typed with
    | cons first others =>
      obtain ⟨m, before, after⟩ := Progress.accessAllSplit done
      rw [← Progress.typesOnward (Progress.accessAllOnward before)] at others
      simp [Expr.checkArgs, e.checkTyped a id first before, Progress.expectFits,
        Expr.checkArgsTyped a id rest others after]

end

def Progress.Known (p : Progress) (id : Nat) : Prop :=
  ∀ x home v, p.resolve id x = some (home, .var v) → v.type ≠ none

namespace Progress

theorem Known.onward {p q : Progress} {id : Nat} (known : p.Known id) (onward : p.Onward q) :
    q.Known id := by
  intro x home v found
  obtain ⟨marked, there⟩ := resolveBackward onward found
  exact known x home { v with initialized := marked } there

theorem Known.type {p : Progress} {id : Nat} (known : p.Known id) {x : String} {home : Nat}
    {v : Variable} (found : p.resolve id x = some (home, .var v)) :
    ∃ type, v.type = some type ∧ p.types id x = some type := by
  obtain ⟨type, same⟩ := Option.ne_none_iff_exists'.mp (known x home v found)
  exact ⟨type, same, typesSome.mpr ⟨home, v, found, same⟩⟩

theorem reportTold {p : Progress} {v : Violation} {span : Span} {goal : Prop}
    (clean : (p.report v span).diagnostics = []) : goal := by
  simp [report] at clean

theorem expectClean {p : Progress} {expected found : DataType} {span : Span}
    (clean : (p.expectType expected (some found) span).diagnostics = []) : found = expected := by
  unfold expectType at clean
  split at clean
  · rename_i same
    cases same
    split at clean
    · assumption
    · exact reportTold clean
  · contradiction

theorem readClean {p : Progress} {a : Analysis} {id : Nat} {x : String} {span : Span}
    (clean : (p.checkRead a id x span).2.diagnostics = []) :
    ∃ home v, p.resolve id x = some (home, .var v) ∧ v.initialized = true ∧
      p.checkRead a id x span = (v.type, p) := by
  unfold checkRead at clean ⊢
  split at clean
  · rename_i home v found
    refine ⟨home, v, found, ?_⟩
    dsimp only at clean
    split at clean
    · rename_i ready
      simp [ready]
    · exact reportTold clean
  · exact reportTold clean
  · exact reportTold clean

theorem storeClean {p : Progress} {a : Analysis} {id : Nat} {x : String} {span : Span}
    (clean : (p.checkStore a id x span).2.diagnostics = []) :
    ∃ home v, p.resolve id x = some (home, .var v) ∧
      p.checkStore a id x span = (some (home, v), p) := by
  unfold checkStore at clean ⊢
  split at clean
  · rename_i home v found
    exact ⟨home, v, found, rfl⟩
  · exact reportTold clean
  · exact reportTold clean

end Progress

theorem Expr.asNameSome {target : Expr NodeId} {x : String} (name : target.asName = some x) :
    ∃ n span, target = .var n x span := by
  cases target <;> simp [Expr.asName] at name
  subst name
  exact ⟨_, _, rfl⟩

mutual

theorem Expr.checkClean (a : Analysis) (id : Nat) : ∀ (e : Expr NodeId) {p : Progress},
    p.Known id → (e.check a id p).2.diagnostics = [] →
      ∃ type, e.HasType a.methods.uses (p.types id) type ∧ (e.check a id p).1 = some type ∧
        p.accessAll? id e.accesses = some (e.check a id p).2
  | .literal _ value _, p, _, _ => ⟨value.dataType, .literal, rfl, rfl⟩
  | .read _ input _, p, _, _ => ⟨_, .read, rfl, rfl⟩
  | .random _ _, p, _, _ => ⟨.int, .random, rfl, rfl⟩
  | .var _ x span, p, known, clean => by
    obtain ⟨home, v, found, ready, result⟩ := Progress.readClean clean
    obtain ⟨type, same, here⟩ := known.type found
    refine ⟨type, .var here, ?_, ?_⟩
    · simp [Expr.check, result, same]
    · simp [Expr.check, result, Expr.accesses, Progress.accessAllOne, Progress.access?, found, ready]
  | .binary n op left right, p, known, clean => by
    have quiet : (right.check a id (left.check a id p).2).2.diagnostics = [] := by
      simp only [Expr.check] at clean
      split at clean
      · exact Progress.reportTold clean
      · exact clean
    have onward := left.checkOnward a id p
    obtain ⟨l, first, leftType, before⟩ :=
      left.checkClean a id known ((right.checkOnward a id _).clean quiet)
    obtain ⟨r, second, rightType, after⟩ := right.checkClean a id (known.onward onward) quiet
    rw [Progress.typesOnward onward] at second
    have allowed : op.violation? (some l) (some r) = none := by
      rw [Option.eq_none_iff_forall_not_mem]
      intro v broken
      simp only [Expr.check, leftType, rightType, Option.mem_def.mp broken] at clean
      exact Progress.reportTold clean
    obtain ⟨rfl, admitted⟩ := BinaryOp.violationNone.mp allowed
    refine ⟨op.yields l, .binary first second admitted, ?_, ?_⟩
    · simp [Expr.check, leftType, rightType, BinaryOp.resultYields]
    · simp only [Expr.check, leftType, rightType, allowed]
      exact Progress.accessAllJoin before after
  | .not n operand span, p, known, clean => by
    obtain ⟨type, typed, result, done⟩ :=
      operand.checkClean a id known ((Onward.expectType _ _ _ span).clean clean)
    simp only [Expr.check, result] at clean ⊢
    obtain rfl := Progress.expectClean clean
    exact ⟨.bool, .not typed, rfl, by rw [Progress.expectFits]; exact done⟩
  | .assign n target value, p, known, clean => by
    cases name : target.asName with
    | none =>
      simp only [Expr.check, name] at clean
      exact Progress.reportTold
        ((target.checkOnward a id _).clean ((value.checkOnward a id _).clean clean))
    | some x =>
      obtain ⟨m, span, rfl⟩ := Expr.asNameSome name
      have quiet : (p.checkStore a id x span).2.diagnostics = [] := by
        simp only [Expr.check, Expr.asName, Expr.span] at clean
        have onward := value.checkOnward a id (p.checkStore a id x span).2
        split at clean
        · refine onward.clean ((Onward.trans ?_ (.mark _ _ x)).clean clean)
          split
          · exact .expectType _ _ _ _
          · exact .refl _
        · exact onward.clean clean
      obtain ⟨home, v, found, result⟩ := Progress.storeClean quiet
      obtain ⟨type, same, here⟩ := known.type found
      simp only [Expr.check, Expr.asName, Expr.span, result, Progress.assigned, same] at clean ⊢
      have onward := value.checkOnward a id p
      obtain ⟨given, typed, valueType, done⟩ :=
        value.checkClean a id known ((Onward.expectType _ _ _ _).clean clean)
      rw [valueType] at clean ⊢
      obtain rfl := Progress.expectClean clean
      obtain ⟨marked, there⟩ := Progress.resolveOnward onward found
      refine ⟨given, .assign here typed, rfl, Progress.accessAllJoin done ?_⟩
      simp [Progress.accessAllOne, Progress.access?, there, Progress.expectFits, Expr.asName]
  | .call n m args span, p, known, clean => by
    simp only [Expr.check] at clean ⊢
    cases found : a.methods.find? m with
    | none =>
      simp only [found] at clean
      exact Progress.reportTold ((Expr.checkArgsOnward a id args _ _).clean clean)
    | some s =>
      simp only [found] at clean ⊢
      by_cases length : s.params.length = args.length
      · simp only [if_pos length] at clean ⊢
        obtain ⟨typed, done⟩ := Expr.checkArgsClean a id args s.params known length clean
        exact ⟨s.returns, .call (by simp [MethodTable.uses, found]) typed, rfl, done⟩
      · simp only [if_neg length] at clean
        exact Progress.reportTold ((Expr.checkArgsOnward a id args _ _).clean clean)
  | .writeLine n value span, p, known, clean => by
    have quiet : (value.check a id p).2.diagnostics = [] := by
      simp only [Expr.check] at clean
      split at clean
      · exact Progress.reportTold clean
      · exact clean
    obtain ⟨type, typed, result, done⟩ := value.checkClean a id known quiet
    simp only [Expr.check, result] at clean ⊢
    by_cases printable : type.isValue = true
    · simp only [Option.filter, printable]
      exact ⟨.void, .writeLine typed printable, rfl, done⟩
    · simp only [Option.filter, printable, Bool.not_false, if_true] at clean
      exact Progress.reportTold clean
  | .randomBelow n bound _, p, known, clean => by
    obtain ⟨type, typed, result, done⟩ :=
      bound.checkClean a id known ((Onward.expectType _ _ _ _).clean clean)
    simp only [Expr.check, result] at clean ⊢
    obtain rfl := Progress.expectClean clean
    exact ⟨.int, .randomBelow typed, rfl, by rw [Progress.expectFits]; exact done⟩

theorem Expr.checkArgsClean (a : Analysis) (id : Nat) : ∀ (es : List (Expr NodeId))
    (types : List DataType) {p : Progress}, p.Known id → types.length = es.length →
      (Expr.checkArgs a id es types p).diagnostics = [] →
        Expr.HaveTypes a.methods.uses (p.types id) es types ∧
          p.accessAll? id (Expr.accessesAll es) = some (Expr.checkArgs a id es types p)
  | [], [], p, _, _, _ => ⟨.nil, rfl⟩
  | e :: rest, type :: types, p, known, length, clean => by
    simp only [Expr.checkArgs] at clean ⊢
    have quiet := (Expr.checkArgsOnward a id rest types _).clean clean
    obtain ⟨found, typed, result, done⟩ :=
      e.checkClean a id known ((Onward.expectType _ _ _ _).clean quiet)
    rw [result] at quiet
    obtain rfl := Progress.expectClean quiet
    rw [result, Progress.expectFits] at clean ⊢
    have onward := e.checkOnward a id p
    obtain ⟨others, after⟩ :=
      Expr.checkArgsClean a id rest types (known.onward onward) (by simpa using length) clean
    rw [Progress.typesOnward onward] at others
    exact ⟨.cons typed others, Progress.accessAllJoin done after⟩

end
end ClassCompiler
