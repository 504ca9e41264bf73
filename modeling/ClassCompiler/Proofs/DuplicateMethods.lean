import ClassCompiler.Proofs.MethodEntries
import ClassCompiler.Proofs.Rechecking

/-! Names that are taken twice. The check reports each declaration whose name another declaration has, or
an intrinsic that the program uses, and it reports it once. -/
namespace ClassCompiler

def Violation.isDuplicateMethod : Violation → Bool
  | .duplicateMethod _ => true
  | _ => false

def duplicateReports (ds : List Diagnostic) : List Diagnostic :=
  ds.filter fun d => d.violation.isDuplicateMethod

namespace Progress
variable (p : Progress)

def duplicates : List Diagnostic := duplicateReports p.diagnostics

@[simp] theorem reachDuplicates (n : NodeId) : (p.reach n).duplicates = p.duplicates := rfl

@[simp] theorem receiveDuplicates (params : List (Param NodeId)) :
    (p.receive params).duplicates = p.duplicates := by
  induction params generalizing p with
  | nil => rfl
  | cons param rest ih => exact ih (p.reach param.tag)

theorem reportDuplicates (v : Violation) (span : Span) : (p.report v span).duplicates =
    p.duplicates ++ if v.isDuplicateMethod then [⟨v, span, .start⟩] else [] := by
  simp [duplicates, duplicateReports, report, List.filter_append, List.filter_singleton]

theorem reportPlain {v : Violation} (plain : v.isDuplicateMethod = false) (span : Span) :
    (p.report v span).duplicates = p.duplicates := by
  simp [reportDuplicates, plain]

@[simp] theorem expectTypeDuplicates (expected : DataType) (found : Option DataType) (span : Span) :
    (p.expectType expected found span).duplicates = p.duplicates := by
  unfold expectType
  split
  · split
    · rfl
    · exact p.reportPlain rfl span
  · rfl

theorem unresolvedPlain (t : MethodTable) (x : String) : (t.unresolved x).isDuplicateMethod = false := by
  unfold MethodTable.unresolved
  split <;> rfl

@[simp] theorem checkReadDuplicates (a : Analysis) (id : Nat) (x : String) (span : Span) :
    (p.checkRead a id x span).2.duplicates = p.duplicates := by
  unfold checkRead
  split
  · dsimp only
    split
    · rfl
    · exact p.reportPlain rfl span
  · exact p.reportPlain rfl span
  · exact p.reportPlain (unresolvedPlain _ x) span

@[simp] theorem checkStoreDuplicates (a : Analysis) (id : Nat) (x : String) (span : Span) :
    (p.checkStore a id x span).2.duplicates = p.duplicates := by
  unfold checkStore
  split
  · rfl
  · exact p.reportPlain rfl span
  · exact p.reportPlain (unresolvedPlain _ x) span

@[simp] theorem assignedDuplicates (home : Nat) (x : String) (v : Variable) (found : Option DataType)
    (span : Span) : (p.assigned home x v found span).duplicates = p.duplicates := by
  unfold assigned
  cases v.type with
  | none => rfl
  | some type => exact p.expectTypeDuplicates type found span

end Progress

theorem BinaryOp.violationPlain {op : BinaryOp} {left right : Option DataType} {v : Violation}
    (violated : op.violation? left right = some v) : v.isDuplicateMethod = false := by
  unfold BinaryOp.violation? at violated
  split at violated
  · split at violated
    · cases violated
      rfl
    · obtain ⟨_, _, rfl⟩ := Option.map_eq_some_iff.mp violated
      rfl
  · split at violated
    · cases violated
      rfl
    · obtain ⟨_, _, rfl⟩ := Option.map_eq_some_iff.mp violated
      rfl
  · split at violated
    · cases violated
      rfl
    · split at violated
      · cases violated
        rfl
      · contradiction

theorem MethodTable.mainPlain {t : MethodTable} {v : Violation} (violated : t.mainViolation? = some v) :
    v.isDuplicateMethod = false := by
  unfold MethodTable.mainViolation? at violated
  split at violated
  · cases violated
    rfl
  · split at violated
    · contradiction
    · cases violated
      rfl

section
variable {a : Analysis}

mutual

theorem Expr.checkDuplicates (id : Nat) : ∀ (e : Expr NodeId) (p : Progress),
    (e.check a id p).2.duplicates = p.duplicates
  | .literal .., p | .read .., p | .random .., p => rfl
  | .var _ x span, p => p.checkReadDuplicates a id x span
  | .binary _ op left right, p => by
    have sides : (right.check a id (left.check a id p).2).2.duplicates = p.duplicates :=
      (right.checkDuplicates id _).trans (left.checkDuplicates id p)
    simp only [Expr.check]
    split
    · rename_i v violated
      exact (Progress.reportPlain _ (BinaryOp.violationPlain violated) _).trans sides
    · exact sides
  | .not _ operand span, p => by
    simpa [Expr.check] using operand.checkDuplicates id p
  | .assign _ target value, p => by
    simp only [Expr.check]
    split
    · rename_i x named
      have walked : (value.check a id (p.checkStore a id x target.span).2).2.duplicates = p.duplicates :=
        (value.checkDuplicates id _).trans (p.checkStoreDuplicates a id x target.span)
      dsimp only
      split
      · exact (Progress.assignedDuplicates ..).trans walked
      · exact walked
    · exact ((value.checkDuplicates id _).trans (target.checkDuplicates id _)).trans
        (p.reportPlain rfl target.span)
  | .call _ m args span, p => by
    simp only [Expr.check]
    split
    · refine (Expr.checkArgsDuplicates id args _ _).trans ?_
      split
      · rfl
      · exact p.reportPlain rfl span
    · exact (Expr.checkArgsDuplicates id args _ _).trans (p.reportPlain rfl span)
  | .writeLine _ value span, p => by
    have walked := value.checkDuplicates id p
    simp only [Expr.check]
    split
    · exact (Progress.reportPlain _ rfl span).trans walked
    · exact walked
  | .randomBelow _ bound _, p => by
    simpa [Expr.check] using bound.checkDuplicates id p

theorem Expr.checkArgsDuplicates (id : Nat) : ∀ (es : List (Expr NodeId)) (types : List DataType)
    (p : Progress), (Expr.checkArgs a id es types p).duplicates = p.duplicates
  | [], _, p => rfl
  | e :: rest, [], p => (Expr.checkArgsDuplicates id rest [] _).trans (e.checkDuplicates id p)
  | e :: rest, type :: types, p => by
    rw [Expr.checkArgs, Expr.checkArgsDuplicates id rest types, Progress.expectTypeDuplicates,
      e.checkDuplicates id p]

end

theorem Declarator.violationsPlain (scopes : ScopeTree) (id : Nat) (d : Declarator NodeId) :
    ∀ v ∈ d.violations a scopes id, v.isDuplicateMethod = false := by
  intro v member
  simp only [Declarator.violations, List.mem_append, List.mem_ite_nil_right, List.mem_singleton,
    Option.mem_toList, Option.map_eq_some_iff] at member
  rcases member with ((⟨_, rfl⟩ | ⟨_, rfl⟩) | ⟨_, rfl⟩) | ⟨_, _, rfl⟩ <;> rfl

theorem Progress.reportAllPlain {vs : List Violation} {p : Progress} (span : Span)
    (plain : ∀ v ∈ vs, v.isDuplicateMethod = false) :
    (vs.foldl (fun p v => p.report v span) p).duplicates = p.duplicates := by
  induction vs generalizing p with
  | nil => rfl
  | cons v rest ih =>
    obtain ⟨here, later⟩ := List.forall_mem_cons.mp plain
    exact (ih later).trans (p.reportPlain here span)

theorem Declarator.checkDuplicates (type : Option DataType) (span : Span) (id : Nat)
    (d : Declarator NodeId) (p : Progress) : (d.check a type span id p).duplicates = p.duplicates := by
  have reported := Progress.reportAllPlain (p := p) d.span (d.violationsPlain (a := a) p.scopes id)
  have walked : ∀ e : Expr NodeId, (e.check a id ((d.violations a p.scopes id).foldl
      (fun p v => p.report v d.span) p)).2.duplicates = p.duplicates :=
    fun e => (e.checkDuplicates id _).trans reported
  unfold Declarator.check
  cases d.init <;> cases type <;> simp [walked, reported]

theorem Declarator.checkAllDuplicates (type : Option DataType) (span : Span) (id : Nat)
    (ds : List (Declarator NodeId)) (p : Progress) :
    (Declarator.checkAll a type span id ds p).duplicates = p.duplicates := by
  induction ds generalizing p with
  | nil => rfl
  | cons d rest ih => exact (ih _).trans (d.checkDuplicates type span id p)

theorem Expr.conditionDuplicates (id : Nat) (e : Expr NodeId) (span : Span) (p : Progress) :
    (e.checkCondition a id span p).duplicates = p.duplicates :=
  (Progress.expectTypeDuplicates ..).trans (e.checkDuplicates id p)

variable {returns : DataType}

mutual

theorem Stmt.checkDuplicates : ∀ (s : Stmt NodeId) {id : Nat} {p q : Progress},
    s.check a returns id p = .ok q → q.duplicates = p.duplicates
  | .expr _ e _, id, p, q, done => by
    cases done
    exact e.checkDuplicates id p
  | .declare _ type vars span, id, p, q, done => by
    cases done
    exact Declarator.checkAllDuplicates type span id vars p
  | .ret _ (some e) span, id, p, q, done => by
    cases done
    exact (Progress.expectTypeDuplicates ..).trans (e.checkDuplicates id p)
  | .ret _ none span, id, p, q, done => by
    cases done
    exact Progress.expectTypeDuplicates ..
  | .block _ body _, id, p, q, done => by
    obtain ⟨inner, _, done⟩ := bindOk.mp done
    exact Stmt.checkAllDuplicates body done
  | .ifThen _ cond yes span, id, p, q, done => by
    obtain ⟨inner, _, done⟩ := bindOk.mp done
    exact (yes.checkDuplicates done).trans (cond.conditionDuplicates inner span p)
  | .ifElse _ cond yes _ no span, id, p, q, done => by
    obtain ⟨inner, _, done⟩ := bindOk.mp done
    obtain ⟨m, first, done⟩ := bindOk.mp done
    obtain ⟨other, _, done⟩ := bindOk.mp done
    exact ((no.checkDuplicates done).trans (yes.checkDuplicates first)).trans
      (cond.conditionDuplicates inner span p)
  | .loop _ cond body span, id, p, q, done => by
    obtain ⟨inner, _, done⟩ := bindOk.mp done
    exact (body.checkDuplicates done).trans (cond.conditionDuplicates inner span p)

theorem Stmt.checkAllDuplicates : ∀ (ss : List (Stmt NodeId)) {id : Nat} {p q : Progress},
    Stmt.checkAll a returns ss id p = .ok q → q.duplicates = p.duplicates
  | [], id, p, q, done => by
    cases done
    rfl
  | s :: rest, id, p, q, done => by
    obtain ⟨m, first, done⟩ := bindOk.mp done
    exact (Stmt.checkAllDuplicates rest done).trans (s.checkDuplicates first)

end

theorem Method.checkReturnDuplicates {m : Method NodeId} {p q : Progress}
    (done : m.checkReturn a p = .ok q) : q.duplicates = p.duplicates := by
  unfold Method.checkReturn at done
  split at done
  · cases done
    rfl
  · obtain ⟨body, _, last⟩ := bindOk.mp done
    cases last
    split
    · rfl
    · simp [Progress.duplicates, duplicateReports, Violation.isDuplicateMethod]

def Method.duplicateReport (m : Method NodeId) : Diagnostic :=
  ⟨.duplicateMethod m.name, m.span, .start⟩

theorem Method.checkDuplicates {m : Method NodeId} {p q : Progress} (done : m.check a p = .ok q) :
    q.duplicates = p.duplicates ++ if 1 < a.methods.count m.name then [m.duplicateReport] else [] := by
  unfold Method.check at done
  obtain ⟨_, _, done⟩ := bindOk.mp done
  obtain ⟨middle, returned, done⟩ := bindOk.mp done
  obtain ⟨inner, _, done⟩ := bindOk.mp done
  have body := Stmt.checkAllDuplicates m.body.stmts done
  have given := Progress.receiveDuplicates
    (if 1 < a.methods.count m.name then p.report (.duplicateMethod m.name) m.span else p) m.params
  rw [body, Method.checkReturnDuplicates returned]
  refine given.trans ?_
  split
  · simp [Progress.reportDuplicates, Violation.isDuplicateMethod, duplicateReport]
  · simp

theorem Method.checkAllDuplicates {ms : List (Method NodeId)} {p q : Progress}
    (done : Method.checkAll a ms p = .ok q) : q.duplicates =
      p.duplicates ++ (ms.filter fun m => 1 < a.methods.count m.name).map duplicateReport := by
  induction ms generalizing p with
  | nil =>
    cases done
    simp
  | cons m rest ih =>
    obtain ⟨middle, first, last⟩ := bindOk.mp done
    rw [ih last, Method.checkDuplicates first]
    by_cases taken : 1 < a.methods.count m.name
    · simp [taken]
    · simp [taken]

end

namespace Program

def clashes (p : Program NodeId) (m : Method NodeId) : Bool :=
  1 < (p.methods.map Method.name).count m.name || m.name ∈ p.intrinsics.map Intrinsic.name

theorem clashesCount {p : Program NodeId} {m : Method NodeId} (declared : m ∈ p.methods) :
    decide (1 < p.annotated.methods.count m.name) = p.clashes m := by
  have once : 0 < (p.methods.map Method.name).count m.name :=
    List.count_pos_iff.mpr (List.mem_map.mpr ⟨m, declared, rfl⟩)
  rw [p.annotatedCount, clashes]
  by_cases used : m.name ∈ p.intrinsics.map Intrinsic.name
  · simp [used, once]
  · simp [used]

theorem startDuplicates (p : Program NodeId) : (p.annotated.startCheck p).duplicates = [] := by
  have quiet : p.annotated.diagnostics = [] := p.annotatedWalks.quiet
  simp only [Analysis.startCheck, quiet]
  split
  · rename_i v violated
    exact Progress.reportPlain _ (MethodTable.mainPlain violated) p.span
  · rfl

/-- The table of methods is complete and in order, methods are found in the same way at all times, and
the declarations that clash are reported, each of them once and in source order. -/
structure Tabled (p : Program NodeId) : Prop where
  signatures : p.annotated.methods.signatures =
    p.methods.map signature ++ firstEntries (p.entries p.annotated.typeOf?)
  single : ∀ x, ((firstEntries (p.entries p.annotated.typeOf?)).map Signature.name).count x =
    if x ∈ p.intrinsics.map Intrinsic.name then 1 else 0
  walking : ∀ x, ∀ v ∈ p.visits, v.walk.methods.find? x = (p.findMethod? x).map signature ∧
    ∀ e, v.part = .value e →
      (e.annotate v.here v.walk).2.methods.find? x = (p.findMethod? x).map signature
  walked : ∀ x, p.annotated.methods.find? x = (p.findMethod? x).map signature
  checked : ∀ x, (p.annotated.check p).2.methods.find? x = (p.findMethod? x).map signature
  reported : ∃ ds, (p.annotated.check p).1 = verdict ds ∧
    duplicateReports ds = (p.methods.filter p.clashes).map Method.duplicateReport

theorem methodTableExact {p : Program NodeId} (unique : p.tags.Nodup) : p.Tabled := by
  obtain ⟨q, done, checked⟩ := p.checkEnds (p.annotateCovers {})
  rw [← annotated] at done checked
  have signatures := p.annotatedSignatures unique
  have reports := Method.checkAllDuplicates done
  rw [p.startDuplicates, List.nil_append,
    List.filter_congr fun m member => p.clashesCount member] at reports
  refine ⟨signatures, fun x => ?_, fun x v member => ⟨p.visitsFound v member, fun e _ => ?_⟩,
    p.annotatedFind, fun x => ?_, q.diagnostics, ?_, reports⟩
  · -- What the count says of the whole table, less the declared methods.
    have counted := p.annotatedCount x
    have declared : (p.methods.map signature).countP (fun s => s.name == x) =
        (p.methods.map Method.name).count x := by
      rw [List.count, List.countP_map, List.countP_map]
      rfl
    rw [MethodTable.count, signatures, List.countP_append, declared] at counted
    rw [List.count, List.countP_map]
    exact Nat.add_left_cancel counted
  · exact (e.annotateFound v.here v.walk).trans (p.visitsFound v member)
  · rw [checked]
    exact p.annotatedFind x
  · rw [checked]
    rfl

def clashing : Program NodeId :=
  let place (line column : Nat) : Span := ⟨⟨line, column⟩, ⟨line, column⟩⟩
  let read (line column : Nat) : Expr Unit := .read () .int (place line column)
  let body : List (Stmt Unit) :=
    [.expr () (.writeLine () (.randomBelow () (read 2 2) (place 2 1)) (place 2 0)) {},
      .expr () (read 3 0) {}]
  let empty (x : String) (line : Nat) : Method Unit := ⟨(), x, none, [], ⟨(), [], {}⟩, place line 0⟩
  (Program.number ⟨(), [⟨(), "Main", none, [], ⟨(), body, {}⟩, place 1 0⟩, empty "Next" 5,
    empty "ReadInt" 6, empty "Next" 7, empty "Last" 8]⟩ 0).1

theorem clashingTabled :
    (firstEntries (clashing.entries clashing.annotated.typeOf?)).map (fun s =>
        (s.name, s.params, s.span.first.line, s.span.first.column)) =
        [("ReadInt", [], 2, 2), ("RandomInt", [.int], 2, 1), ("WriteLine", [.int], 2, 0)] ∧
      (clashing.methods.filter clashing.clashes).map (fun m => (m.name, m.span.first.line)) =
        [("Next", 5), ("ReadInt", 6), ("Next", 7)] ∧
      clashing.Tabled :=
  ⟨by decide +kernel, by decide +kernel, methodTableExact (by decide +kernel)⟩

end Program
end ClassCompiler
