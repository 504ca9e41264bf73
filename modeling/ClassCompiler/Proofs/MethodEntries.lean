import ClassCompiler.Proofs.Fitting
import ClassCompiler.Proofs.Gathering
import ClassCompiler.Proofs.StackNeed
import ClassCompiler.Proofs.Visits

/-! The table of methods, entry by entry. Behind the declared methods it lists the intrinsics, in the
order in which the first walk is done with the first use of each. Looking up a method gives the same
answer at all times, and the check reports the declarations whose name is taken twice. -/
namespace ClassCompiler

def Intrinsic.entry (i : Intrinsic) (params : List DataType) (span : Span) : Signature :=
  ⟨i.name, i.resultType, params, .intrinsic, span⟩

def firstEntries : List Signature → List Signature
  | [] => []
  | s :: rest => s :: (firstEntries rest).filter fun later => later.name != s.name

namespace MethodTable

def note (t : MethodTable) (s : Signature) : MethodTable :=
  if t.knowsIntrinsic s.name then t else ⟨t.signatures ++ [s]⟩

def noteAll (t : MethodTable) (entries : List Signature) : MethodTable := entries.foldl note t

@[simp] theorem noteAllNil (t : MethodTable) : t.noteAll [] = t := rfl

@[simp] theorem noteAllCons (t : MethodTable) (s : Signature) (rest : List Signature) :
    t.noteAll (s :: rest) = (t.note s).noteAll rest := rfl

@[simp] theorem noteAllAppend (t : MethodTable) (first second : List Signature) :
    t.noteAll (first ++ second) = (t.noteAll first).noteAll second := List.foldl_append

theorem knowsNoted {t : MethodTable} {s : Signature} (own : s.origin = .intrinsic) (x : String) :
    (MethodTable.mk (t.signatures ++ [s])).knowsIntrinsic x = (t.knowsIntrinsic x || s.name == x) := by
  simp [knowsIntrinsic, own]

theorem noteAllSignatures {entries : List Signature} (t : MethodTable)
    (own : ∀ s ∈ entries, s.origin = .intrinsic) :
    (t.noteAll entries).signatures =
      t.signatures ++ (firstEntries entries).filter fun s => !t.knowsIntrinsic s.name := by
  -- On the entries, for all tables, since each of them changes what the table knows.
  induction entries generalizing t with
  | nil => simp [firstEntries]
  | cons s rest ih =>
    have later := fun u : MethodTable => ih u fun r member => own r (List.mem_cons_of_mem _ member)
    rw [noteAllCons, later, firstEntries, List.filter_cons, List.filter_filter]
    cases known : t.knowsIntrinsic s.name with
    | true =>
      -- Entries of this name are passed over anyway, so leaving them out makes no difference.
      have same : t.note s = t := by simp [note, known]
      rw [same]
      simp only [Bool.not_true, Bool.false_eq_true, if_false]
      congr 1
      apply List.filter_congr
      intro r member
      by_cases named : r.name = s.name
      · simp [named, known]
      · simp [named]
    | false =>
      have added : t.note s = ⟨t.signatures ++ [s]⟩ := by simp [note, known]
      rw [added]
      simp only [knowsNoted (own s List.mem_cons_self), Bool.not_or, Bool.not_false, if_true,
        List.append_assoc, List.singleton_append]
      congr 2
      apply List.filter_congr
      intro r member
      simp [bne, Bool.beq_comm]

end MethodTable

section
variable (types : NodeId → Option DataType)

mutual

/-- The entries for the intrinsics of an expression, in the order in which the walk is done with them: an
argument before what is around it, and the value of an assignment before the target. -/
def Expr.entries : Expr NodeId → List Signature
  | .literal .. | .var .. => []
  | .binary _ _ left right => left.entries ++ right.entries
  | .not _ operand _ => operand.entries
  | .assign _ target value => value.entries ++ target.entries
  | .call _ _ args _ => Expr.entriesAll args
  | .writeLine n value span => value.entries ++ [Intrinsic.writeLine.entry (types n).toList span]
  | .read _ input span => [(Intrinsic.read input).entry [] span]
  | .random _ span => [Intrinsic.randomInt.entry [] span]
  | .randomBelow _ bound span => bound.entries ++ [Intrinsic.randomInt.entry [.int] span]

def Expr.entriesAll : List (Expr NodeId) → List Signature
  | [] => []
  | e :: rest => e.entries ++ Expr.entriesAll rest

end

def Declarator.entries (d : Declarator NodeId) : List Signature :=
  d.init.elim [] (Expr.entries types)

mutual

def Stmt.entries : Stmt NodeId → List Signature
  | .expr _ e _ => e.entries types
  | .declare _ _ vars _ => vars.flatMap (Declarator.entries types)
  | .ret _ e _ => e.elim [] (Expr.entries types)
  | .block _ body _ => Stmt.entriesAll body
  | .ifThen _ cond yes _ => cond.entries types ++ yes.entries
  | .ifElse _ cond yes _ no _ => cond.entries types ++ yes.entries ++ no.entries
  | .loop _ cond body _ => cond.entries types ++ body.entries

def Stmt.entriesAll : List (Stmt NodeId) → List Signature
  | [] => []
  | s :: rest => s.entries ++ Stmt.entriesAll rest

end

def Program.entries (p : Program NodeId) : List Signature :=
  p.methods.flatMap fun m => Stmt.entriesAll types m.body.stmts

mutual

theorem Expr.entriesOrigin : ∀ (e : Expr NodeId), ∀ s ∈ e.entries types, s.origin = .intrinsic
  | .literal .. | .var .. | .read .. | .random .. => by simp [Expr.entries, Intrinsic.entry]
  | .binary _ _ left right => List.forall_mem_append.mpr ⟨left.entriesOrigin, right.entriesOrigin⟩
  | .not _ operand _ => operand.entriesOrigin
  | .assign _ target value => List.forall_mem_append.mpr ⟨value.entriesOrigin, target.entriesOrigin⟩
  | .call _ _ args _ => Expr.entriesAllOrigin args
  | .writeLine _ value _ => List.forall_mem_append.mpr ⟨value.entriesOrigin, by simp [Intrinsic.entry]⟩
  | .randomBelow _ bound _ =>
    List.forall_mem_append.mpr ⟨bound.entriesOrigin, by simp [Intrinsic.entry]⟩

theorem Expr.entriesAllOrigin : ∀ (es : List (Expr NodeId)), ∀ s ∈ Expr.entriesAll types es,
    s.origin = .intrinsic
  | [] => by simp [Expr.entriesAll]
  | e :: rest => List.forall_mem_append.mpr ⟨e.entriesOrigin, Expr.entriesAllOrigin rest⟩

end

theorem Expr.entriesOptionOrigin (e : Option (Expr NodeId)) : ∀ s ∈ e.elim [] (Expr.entries types),
    s.origin = .intrinsic := by
  cases e with
  | none => simp
  | some e => exact e.entriesOrigin types

mutual

theorem Stmt.entriesOrigin : ∀ (s : Stmt NodeId), ∀ t ∈ s.entries types, t.origin = .intrinsic
  | .expr _ e _ => e.entriesOrigin types
  | .declare _ _ vars _ => by
    intro t member
    obtain ⟨d, _, inside⟩ := List.mem_flatMap.mp member
    exact Expr.entriesOptionOrigin types d.init t inside
  | .ret _ e _ => Expr.entriesOptionOrigin types e
  | .block _ body _ => Stmt.entriesAllOrigin body
  | .ifThen _ cond yes _ => List.forall_mem_append.mpr ⟨cond.entriesOrigin types, yes.entriesOrigin⟩
  | .ifElse _ cond yes _ no _ => List.forall_mem_append.mpr
    ⟨List.forall_mem_append.mpr ⟨cond.entriesOrigin types, yes.entriesOrigin⟩, no.entriesOrigin⟩
  | .loop _ cond body _ => List.forall_mem_append.mpr ⟨cond.entriesOrigin types, body.entriesOrigin⟩

theorem Stmt.entriesAllOrigin : ∀ (ss : List (Stmt NodeId)), ∀ t ∈ Stmt.entriesAll types ss,
    t.origin = .intrinsic
  | [] => by simp [Stmt.entriesAll]
  | s :: rest => List.forall_mem_append.mpr ⟨s.entriesOrigin, Stmt.entriesAllOrigin rest⟩

end

theorem Program.entriesOrigin (p : Program NodeId) : ∀ s ∈ p.entries types, s.origin = .intrinsic := by
  intro s member
  obtain ⟨m, _, inside⟩ := List.mem_flatMap.mp member
  exact Stmt.entriesAllOrigin types m.body.stmts s inside

end

namespace Analysis
variable (a : Analysis) (id : Nat)

@[simp] theorem pushMethods (n : Nat) : (a.push id n).methods = a.methods := rfl

@[simp] theorem popMethods (n : Nat) : (a.pop id n).methods = a.methods := rfl

@[simp] theorem mapScopesMethods (f : ScopeTree → ScopeTree) : (a.mapScopes f).methods = a.methods := rfl

@[simp] theorem enteredMethods (n : NodeId) : (a.entered id n).methods = a.methods := rfl

@[simp] theorem setTypeMethods (n : NodeId) (type : Option DataType) :
    (a.setType n type).methods = a.methods := by
  cases type <;> rfl

@[simp] theorem useMethodMethods (name : String) : (a.useMethod id name).2.methods = a.methods := by
  unfold useMethod
  split
  · dsimp only
    split <;> rfl
  · rfl

@[simp] theorem useIntrinsicMethods (i : Intrinsic) (params : List DataType) (span : Span) :
    (a.useIntrinsic id i params span).methods = a.methods.note (i.entry params span) := rfl

@[simp] theorem inScopeMethods (n : NodeId) (inside : Nat → Analysis → Analysis) :
    (a.inScope id n inside).methods = (inside a.scopes.size (a.entered id n)).methods := rfl

theorem assignMethods (n : NodeId) (keep : Bool) (target : Expr NodeId)
    (walkTarget walkValue : Analysis → Option DataType × Analysis) :
    (a.annotateAssign id n keep target walkTarget walkValue).2.methods =
      target.asName.elim (walkTarget (walkValue a).2).2.methods fun _ => (walkValue a).2.methods := by
  obtain ⟨stored, made, ends⟩ := a.annotateAssignEnds id n keep target walkTarget walkValue
  rw [ends, made]
  cases keep <;> cases target.asName <;> simp

end Analysis

namespace Expr
variable {F a : Analysis} {kept : List NodeId} {id : Nat}

theorem Run.written {n : NodeId} {value : Expr NodeId} {span : Span}
    (run : (Expr.writeLine n value span).Run F kept id a) :
    F.typeOf? n = (value.annotate id (a.push id 1)).1 := by
  have listed : (Expr.writeLine n value span).tags = n :: value.tags := by simp [tags, nodes]
  have unique := run.unique
  rw [listed, List.nodup_cons] at unique
  have recorded : F.typeOf? n = ((Expr.writeLine n value span).annotate id a).2.typeOf? n := run.recorded
  rw [recorded]
  simp only [Expr.annotate]
  cases type : (value.annotate id (a.push id 1)).1 with
  | some found => exact (Analysis.typeOfSetType ..).trans (if_pos rfl)
  | none =>
    -- Nothing is recorded then, and nothing has been before.
    have walked := ((Analysis.Walks.push a id 1).trans (value.annotateWalks id _)).type n
      (by simpa using unique.1)
    exact walked.trans (run.unseen n (by simp [listed]))

end Expr

section
variable {F a : Analysis} {kept : List NodeId} {id : Nat}

theorem Expr.assignEntries {n : NodeId} {target value : Expr NodeId} {keep : Bool} {tags : List NodeId}
    (segment : Analysis.Segment F kept tags a (a.annotateAssign id n keep target
      (fun a => target.annotate id a) fun a => value.annotate id a).2)
    (inside : id < a.scopes.size) (sub : (Expr.assign n target value).tags.Sublist tags)
    (first : value.Run F kept id a →
      (value.annotate id a).2.methods = a.methods.noteAll (value.entries F.typeOf?))
    (second : ∀ {b : Analysis}, target.Run F kept id b →
      (target.annotate id b).2.methods = b.methods.noteAll (target.entries F.typeOf?)) :
    (a.annotateAssign id n keep target (fun a => target.annotate id a)
      fun a => value.annotate id a).2.methods =
        a.methods.noteAll ((Expr.assign n target value).entries F.typeOf?) := by
  rw [Analysis.assignMethods, Expr.entries, MethodTable.noteAllAppend]
  cases named : target.asName with
  | none =>
    obtain ⟨valueRun, targetRun⟩ := Expr.assignSides segment inside named sub
    rw [Option.elim_none, second targetRun, first valueRun]
  | some x =>
    cases target with
    | var k y place =>
      rw [Option.elim_some, first (Expr.assignRun segment inside sub)]
      rfl
    | _ => simp [Expr.asName] at named

mutual

theorem Expr.annotateEntries : ∀ (e : Expr NodeId) {a : Analysis}, e.Run F kept id a →
    (e.annotate id a).2.methods = a.methods.noteAll (e.entries F.typeOf?)
  | .literal .., a, run | .var .., a, run | .read .., a, run | .random .., a, run => by
    simp [Expr.annotate, Expr.entries]
  | .binary n op left right, a, run => by
    by_cases logical : op.group = .logical
    · obtain ⟨leftRun, rightRun⟩ := run.logical logical
      simp [Expr.annotateLogical logical, Expr.entries, right.annotateEntries rightRun,
        left.annotateEntries leftRun]
    · obtain ⟨leftRun, rightRun⟩ := run.strict logical
      simp [Expr.annotateStrict logical, Expr.entries, right.annotateEntries rightRun,
        left.annotateEntries leftRun]
  | .not n operand span, a, run => by
    simp [Expr.annotate, Expr.entries, operand.annotateEntries run.not]
  | .assign n target value, a, run =>
    Expr.assignEntries run.toSegment run.inside (List.Sublist.refl _)
      (fun valueRun => value.annotateEntries valueRun) fun targetRun => target.annotateEntries targetRun
  | .call n m args span, a, run => by
    simp [Expr.annotate, Expr.entries, Expr.annotateAllEntries args run.call]
  | .writeLine n value span, a, run => by
    simp [Expr.annotate, Expr.entries, run.written, value.annotateEntries run.writeLine]
  | .randomBelow n bound span, a, run => by
    simp [Expr.annotate, Expr.entries, bound.annotateEntries run.randomBelow]

theorem Expr.annotateAllEntries : ∀ (es : List (Expr NodeId)) {a : Analysis},
    Expr.RunAll F kept id es a →
      (Expr.annotateAll id es a).methods = a.methods.noteAll (Expr.entriesAll F.typeOf? es)
  | [], a, run => rfl
  | e :: rest, a, run => by
    obtain ⟨here, later⟩ := run.cons
    simp [Expr.annotateAll, Expr.entriesAll, Expr.annotateAllEntries rest later,
      e.annotateEntries here]

end

theorem Declarator.annotateAllEntries {type : Option DataType} {ds : List (Declarator NodeId)}
    (run : Declarator.RunAll F kept type id ds a) : (Declarator.annotateAll type id ds a).methods =
      a.methods.noteAll (ds.flatMap (Declarator.entries F.typeOf?)) := by
  induction ds generalizing a kept with
  | nil => rfl
  | cons d rest ih =>
    obtain ⟨here, later⟩ := run.cons
    rw [Declarator.annotateAll, ih later, List.flatMap_cons, MethodTable.noteAllAppend]
    congr 1
    cases given : d.init with
    | none => simp [Declarator.annotate, Declarator.entries, given]
    | some e =>
      simp [Declarator.annotate, Declarator.entries, given, e.annotateEntries (here.init given)]

theorem Stmt.exprEntries {n : NodeId} {e : Expr NodeId} {span : Span}
    (run : (Stmt.expr n e span).Run F kept id a) :
    ((Stmt.expr n e span).annotate id a).methods = a.methods.noteAll (e.entries F.typeOf?) := by
  by_cases assigns : ∃ m target value, e = .assign m target value
  · obtain ⟨m, target, value, rfl⟩ := assigns
    exact Expr.assignEntries run.toSegment run.inside Stmt.exprPart
      (fun valueRun => value.annotateEntries valueRun) fun targetRun => target.annotateEntries targetRun
  · have plain : ∀ m target value, e ≠ .assign m target value :=
      fun m target value same => assigns ⟨m, target, value, same⟩
    rw [← e.annotateEntries (run.plain plain), Stmt.annotate, Expr.droppedPlain plain]
    split <;> simp

mutual

theorem Stmt.annotateEntries : ∀ (s : Stmt NodeId) {kept : List NodeId} {id : Nat} {a : Analysis},
    s.Run F kept id a → (s.annotate id a).methods = a.methods.noteAll (s.entries F.typeOf?)
  | .expr .., _, _, _, run => Stmt.exprEntries run
  | .declare .., _, _, _, run => Declarator.annotateAllEntries run.declare
  | .ret n none span, _, _, a, run => by simp [Stmt.annotate, Stmt.entries]
  | .ret n (some e) span, _, _, a, run => by
    simp [Stmt.annotate, Stmt.entries, e.annotateEntries run.ret]
  | .block n body span, _, _, a, run => Stmt.annotateAllEntries body run.block.2
  | .ifThen n cond yes span, _, _, a, run => by
    obtain ⟨_, condRun, yesRun⟩ := run.ifThen
    simp [Stmt.annotate, Stmt.entries, yes.annotateEntries yesRun, cond.annotateEntries condRun]
  | .ifElse n cond yes m no span, _, id, a, run => by
    obtain ⟨thenRun, _, _, noRun⟩ := run.ifElse
    obtain ⟨_, condRun, yesRun⟩ := thenRun.ifThen
    have first : ((Stmt.ifThen n cond yes span).annotate id a).methods =
        a.methods.noteAll (cond.entries F.typeOf? ++ yes.entries F.typeOf?) := by
      simp [Stmt.annotate, yes.annotateEntries yesRun, cond.annotateEntries condRun]
    -- The second branch is walked behind the first, in a scope of its own.
    rw [Stmt.entries, MethodTable.noteAllAppend, ← first]
    exact no.annotateEntries noRun
  | .loop n cond body span, _, _, a, run => by
    obtain ⟨_, condRun, bodyRun⟩ := run.loop
    simp [Stmt.annotate, Stmt.entries, body.annotateEntries bodyRun, cond.annotateEntries condRun]

theorem Stmt.annotateAllEntries : ∀ (ss : List (Stmt NodeId)) {kept : List NodeId} {id : Nat}
    {a : Analysis}, Stmt.RunAll F kept id ss a →
      (Stmt.annotateAll ss id a).methods = a.methods.noteAll (Stmt.entriesAll F.typeOf? ss)
  | [], _, _, a, run => rfl
  | s :: rest, _, _, a, run => by
    obtain ⟨here, later⟩ := run.cons
    simp [Stmt.annotateAll, Stmt.entriesAll, Stmt.annotateAllEntries rest later,
      s.annotateEntries here]

end

theorem Param.annotateAllMethods (ps : List (Param NodeId)) (a : Analysis) :
    (Param.annotateAll id ps a).methods = a.methods := by
  induction ps generalizing a with
  | nil => rfl
  | cons p rest ih => simp [Param.annotateAll, ih]

theorem Method.annotateAllEntries {ms : List (Method NodeId)} (run : Method.RunAll F kept ms a) :
    (Method.annotateAll ms a).methods =
      a.methods.noteAll (ms.flatMap fun m => Stmt.entriesAll F.typeOf? m.body.stmts) := by
  induction ms generalizing a kept with
  | nil => rfl
  | cons m rest ih =>
    obtain ⟨here, later⟩ := run.cons
    obtain ⟨_, _, _, body⟩ := here.body
    have walked : (m.annotate a).methods = (Stmt.annotateAll m.body.stmts (opened a m).scopes.size
        ((opened a m).entered a.scopes.size m.body.tag)).methods := rfl
    rw [Method.annotateAll, ih later, walked, Stmt.annotateAllEntries _ body, List.flatMap_cons,
      MethodTable.noteAllAppend, Analysis.enteredMethods, opened, Param.annotateAllMethods,
      Analysis.enteredMethods]

end

theorem Program.annotatedSignatures {p : Program NodeId} (unique : p.tags.Nodup) :
    p.annotated.methods.signatures =
      p.methods.map signature ++ firstEntries (p.entries p.annotated.typeOf?) := by
  have walked : p.annotated.methods = p.begun.methods.noteAll (p.entries p.annotated.typeOf?) := by
    rw [p.annotatedEq]
    exact Method.annotateAllEntries (p.runs unique)
  have unknown (x : String) : p.begun.methods.knowsIntrinsic x = false := by
    simp [MethodTable.knowsIntrinsic, p.begunMethods, signature]
  rw [walked, MethodTable.noteAllSignatures _ (p.entriesOrigin _), p.begunMethods]
  simp [unknown]

section
variable {F : Analysis} {x : String}

theorem Expr.annotateFound (here : Nat) (e : Expr NodeId) (a : Analysis) :
    (e.annotate here a).2.methods.find? x = a.methods.find? x := (e.annotateWalks here a).found x

mutual

theorem Expr.visitsFound (here id : Nat) : ∀ (e : Expr NodeId) (a : Analysis) (q : Progress),
    ∀ v ∈ e.visits F here id a q, v.walk.methods.find? x = a.methods.find? x
  | .literal .., a, q | .var .., a, q | .read .., a, q | .random .., a, q => by
    simp [Expr.visits, Expr.visit]
  | .binary n op left right, a, q => by
    refine List.forall_mem_cons.mpr ⟨rfl, List.forall_mem_append.mpr
      ⟨left.visitsFound here id a q, fun v member => ?_⟩⟩
    rw [right.visitsFound here id _ _ v member]
    split <;> exact left.annotateFound here a
  | .not n operand span, a, q => List.forall_mem_cons.mpr ⟨rfl, operand.visitsFound here id a q⟩
  | .assign n target value, a, q => by
    refine List.forall_mem_cons.mpr ⟨rfl, ?_⟩
    have behind := value.annotateFound (x := x) here a
    split
    · exact List.forall_mem_cons.mpr ⟨behind, value.visitsFound here id a _⟩
    · refine List.forall_mem_append.mpr ⟨fun v member => ?_, value.visitsFound here id a _⟩
      exact (target.visitsFound here id _ _ v member).trans behind
  | .call n m args span, a, q =>
    List.forall_mem_cons.mpr ⟨rfl, Expr.visitsAllFound here id args (a.push here 1) q⟩
  | .writeLine n value span, a, q =>
    List.forall_mem_cons.mpr ⟨rfl, value.visitsFound here id (a.push here 1) q⟩
  | .randomBelow n bound span, a, q =>
    List.forall_mem_cons.mpr ⟨rfl, bound.visitsFound here id ((a.push here 2).pop here 1) q⟩

theorem Expr.visitsAllFound (here id : Nat) : ∀ (es : List (Expr NodeId)) (a : Analysis)
    (q : Progress), ∀ v ∈ Expr.visitsAll F here id es a q,
      v.walk.methods.find? x = a.methods.find? x
  | [], a, q => by simp [Expr.visitsAll]
  | e :: rest, a, q => by
    refine List.forall_mem_append.mpr ⟨e.visitsFound here id a q, fun v member => ?_⟩
    exact (Expr.visitsAllFound here id rest _ _ v member).trans (e.annotateFound here a)

end

theorem Expr.visitsOptionFound (here id : Nat) (e : Option (Expr NodeId)) (a : Analysis)
    (q : Progress) : ∀ v ∈ Expr.visitsOption F here id e a q,
      v.walk.methods.find? x = a.methods.find? x := by
  cases e with
  | none => simp [Expr.visitsOption]
  | some e => exact e.visitsFound here id a q

theorem Declarator.visitsAllFound (type : Option DataType) (span : Span) (here id : Nat)
    (ds : List (Declarator NodeId)) (a : Analysis) (q : Progress) :
    ∀ v ∈ Declarator.visitsAll F type span here id ds a q,
      v.walk.methods.find? x = a.methods.find? x := by
  induction ds generalizing a q with
  | nil => simp [Declarator.visitsAll]
  | cons d rest ih =>
    have ready : (d.ready here a).methods.find? x = a.methods.find? x := by
      unfold Declarator.ready
      split
      · exact Expr.annotateFound here _ a
      · rfl
    refine List.forall_mem_cons.mpr ⟨ready, List.forall_mem_append.mpr
      ⟨Expr.visitsOptionFound here id d.init a q, fun v member => ?_⟩⟩
    exact (ih _ _ v member).trans ((d.annotateWalks type here a).found x)

theorem Stmt.guardedFound {returns : DataType} {here id : Nat} {n : NodeId} {a : Analysis}
    {q r : Progress} {body : Stmt NodeId} (cond : Expr NodeId)
    (rest : ∀ (here id : Nat) (b : Analysis) (q : Progress), here < b.scopes.size →
      ∀ v ∈ body.visits F returns here id b q, v.walk.methods.find? x = b.methods.find? x) :
    ∀ v ∈ cond.visits F a.scopes.size id (a.entered here n) q ++
        body.visits F returns a.scopes.size id
          ((cond.annotate a.scopes.size (a.entered here n)).2.pop a.scopes.size 1) r,
      v.walk.methods.find? x = a.methods.find? x := by
  have walks := cond.conditionWalks a.scopes.size (a.entered here n)
  have inside := Nat.lt_of_lt_of_le (a.enteredIn here n) walks.size
  refine List.forall_mem_append.mpr
    ⟨cond.visitsFound a.scopes.size id (a.entered here n) q, fun v member => ?_⟩
  exact (rest _ _ _ _ inside v member).trans (walks.found x)

mutual

theorem Stmt.visitsFound (returns : DataType) : ∀ (s : Stmt NodeId) (here id : Nat) (a : Analysis)
    (q : Progress), here < a.scopes.size → ∀ v ∈ s.visits F returns here id a q,
      v.walk.methods.find? x = a.methods.find? x
  | .expr n e span, here, id, a, q, _ =>
    List.forall_mem_cons.mpr ⟨rfl, e.visitsFound here id a q⟩
  | .declare n type vars span, here, id, a, q, _ =>
    List.forall_mem_cons.mpr ⟨rfl, Declarator.visitsAllFound type span here id vars a q⟩
  | .ret n e span, here, id, a, q, _ =>
    List.forall_mem_cons.mpr ⟨rfl, Expr.visitsOptionFound here id e a q⟩
  | .block n body span, here, id, a, q, _ =>
    List.forall_mem_cons.mpr ⟨rfl, Stmt.visitsAllFound returns body a.scopes.size (F.scopeAt n)
      (a.entered here n) q (a.enteredIn here n)⟩
  | .ifThen n cond yes span, here, id, a, q, _ =>
    List.forall_mem_cons.mpr ⟨rfl, Stmt.guardedFound cond (yes.visitsFound returns)⟩
  | .ifElse n cond yes m no span, here, id, a, q, inside => by
    have walks := (Stmt.ifThen n cond yes span).annotateWalks here a inside
    refine List.forall_mem_cons.mpr ⟨rfl, List.forall_mem_append.mpr
      ⟨Stmt.guardedFound cond (yes.visitsFound returns), List.forall_mem_cons.mpr
        ⟨walks.found x, fun v member => ?_⟩⟩⟩
    exact (no.visitsFound returns _ _ _ _ (Analysis.enteredIn _ here m) v member).trans (walks.found x)
  | .loop n cond body span, here, id, a, q, _ =>
    List.forall_mem_cons.mpr ⟨rfl, Stmt.guardedFound cond (body.visitsFound returns)⟩

theorem Stmt.visitsAllFound (returns : DataType) : ∀ (ss : List (Stmt NodeId)) (here id : Nat)
    (a : Analysis) (q : Progress), here < a.scopes.size →
      ∀ v ∈ Stmt.visitsAll F returns ss here id a q, v.walk.methods.find? x = a.methods.find? x
  | [], here, id, a, q, _ => by simp [Stmt.visitsAll]
  | s :: rest, here, id, a, q, inside => by
    have walks := s.annotateWalks here a inside
    refine List.forall_mem_append.mpr ⟨s.visitsFound returns here id a q inside, fun v member => ?_⟩
    exact (Stmt.visitsAllFound returns rest here id _ _ (Nat.lt_of_lt_of_le inside walks.size) v
      member).trans (walks.found x)

end

theorem Param.visitsAllFound (here id : Nat) (ps : List (Param NodeId)) (a : Analysis) (q : Progress) :
    ∀ v ∈ Param.visitsAll here id ps a q, v.walk.methods.find? x = a.methods.find? x := by
  induction ps generalizing a q with
  | nil => simp [Param.visitsAll]
  | cons p rest ih => exact List.forall_mem_cons.mpr ⟨rfl, ih _ _⟩

theorem Method.visitsFound (m : Method NodeId) (a : Analysis) (q : Progress) :
    ∀ v ∈ m.visits F a q, v.walk.methods.find? x = a.methods.find? x := by
  have given : (opened a m).methods = a.methods := Param.annotateAllMethods m.params _
  refine List.forall_mem_cons.mpr ⟨rfl, List.forall_mem_append.mpr
    ⟨Param.visitsAllFound a.scopes.size _ m.params _ q, List.forall_mem_cons.mpr ⟨?_, ?_⟩⟩⟩
  · rw [given]
  · rw [← given]
    exact Stmt.visitsAllFound m.returnType m.body.stmts _ _ _ _ (Analysis.enteredIn _ _ _)

theorem Method.visitsAllFound (ms : List (Method NodeId)) (a : Analysis) (q : Progress)
    (rooted : ScopeTree.root < a.scopes.size) :
    ∀ v ∈ Method.visitsAll F ms a q, v.walk.methods.find? x = a.methods.find? x := by
  induction ms generalizing a q with
  | nil => simp [Method.visitsAll]
  | cons m rest ih =>
    have walks := m.annotateWalks a rooted
    refine List.forall_mem_append.mpr ⟨m.visitsFound a q, fun v member => ?_⟩
    exact (ih _ _ (Nat.lt_of_lt_of_le rooted walks.size) v member).trans (walks.found x)

theorem Program.visitsFound (p : Program NodeId) :
    ∀ v ∈ p.visits, v.walk.methods.find? x = (p.findMethod? x).map signature := by
  rw [← p.annotatedFind, p.annotatedWalks.found]
  exact List.forall_mem_cons.mpr ⟨rfl, Method.visitsAllFound p.methods p.begun _ Nat.zero_lt_one⟩

end

end ClassCompiler
