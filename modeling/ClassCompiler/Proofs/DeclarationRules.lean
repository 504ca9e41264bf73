import ClassCompiler.Proofs.Compilation
import ClassCompiler.Proofs.RuleDecision

/-! The rules for declared variables in a program that has been accepted: a variable has the type of a
value and a name of its own. Every local variable keeps to them, and its name is also apart from those
of the parameters. Nothing is asked of the parameters themselves, so a parameter may be without value,
be called like a method, or share its name with another parameter. -/
namespace ClassCompiler

section
variable {τ : Type}

mutual

/-- The local variables of a statement, each with the names declared in its scope and in the scopes
around it as far as the parameters of the method; a name stands there as often as it is declared. -/
def Stmt.locals : Stmt τ → List String → List (Declarator τ × List String)
  | .expr .., _ | .ret .., _ => []
  | .declare _ _ vars _, around => vars.map fun d => (d, around)
  | .block _ body _, around => Stmt.localsAll body (body.flatMap Stmt.names ++ around)
  | .ifThen _ _ yes _, around => yes.locals (yes.names ++ around)
  | .ifElse _ _ yes _ no _, around =>
    yes.locals (yes.names ++ around) ++ no.locals (no.names ++ around)
  | .loop _ _ body _, around => body.locals (body.names ++ around)

def Stmt.localsAll : List (Stmt τ) → List String → List (Declarator τ × List String)
  | [], _ => []
  | s :: rest, around => s.locals around ++ Stmt.localsAll rest around

end

def Method.locals (m : Method τ) : List (Declarator τ × List String) :=
  Stmt.localsAll m.body.stmts (m.body.stmts.flatMap Stmt.names ++ m.params.map Param.name)

mutual

theorem Stmt.localsDeclarators : ∀ (s : Stmt τ) (around : List String),
    (s.locals around).map Prod.fst = s.declarators
  | .expr .., _ | .ret .., _ => rfl
  | .declare _ _ vars _, around => by simp [Stmt.locals, Stmt.declarators, Function.comp_def]
  | .block _ body _, around => Stmt.localsAllDeclarators body _
  | .ifThen _ _ yes _, around => yes.localsDeclarators _
  | .ifElse _ _ yes _ no _, around => by
    simp [Stmt.locals, Stmt.declarators, yes.localsDeclarators, no.localsDeclarators]
  | .loop _ _ body _, around => body.localsDeclarators _

theorem Stmt.localsAllDeclarators : ∀ (ss : List (Stmt τ)) (around : List String),
    (Stmt.localsAll ss around).map Prod.fst = Stmt.declaratorsAll ss
  | [], _ => rfl
  | s :: rest, around => by
    simp [Stmt.localsAll, Stmt.declaratorsAll, s.localsDeclarators, Stmt.localsAllDeclarators rest]

end

mutual

theorem Stmt.localsNamed : ∀ (s : Stmt τ) {front back : List String}, s.names ⊆ front →
    ∀ l ∈ s.locals (front ++ back), ∃ own, l.2 = own ++ back ∧ l.1.name ∈ own
  | .expr .., _, _, _, l, member | .ret .., _, _, _, l, member => by simp [Stmt.locals] at member
  | .declare _ _ vars _, front, back, named, l, member => by
    obtain ⟨d, inside, rfl⟩ := List.mem_map.mp member
    exact ⟨front, rfl, named (List.mem_map.mpr ⟨d, inside, rfl⟩)⟩
  | .block _ body _, front, back, _, l, member => by
    rw [Stmt.locals, ← List.append_assoc] at member
    exact Stmt.localsAllNamed body (fun s inside x named => List.mem_append_left _
      (List.mem_flatMap.mpr ⟨s, inside, named⟩)) l member
  | .ifThen _ _ yes _, front, back, _, l, member => by
    rw [Stmt.locals, ← List.append_assoc] at member
    exact yes.localsNamed (List.subset_append_left _ _) l member
  | .ifElse _ _ yes _ no _, front, back, _, l, member => by
    rw [Stmt.locals, ← List.append_assoc, ← List.append_assoc] at member
    rcases List.mem_append.mp member with first | second
    · exact yes.localsNamed (List.subset_append_left _ _) l first
    · exact no.localsNamed (List.subset_append_left _ _) l second
  | .loop _ _ body _, front, back, _, l, member => by
    rw [Stmt.locals, ← List.append_assoc] at member
    exact body.localsNamed (List.subset_append_left _ _) l member

theorem Stmt.localsAllNamed : ∀ (ss : List (Stmt τ)) {front back : List String},
    (∀ s ∈ ss, s.names ⊆ front) → ∀ l ∈ Stmt.localsAll ss (front ++ back),
      ∃ own, l.2 = own ++ back ∧ l.1.name ∈ own
  | [], _, _, _, l, member => by simp [Stmt.localsAll] at member
  | s :: rest, front, back, named, l, member => by
    rcases List.mem_append.mp member with here | later
    · exact s.localsNamed (named s (List.mem_cons_self ..)) l here
    · exact Stmt.localsAllNamed rest
        (fun other inside => named other (List.mem_cons_of_mem _ inside)) l later

end

theorem Method.localsNamed (m : Method τ) : ∀ l ∈ m.locals,
    ∃ own, l.2 = own ++ m.params.map Param.name ∧ l.1.name ∈ own :=
  Stmt.localsAllNamed m.body.stmts fun s inside _ named =>
    List.mem_flatMap.mpr ⟨s, inside, named⟩

end

section
variable {F : Analysis}

mutual

theorem Stmt.localsPlaced (ordered : F.scopes.Ordered) : ∀ (s : Stmt NodeId) {kept : List NodeId}
    {id : Nat} {a : Analysis} {around : List String}, s.Run F kept id a → F.Counts id around →
      ∀ l ∈ s.locals around, ∃ i, (i, l.1) ∈ s.placed F id ∧ F.Counts i l.2
  | .expr .., _, _, _, _, _, _, l, member | .ret .., _, _, _, _, _, _, l, member => by
    simp [Stmt.locals] at member
  | .declare _ _ vars _, _, id, _, around, _, counts, l, member => by
    obtain ⟨d, inside, rfl⟩ := List.mem_map.mp member
    exact ⟨id, List.mem_map.mpr ⟨d, inside, rfl⟩, counts⟩
  | .block n body _, _, id, a, around, run, counts, l, member => by
    obtain ⟨bound, inner⟩ := run.block
    rw [Stmt.placed, F.scopeAtBound bound]
    exact Stmt.localsAllPlaced ordered body inner (run.blockInner.counts ordered counts) l member
  | .ifThen n cond yes _, _, id, a, around, run, counts, l, member => by
    obtain ⟨bound, _, inner⟩ := run.ifThen
    rw [Stmt.placed, F.scopeAtBound bound]
    exact yes.localsPlaced ordered inner (run.ifThenInner.counts ordered counts) l member
  | .ifElse n cond yes m no _, _, id, a, around, run, counts, l, member => by
    obtain ⟨before, _, beside, otherwise⟩ := run.ifElse
    obtain ⟨bound, _, inner⟩ := before.ifThen
    rw [Stmt.placed, F.scopeAtBound bound, F.scopeAtBound beside]
    rcases List.mem_append.mp member with first | second
    · obtain ⟨i, placed, here⟩ :=
        yes.localsPlaced ordered inner (before.ifThenInner.counts ordered counts) l first
      exact ⟨i, List.mem_append_left _ placed, here⟩
    · obtain ⟨i, placed, here⟩ :=
        no.localsPlaced ordered otherwise (run.elseInner.counts ordered counts) l second
      exact ⟨i, List.mem_append_right _ placed, here⟩
  | .loop n cond body _, _, id, a, around, run, counts, l, member => by
    obtain ⟨bound, _, inner⟩ := run.loop
    rw [Stmt.placed, F.scopeAtBound bound]
    exact body.localsPlaced ordered inner (run.loopInner.counts ordered counts) l member

theorem Stmt.localsAllPlaced (ordered : F.scopes.Ordered) : ∀ (ss : List (Stmt NodeId))
    {kept : List NodeId} {id : Nat} {a : Analysis} {around : List String},
    Stmt.RunAll F kept id ss a → F.Counts id around → ∀ l ∈ Stmt.localsAll ss around,
      ∃ i, (i, l.1) ∈ Stmt.placedAll F ss id ∧ F.Counts i l.2
  | [], _, _, _, _, _, _, l, member => by simp [Stmt.localsAll] at member
  | s :: rest, _, _, _, _, run, counts, l, member => by
    obtain ⟨here, later⟩ := run.cons
    rcases List.mem_append.mp member with first | others
    · obtain ⟨i, placed, counted⟩ := s.localsPlaced ordered here counts l first
      exact ⟨i, List.mem_append_left _ placed, counted⟩
    · obtain ⟨i, placed, counted⟩ := Stmt.localsAllPlaced ordered rest later counts l others
      exact ⟨i, List.mem_append_right _ placed, counted⟩

end

theorem Method.localsPlaced {p : Program NodeId} {kept : List NodeId} {ms : List (Method NodeId)}
    {a : Analysis} (run : Method.RunAll p.annotated kept ms a) {m : Method NodeId} (member : m ∈ ms) :
    ∀ l ∈ m.locals, ∃ i, (i, l.1) ∈ Program.bodyPlaced p.annotated m ∧ p.annotated.Counts i l.2 := by
  induction ms generalizing a kept with
  | nil => contradiction
  | cons first rest ih =>
    obtain ⟨here, later⟩ := run.cons
    rcases List.mem_cons.mp member with rfl | behind
    · obtain ⟨_, _, bound, body⟩ := here.body
      rw [Program.bodyPlaced, Analysis.scopeAtBound bound]
      exact Stmt.localsAllPlaced p.annotatedTidy.ordered _ body here.counts
    · exact ih later behind

end

namespace Program
variable {p : Program NodeId} {a : Analysis}

/-- A local variable of an accepted program has the type of a value, no name of a method or of an
intrinsic in use, and no name that is declared again in its scope or around it. A parameter shares its
name with no local variable of the method. -/
theorem localsKeepRules (unique : p.tags.Nodup) (done : p.analyze = .ok a) :
    ∀ m ∈ p.methods, m.locals.map Prod.fst = Stmt.declaratorsAll m.body.stmts ∧
      (∀ l ∈ m.locals,
        (∃ type, a.typeOf? l.1.tag = some type ∧ type ≠ .void ∧ type ≠ .self) ∧
        l.1.name ∉ p.taken ∧ l.2.count l.1.name = 1) ∧
      ∀ param ∈ m.params, ∀ d ∈ Stmt.declaratorsAll m.body.stmts, d.name ≠ param.name := by
  obtain ⟨q, clean, rfl⟩ := cleanOfAnalyze unique done
  intro m member
  have listed : m.locals.map Prod.fst = _ := Stmt.localsAllDeclarators m.body.stmts _
  have few : ∀ l ∈ m.locals, l.2.count l.1.name ≤ 1 := by
    intro l inside
    obtain ⟨i, placed, counts⟩ := Method.localsPlaced (annotatedRuns unique) member l inside
    exact counts l.1.name ▸ (clean.allowed m member i l.1 placed).single
  refine ⟨listed, fun l inside => ?_, fun param given d inside same => ?_⟩
  · obtain ⟨i, placed, _⟩ := Method.localsPlaced (annotatedRuns unique) member l inside
    have allowed := clean.allowed m member i l.1 placed
    obtain ⟨type, recorded, value⟩ := allowed.typed
    refine ⟨⟨type, recorded, DataType.isValueIff.mp value⟩, annotatedFree.mp allowed.free, ?_⟩
    obtain ⟨own, around, here⟩ := m.localsNamed l inside
    have some' : 0 < l.2.count l.1.name := by
      rw [around]
      exact List.count_pos_iff.mpr (List.mem_append_left _ here)
    have most := few l inside
    omega
  · rw [← listed] at inside
    obtain ⟨l, listed, rfl⟩ := List.mem_map.mp inside
    obtain ⟨own, around, here⟩ := m.localsNamed l listed
    have most := few l listed
    rw [around, List.count_append] at most
    have first := List.count_pos_iff.mpr here
    have second : 0 < (m.params.map Param.name).count l.1.name :=
      List.count_pos_iff.mpr (List.mem_map.mpr ⟨param, given, same.symm⟩)
    omega

theorem sampleLocalsKeepRules : ∃ a, sampleProgram.analyze = .ok a ∧
    ∀ m ∈ sampleProgram.methods, ∀ l ∈ m.locals,
      (∃ type, a.typeOf? l.1.tag = some type ∧ type ≠ .void ∧ type ≠ .self) ∧
        l.1.name ∉ sampleProgram.taken ∧ l.2.count l.1.name = 1 := by
  obtain ⟨c, made⟩ := sampleCompiles
  obtain ⟨a, analyzed, _⟩ := compileParts made
  exact ⟨a, analyzed, fun m member =>
    (localsKeepRules (by decide +kernel) analyzed m member).2.1⟩

def looseParams : Program NodeId :=
  let body (n : Nat) : Block NodeId := ⟨⟨n⟩, [], {}⟩
  ⟨⟨8⟩, [⟨⟨5⟩, "Show", none, [⟨⟨0⟩, .void, "x", {}⟩, ⟨⟨1⟩, .int, "Show", {}⟩,
      ⟨⟨2⟩, .int, "y", {}⟩, ⟨⟨3⟩, .float, "y", {}⟩], body 4, {}⟩,
    ⟨⟨7⟩, "Main", none, [], body 6, {}⟩]⟩

theorem looseParamsAccepted : looseParams.tags.Nodup ∧ (∃ a, looseParams.analyze = .ok a) ∧
    ∃ m ∈ looseParams.methods, (∃ param ∈ m.params, param.type = .void) ∧
      (∃ param ∈ m.params, param.name ∈ looseParams.taken) ∧
      ∃ param ∈ m.params, 1 < (m.params.map Param.name).count param.name := by
  refine ⟨by decide +kernel, ?_, by decide +kernel⟩
  cases done : looseParams.analyze with
  | ok a => exact ⟨a, rfl⟩
  | error failure =>
    have accepted : looseParams.analyze.toOption.isSome = true := by decide +kernel
    simp [done, Except.toOption] at accepted

end Program
end ClassCompiler
