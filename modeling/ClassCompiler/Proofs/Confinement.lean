import ClassCompiler.Proofs.Compilation
import ClassCompiler.Proofs.ControlPaths
import ClassCompiler.Proofs.Gathering

/-! Control inside the code of a method. The jumps of a piece of code lead to labels of the piece, so
it can only be left past its end. A return that stands directly in a body is therefore met by every way
through the code that comes as far: whatever stands behind it is out of reach. -/
namespace ClassCompiler

theorem Labelled.landing {n n' k : Nat} {part : List Instruction} {i : Instruction} {l : Label}
    (labelled : Labelled n n' part) (here : part[k]? = some i) (aims : i.jumpTarget? = some l) :
    ∃ j : Nat, part[j]? = some (.label l) :=
  List.getElem?_of_mem ((labelled.own l).mp ⟨i, List.mem_of_getElem? here, aims⟩)

theorem Labelled.step {n n' start k next : Nat} {code part : List Instruction} {i : Instruction}
    (labelled : Labelled n n' part) (placed : Placed code start part) (here : part[k]? = some i)
    (follows : Follows code (start + k) next) :
    i.isTerminal = false ∧ next = start + k + 1 ∨ ∃ j < part.length, next = start + j := by
  rcases (followsIff (placed.instrs here)).mp follows with falls | ⟨l, aims, target⟩
  · exact .inl falls
  · obtain ⟨j, there⟩ := labelled.landing here aims
    have same := target.symm.trans (placed.labels there)
    exact .inr ⟨j, (List.getElem?_eq_some_iff.mp there).1, Option.some.inj same⟩

structure Guarded (n : Nat) (code front : List Instruction) (kind : Option ValueKind) : Prop where
  split : ∃ rest, code = front ++ [.ret kind] ++ rest
  labelled : ∃ n', Labelled n n' (front ++ [.ret kind])

namespace Guarded
variable {n m : Nat} {code first front : List Instruction} {kind : Option ValueKind}

theorem behind (labelled : Labelled n m first) (guarded : Guarded m code front kind) :
    Guarded n (first ++ code) (first ++ front) kind := by
  obtain ⟨rest, rfl⟩ := guarded.split
  obtain ⟨n', inner⟩ := guarded.labelled
  exact ⟨⟨rest, by simp⟩, n', by simpa using labelled.append inner⟩

theorem path (guarded : Guarded n code front kind) (placed : Placed code 0 code) {pc : Nat}
    {trail : List Nat} (path : Path code (pc :: trail)) : pc ≤ front.length := by
  obtain ⟨rest, rfl⟩ := guarded.split
  obtain ⟨n', labelled⟩ := guarded.labelled
  -- On the steps of the path; each of them starts at or before the return.
  generalize whole : pc :: trail = all at path
  induction path generalizing pc trail with
  | start =>
    cases whole
    exact Nat.zero_le _
  | @step q next earlier path follows ih =>
    cases whole
    have inside := ih rfl
    have size : (front ++ [Instruction.ret kind]).length = front.length + 1 := by simp
    obtain ⟨i, here⟩ : ∃ i, (front ++ [Instruction.ret kind])[q]? = some i :=
      ⟨_, List.getElem?_eq_getElem (by omega)⟩
    rw [← Nat.zero_add q] at follows
    rcases labelled.step placed.left here follows with ⟨falls, rfl⟩ | ⟨j, within, rfl⟩
    · -- The last instruction of the front is the return, which does not fall through.
      rcases Nat.lt_or_ge q front.length with before | last
      · omega
      · obtain rfl : q = front.length := by omega
        rw [List.getElem?_concat_length] at here
        cases here
        contradiction
    · omega

end Guarded

/-- On the way through the code control is always at an instruction. It can go on by every way that the
instruction offers, and there is none exactly at a return. -/
structure Confined (code : List Instruction) (pc : Nat) (i : Instruction) : Prop where
  here : code[pc]? = some i
  falls : i.isTerminal = false → pc + 1 < code.length
  jumps : ∀ l, i.jumpTarget? = some l → ∃ place, code.idxOf? (.label l) = some place
  stops : (¬ ∃ next, Follows code pc next) ↔ ∃ kind, i = .ret kind

theorem Guarded.confined {n n' pc : Nat} {code front : List Instruction} {kind : Option ValueKind}
    {trail : List Nat} (guarded : Guarded n code front kind) (labelled : Labelled n n' code)
    (path : Path code (pc :: trail)) : ∃ i, Confined code pc i := by
  have placed := Placed.whole fun here there => labelled.once here there
  have before := guarded.path placed path
  obtain ⟨rest, same⟩ := guarded.split
  have size : code.length = front.length + (rest.length + 1) := by simp [same]
  obtain ⟨i, here⟩ : ∃ i, code[pc]? = some i := ⟨_, List.getElem?_eq_getElem (by omega)⟩
  have falls (goes : i.isTerminal = false) : pc + 1 < code.length := by
    rcases Nat.lt_or_ge pc front.length with inside | last
    · omega
    · obtain rfl : pc = front.length := by omega
      have stop : code[front.length]? = some (.ret kind) := by simp [same]
      cases here.symm.trans stop
      contradiction
  have jumps (l : Label) (aims : i.jumpTarget? = some l) :
      ∃ place, code.idxOf? (.label l) = some place := by
    obtain ⟨j, there⟩ := labelled.landing here aims
    exact ⟨_, placed.labels there⟩
  refine ⟨i, here, falls, jumps, fun stuck => ?_, ?_⟩
  · cases goes : i.isTerminal with
    | false => exact absurd ⟨pc + 1, (followsIff here).mpr (.inl ⟨goes, rfl⟩)⟩ stuck
    | true =>
      cases i with
      | ret kind => exact ⟨kind, rfl⟩
      | goto l =>
        obtain ⟨place, target⟩ := jumps l rfl
        exact absurd ⟨place, (followsJump here target).mpr rfl⟩ stuck
      | _ => contradiction
  · rintro ⟨kind, rfl⟩ ⟨next, follows⟩
    exact followsReturn here follows

theorem Labelled.confined {n n' pc : Nat} {front : List Instruction} {kind : Option ValueKind}
    {trail : List Nat} (labelled : Labelled n n' (front ++ [.ret kind]))
    (path : Path (front ++ [.ret kind]) (pc :: trail)) : ∃ i, Confined (front ++ [.ret kind]) pc i :=
  Guarded.confined ⟨⟨[], by simp⟩, n', labelled⟩ labelled path

section
variable {a : Analysis} {className : String}

theorem Stmt.emitsReturn {s : Stmt NodeId} {id n n' : Nat} {code : List Instruction}
    (returns : s.isReturn = true) (emits : s.Emits a className id n code n') :
    ∃ front kind, code = front ++ [.ret kind] := by
  cases emits with
  | ret => exact ⟨_, _, rfl⟩
  | leave => exact ⟨[], _, rfl⟩
  | _ => contradiction

theorem Stmt.emitAllGuarded {ss : List (Stmt NodeId)} {id n n' : Nat} {code : List Instruction}
    (returns : ss.any Stmt.isReturn = true) (emits : Stmt.EmitAll a className ss id n code n') :
    ∃ front kind, Guarded n code front kind := by
  induction ss generalizing n code with
  | nil => contradiction
  | cons s rest ih =>
    obtain _ | ⟨one, more⟩ := emits
    have labelled := s.emitsLabelled one
    by_cases last : s.isReturn = true
    · obtain ⟨front, kind, rfl⟩ := Stmt.emitsReturn last one
      exact ⟨front, kind, ⟨_, rfl⟩, _, labelled⟩
    · simp only [List.any_cons, last, Bool.false_or] at returns
      obtain ⟨front, kind, guarded⟩ := ih returns more
      exact ⟨_, kind, guarded.behind labelled⟩

theorem Method.emitsConfined {m : Method NodeId} {n n' : Nat} {made : CompiledMethod}
    (returns : m.returnType ≠ .void → m.body.stmts.any Stmt.isReturn = true)
    (emits : m.Emits a className n made n') {pc : Nat} {trail : List Nat}
    (path : Path made.code (pc :: trail)) : ∃ i, Confined made.code pc i := by
  have labelled := Method.emitsLabelled emits
  obtain ⟨_, _, _, body⟩ := emits
  -- A method without a result returns at the end of its code, any other at a return in its body.
  by_cases void : m.returnType = .void
  · simp only [if_pos void] at labelled path ⊢
    exact labelled.confined path
  · simp only [if_neg void, List.append_nil] at labelled path ⊢
    obtain ⟨front, kind, guarded⟩ := Stmt.emitAllGuarded (returns void) body
    exact guarded.confined labelled path

end

theorem Method.passAllReturn {F a : Analysis} {p q : Progress} {kept : List NodeId}
    {ms : List (Method NodeId)} (passes : Method.PassAll F p ms q) (run : Method.RunAll F kept ms a) :
    ∀ m ∈ ms, m.returnType ≠ .void → m.body.stmts.any Stmt.isReturn = true := by
  induction passes generalizing kept a with
  | nil => simp
  | cons first _ ih =>
    obtain ⟨here, later⟩ := run.cons
    intro m member
    rcases List.mem_cons.mp member with rfl | behind
    · intro solid
      obtain ⟨inner, bound, returns, _⟩ := first.body
      obtain ⟨_, _, known, _⟩ := here.body
      obtain rfl := Option.some.inj (bound.symm.trans known)
      exact here.inner.2.returns.symm.trans (returns solid)
    · exact ih later m behind

namespace Program

theorem controlConfined {p : Program NodeId} {options : Options} {c : ClassFile}
    (unique : p.tags.Nodup) (done : p.compile options = .ok c) :
    ∀ m ∈ c.methods, ∀ pc trail, Path m.code (pc :: trail) → ∃ i, Confined m.code pc i := by
  obtain ⟨a, analyzed, generated⟩ := compileParts done
  obtain ⟨ms, compiled, generated⟩ := bindOk.mp generated
  obtain ⟨q, clean, _⟩ := cleanOfAnalyze unique analyzed
  cases generated
  have returns := Method.passAllReturn clean.methods (annotatedRuns unique)
  intro made member pc trail path
  -- The two methods that every class has end with a return.
  rcases List.mem_cons.mp member with rfl | member
  · have labelled : Labelled 0 0 (initMethod.code.dropLast ++ [.ret none]) := initMethodLabelled 0
    exact labelled.confined path
  rcases List.mem_cons.mp member with rfl | member
  · have labelled : Labelled 0 0 ((mainMethod options.className).code.dropLast ++ [.ret none]) :=
      mainMethodLabelled options.className 0
    exact labelled.confined path
  obtain ⟨m, inside, n, n', emits⟩ := relatedFrom (Method.compileAllEmits compiled) member
  exact Method.emitsConfined (returns m inside) emits path

/-- Behind the return of `Pick` stands a loop, and behind the loop nothing: its code ends with a label. -/
def earlyReturn : Program NodeId :=
  let b : Expr Unit := .var () "b" {}
  let int (n : Int) : Option (Expr Unit) := some (.literal () (.int n) {})
  let flip : Stmt Unit := .expr () (.assign () b (.not () b {})) {}
  let pick : List (Stmt Unit) :=
    [.ifElse () b (.ret () (int 1) {}) () (.loop () (.not () b {}) flip {}) {}, .ret () (int 2) {},
      .loop () b flip {}]
  let main : Stmt Unit := .expr () (.call () "Pick" [.literal () (.bool true) {}] {}) {}
  (Program.number ⟨(), [⟨(), "Pick", some .int, [⟨(), .bool, "b", {}⟩], ⟨(), pick, {}⟩, {}⟩,
    ⟨(), "Main", none, [], ⟨(), [main], {}⟩, {}⟩]⟩ 0).1

theorem earlyReturnConfined : ∃ c, earlyReturn.compile {} = .ok c ∧
    (∃ m l, c.methods[2]? = some m ∧ m.code.getLast? = some (.label l)) ∧
    ∀ m ∈ c.methods, ∀ pc trail, Path m.code (pc :: trail) → ∃ i, Confined m.code pc i := by
  have ends : (earlyReturn.compile {}).toOption.bind (fun c =>
      c.methods[2]?.bind fun m => m.code.getLast?) = some (.label ⟨9⟩) := by decide +kernel
  cases made : earlyReturn.compile {} with
  | error failure => simp [made, Except.toOption] at ends
  | ok c =>
    simp only [made, Except.toOption, Option.bind_some] at ends
    obtain ⟨m, found, last⟩ := Option.bind_eq_some_iff.mp ends
    exact ⟨c, rfl, ⟨m, _, found, last⟩, controlConfined (by decide +kernel) made⟩

end Program
end ClassCompiler
