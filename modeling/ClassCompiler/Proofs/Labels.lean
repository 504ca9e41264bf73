import ClassCompiler.Proofs.CallLinks
import Mathlib.Data.List.NodupEquivFin

/-! The labels in code. A piece of code is given the number of labels used before it and returns the
number used after it. Every label in between is placed in the piece once, and these are the labels that
the piece jumps to. -/
namespace ClassCompiler

/-- Code with the labels from `n` up to `n'`. -/
structure Labelled (n n' : Nat) (code : List Instruction) : Prop where
  upward : n ≤ n'
  placed : ∀ l : Label, code.count (.label l) = if n ≤ l.index ∧ l.index < n' then 1 else 0
  aimed : ∀ l : Label, (∃ i ∈ code, i.jumpTarget? = some l) ↔ n ≤ l.index ∧ l.index < n'

namespace Labelled
variable {n m n' : Nat} {code rest : List Instruction} {i : Instruction}

theorem append (first : Labelled n m code) (second : Labelled m n' rest) :
    Labelled n n' (code ++ rest) where
  upward := Nat.le_trans first.upward second.upward
  placed l := by
    have lower := first.upward
    have upper := second.upward
    rw [List.count_append, first.placed, second.placed]
    split_ifs <;> omega
  aimed l := by
    have lower := first.upward
    have upper := second.upward
    have either : (∃ i ∈ code ++ rest, i.jumpTarget? = some l) ↔
        (∃ i ∈ code, i.jumpTarget? = some l) ∨ ∃ i ∈ rest, i.jumpTarget? = some l := by
      simp only [List.mem_append, or_and_right, exists_or]
    rw [either, first.aimed, second.aimed]
    omega

theorem straight (n : Nat) (simple : code.all Instruction.isStraight = true) :
    Labelled n n code where
  upward := Nat.le_refl n
  placed l := by
    rw [if_neg (by omega), List.count_eq_zero]
    intro here
    exact absurd (List.all_eq_true.mp simple _ here) (by simp [Instruction.isStraight])
  aimed l := by
    refine ⟨fun ⟨i, here, aims⟩ => ?_, fun inside => by omega⟩
    have plain := List.all_eq_true.mp simple i here
    cases i <;> simp [Instruction.isStraight, Instruction.jumpTarget?] at plain aims

theorem follow (labelled : Labelled n n' code) (simple : rest.all Instruction.isStraight = true) :
    Labelled n n' (code ++ rest) :=
  labelled.append (straight n' simple)

theorem lead (simple : code.all Instruction.isStraight = true) (labelled : Labelled n n' rest) :
    Labelled n n' (code ++ rest) :=
  (straight n simple).append labelled

theorem jumpNoLabel {l : Label} (aims : i.jumpTarget? = some l) (k : Label) : i ≠ .label k := by
  rintro rfl
  simp [Instruction.jumpTarget?] at aims

theorem more {l : Label} (labelled : Labelled n n' code) (aims : i.jumpTarget? = some l)
    (inside : n ≤ l.index ∧ l.index < n') : Labelled n n' (i :: code) where
  upward := labelled.upward
  placed k := by
    rw [List.count_cons_of_ne (jumpNoLabel aims k), labelled.placed]
  aimed k := by
    have either : (∃ j ∈ i :: code, j.jumpTarget? = some k) ↔
        some l = some k ∨ ∃ j ∈ code, j.jumpTarget? = some k := by
      simp only [List.mem_cons, or_and_right, exists_or, exists_eq_left, aims]
    rw [either, labelled.aimed]
    refine ⟨?_, .inr⟩
    rintro (same | there)
    · exact Option.some.inj same ▸ inside
    · exact there

theorem mark (aims : i.jumpTarget? = some ⟨n⟩) : Labelled n (n + 1) [i, .label ⟨n⟩] where
  upward := Nat.le_succ n
  placed l := by
    rw [List.count_cons_of_ne (jumpNoLabel aims l), List.count_singleton]
    by_cases here : l.index = n
    · subst here
      simp
    · have away : (Instruction.label ⟨n⟩ == .label l) = false := by
        rw [beq_eq_false_iff_ne]
        intro same
        cases same
        exact here rfl
      rw [away, if_neg (by simp), if_neg (by omega)]
  aimed l := by
    refine ⟨fun ⟨j, here, leads⟩ => ?_, fun inside => ⟨i, List.mem_cons_self .., ?_⟩⟩
    · rcases List.mem_cons.mp here with rfl | last
      · obtain rfl : ⟨n⟩ = l := Option.some.inj (aims.symm.trans leads)
        exact ⟨Nat.le_refl n, Nat.lt_succ_self n⟩
      · obtain rfl := List.mem_singleton.mp last
        contradiction
    · rw [aims, show l = ⟨n⟩ from congrArg Label.mk (show l.index = n by omega)]

theorem reorder (labelled : Labelled n n' code) (same : ∀ i, rest.count i = code.count i) :
    Labelled n n' rest where
  upward := labelled.upward
  placed l := by rw [same, labelled.placed]
  aimed l := by
    have listed (i : Instruction) : i ∈ rest ↔ i ∈ code := by
      rw [← List.count_pos_iff, same, List.count_pos_iff]
    simp only [listed, labelled.aimed]

theorem select (aims : i.jumpTarget? = some ⟨n⟩) (b : Bool) :
    Labelled n (n + 2) ([i] ++ Instruction.selectBool b ⟨n⟩ ⟨n + 1⟩) := by
  have jump : (Instruction.goto ⟨n + 1⟩).jumpTarget? = some ⟨n + 1⟩ := rfl
  have pushes : Labelled (n + 2) (n + 2) [Instruction.pushBool b, Instruction.pushBool !b] :=
    straight _ rfl
  refine (((mark aims).append (mark jump)).append pushes).reorder fun j => ?_
  simp only [Instruction.selectBool, List.count_append, List.count_cons, List.count_nil]
  omega

theorem few (labelled : Labelled n n' code) (l : Label) : code.count (.label l) ≤ 1 := by
  rw [labelled.placed]
  split <;> omega

theorem once (labelled : Labelled n n' code) {j k : Nat} {l : Label}
    (here : code[j]? = some (.label l)) (there : code[k]? = some (.label l)) : j = k := by
  have few := labelled.few l
  have twice (j k : Nat) (here : code[j]? = some (.label l)) (there : code[k]? = some (.label l))
      (before : j < k) : False := by
    obtain ⟨inside, same⟩ := List.getElem?_eq_some_iff.mp here
    obtain ⟨within, equal⟩ := List.getElem?_eq_some_iff.mp there
    have double : code.Duplicate (.label l) := List.duplicate_iff_exists_distinct_get.mpr
      ⟨⟨j, inside⟩, ⟨k, within⟩, before, same.symm, equal.symm⟩
    have := List.duplicate_iff_two_le_count.mp double
    omega
  rcases Nat.lt_trichotomy j k with before | same | behind
  · exact absurd before (twice j k here there)
  · exact same
  · exact absurd behind (twice k j there here)

theorem apart (labelled : Labelled n n' (code ++ rest)) {l : Label} (placed : .label l ∈ rest) :
    .label l ∉ code := by
  intro before
  have few := labelled.few l
  rw [List.count_append] at few
  have := List.count_pos_iff.mpr before
  have := List.count_pos_iff.mpr placed
  omega

theorem own (labelled : Labelled n n' code) (l : Label) :
    (∃ i ∈ code, i.jumpTarget? = some l) ↔ .label l ∈ code := by
  rw [labelled.aimed, ← List.count_pos_iff, labelled.placed]
  split_ifs with inside
  · exact iff_of_true inside Nat.one_pos
  · exact iff_of_false inside (Nat.lt_irrefl 0)

end Labelled

section
variable {a : Analysis} {className : String}

theorem compareLabelled {cond : Condition} {n : Nat} {type : DataType} {test : List Instruction}
    (made : compareCode cond ⟨n⟩ type = .ok test) (b : Bool) :
    Labelled n (n + 2) (test ++ Instruction.selectBool b ⟨n⟩ ⟨n + 1⟩) := by
  refine compareCases made ?_ (.select rfl b) (.select rfl b)
  have compared : Labelled n n [Instruction.fcmpl] := .straight n rfl
  exact compared.append (.select rfl b)

mutual

theorem Expr.emitsLabelled (id : Nat) : ∀ (e : Expr NodeId) {n n' : Nat} {code : List Instruction},
    e.Emits a className id n code n' → Labelled n n' code
  | .literal _ value _, n, _, _, .literal =>
    .straight n (value.codeCases (fun _ => rfl) (fun _ => rfl) (fun _ => rfl) fun _ => rfl)
  | .var .., n, _, _, .var _ => .straight n rfl
  | .binary _ _ left right, _, _, _, .arith _ one other _ _ =>
    ((left.emitsLabelled id one).append (right.emitsLabelled id other)).follow rfl
  | .binary _ _ left right, _, _, _, .compare _ one other _ tested => by
    rw [List.append_assoc]
    exact ((left.emitsLabelled id one).append (right.emitsLabelled id other)).append
      (compareLabelled tested true)
  | .binary _ _ left right, n, _, _, .logical (b := b) _ one other => by
    -- the two labels are taken first but placed last
    have aims : (Instruction.branch (if b then .eq else .ne) ⟨n⟩).jumpTarget? = some ⟨n⟩ := rfl
    have tests := (Labelled.select aims b).more aims ⟨Nat.le_refl n, show n < n + 2 by omega⟩
    refine ((tests.append (left.emitsLabelled id one)).append
      (right.emitsLabelled id other)).reorder fun j => ?_
    simp only [List.count_append, List.count_cons, List.count_nil]
    omega
  | .not _ operand _, _, _, _, .not inner => by
    rw [List.append_assoc]
    exact (operand.emitsLabelled id inner).append (.select rfl true)
  | .assign _ _ value, _, _, _, .assign inner _ =>
    ((value.emitsLabelled id inner).follow rfl).follow rfl
  | .call _ _ args _, _, _, _, .call _ given _ =>
    (Labelled.lead rfl (Expr.emitAllLabelled id args given)).follow rfl
  | .writeLine _ value _, _, _, _, .writeLine inner _ printed =>
    (Labelled.lead rfl (value.emitsLabelled id inner)).follow (printCases printed fun _ => rfl)
  | .read .., n, _, _, .read => .straight n rfl
  | .random .., n, _, _, .random => .straight n rfl
  | .randomBelow _ bound _, _, _, _, .randomBelow inner =>
    (Labelled.lead rfl (bound.emitsLabelled id inner)).follow rfl
termination_by structural e => e

theorem Expr.emitAllLabelled (id : Nat) : ∀ (es : List (Expr NodeId)) {n n' : Nat}
    {code : List Instruction}, Expr.EmitAll a className id es n code n' → Labelled n n' code
  | [], n, _, _, .nil => .straight n rfl
  | e :: rest, _, _, _, .cons one more =>
    (e.emitsLabelled id one).append (Expr.emitAllLabelled id rest more)
termination_by structural es => es

end

theorem Declarator.emitAllLabelled {id : Nat} {ds : List (Declarator NodeId)} {n n' : Nat}
    {code : List Instruction} (emits : Declarator.EmitAll a className id ds n code n') :
    Labelled n n' code := by
  induction emits with
  | nil => exact .straight _ rfl
  | bare _ _ ih => exact ih
  | initial _ inner _ _ ih => exact ((Expr.emitsLabelled id _ inner).follow rfl).append ih

theorem Expr.droppedLabelled {id : Nat} {node : NodeId} {e : Expr NodeId} {n n' : Nat}
    {code : List Instruction} (emits : e.EmitsDropped a className id node n code n') :
    Labelled n n' code := by
  cases emits with
  | assign inner _ => exact (Expr.emitsLabelled id _ inner).follow rfl
  | silent _ inner _ => exact e.emitsLabelled id inner
  | popped _ inner _ _ => exact (e.emitsLabelled id inner).follow rfl

mutual

theorem Stmt.emitsLabelled : ∀ (s : Stmt NodeId) {id n n' : Nat} {code : List Instruction},
    s.Emits a className id n code n' → Labelled n n' code
  | .expr .., _, _, _, _, .expr inner => Expr.droppedLabelled inner
  | .declare .., _, _, _, _, .declare inner => Declarator.emitAllLabelled inner
  | .ret _ (some e) _, id, _, _, _, .ret inner _ => (e.emitsLabelled id inner).follow rfl
  | .ret _ none _, _, n, _, _, .leave _ => .straight n rfl
  | .block _ body _, _, _, _, _, .block _ inside => Stmt.emitAllLabelled body inside
  | .ifThen _ cond yes _, _, _, _, _, .ifThen (m := m) _ tested inside => by
    have past : (Instruction.branch .eq ⟨m⟩).jumpTarget? = some ⟨m⟩ := rfl
    refine (((cond.emitsLabelled _ tested).append (.mark past)).append
      (yes.emitsLabelled inside)).reorder fun j => ?_
    simp only [List.count_append, List.count_cons, List.count_nil]
    omega
  | .ifElse _ cond yes _ no _, _, _, _, _, .ifElse (m := m) (k := k) _ tested inside _ otherwise => by
    have past : (Instruction.branch .eq ⟨m⟩).jumpTarget? = some ⟨m⟩ := rfl
    have across : (Instruction.goto ⟨k⟩).jumpTarget? = some ⟨k⟩ := rfl
    refine (((((cond.emitsLabelled _ tested).append (.mark past)).append
      (yes.emitsLabelled inside)).append (.mark across)).append
        (no.emitsLabelled otherwise)).reorder fun j => ?_
    simp only [List.count_append, List.count_cons, List.count_nil]
    omega
  | .loop _ cond body _, _, n, _, _, .loop _ tested inside => by
    have back : (Instruction.goto ⟨n⟩).jumpTarget? = some ⟨n⟩ := rfl
    have past : (Instruction.branch .eq ⟨n + 1⟩).jumpTarget? = some ⟨n + 1⟩ := rfl
    refine ((((Labelled.mark back).append (.mark past)).append
      (cond.emitsLabelled _ tested)).append (body.emitsLabelled inside)).reorder fun j => ?_
    simp only [List.count_append, List.count_cons, List.count_nil]
    omega
termination_by structural s => s

theorem Stmt.emitAllLabelled : ∀ (ss : List (Stmt NodeId)) {id n n' : Nat} {code : List Instruction},
    Stmt.EmitAll a className ss id n code n' → Labelled n n' code
  | [], _, n, _, _, .nil => .straight n rfl
  | s :: rest, _, _, _, _, .cons one more =>
    (s.emitsLabelled one).append (Stmt.emitAllLabelled rest more)
termination_by structural ss => ss

end

theorem Method.emitsLabelled {m : Method NodeId} {n n' : Nat} {made : CompiledMethod}
    (emits : m.Emits a className n made n') : Labelled n n' made.code := by
  obtain ⟨_, _, _, body⟩ := emits
  exact (Stmt.emitAllLabelled m.body.stmts body).follow (by split <;> rfl)

/-- The methods of a class share one count of labels, so the code of all of them is labelled as if it
were one piece. -/
theorem Method.compileAllLabelled {ms : List (Method NodeId)} {n : Nat}
    {made : List CompiledMethod × Nat} (done : Method.compileAll a className ms n = .ok made) :
    Labelled n made.2 (made.1.flatMap CompiledMethod.code) ∧
      ∀ c ∈ made.1, ∃ k k', Labelled k k' c.code := by
  induction ms generalizing n made with
  | nil =>
    cases done
    exact ⟨.straight n rfl, by simp⟩
  | cons m rest ih =>
    obtain ⟨first, here, done⟩ := bindOk.mp done
    obtain ⟨others, behind, done⟩ := bindOk.mp done
    cases done
    have labelled := Method.emitsLabelled (Method.compileEmits here)
    obtain ⟨all, each⟩ := ih behind
    exact ⟨labelled.append all, List.forall_mem_cons.mpr ⟨⟨n, first.2, labelled⟩, each⟩⟩

end

theorem initMethodLabelled (n : Nat) : Labelled n n initMethod.code := .straight n rfl

theorem mainMethodLabelled (className : String) (n : Nat) :
    Labelled n n (mainMethod className).code := .straight n rfl

/-- The labels of a class are numbered from 0 without a gap, and each is placed once. Within a method
the labels that are jumped to are those that are placed. -/
theorem Analysis.generatedLabels {a : Analysis} {options : Options} {p : Program NodeId} {c : ClassFile}
    (made : a.generate options p = .ok c) :
    (∃ n, ∀ l : Label, (c.methods.flatMap CompiledMethod.code).count (.label l) =
      if l.index < n then 1 else 0) ∧
    ∀ m ∈ c.methods, ∀ l : Label, (∃ i ∈ m.code, i.jumpTarget? = some l) ↔ .label l ∈ m.code := by
  obtain ⟨ms, compiled, made⟩ := bindOk.mp made
  cases made
  obtain ⟨all, each⟩ := Method.compileAllLabelled compiled
  have whole := (initMethodLabelled 0).append ((mainMethodLabelled options.className 0).append all)
  have every : ∀ m ∈ initMethod :: mainMethod options.className :: ms.1, ∃ k k', Labelled k k' m.code :=
    List.forall_mem_cons.mpr ⟨⟨0, 0, initMethodLabelled 0⟩,
      List.forall_mem_cons.mpr ⟨⟨0, 0, mainMethodLabelled options.className 0⟩, each⟩⟩
  refine ⟨⟨ms.2, fun l => ?_⟩, fun m member l => ?_⟩
  · have count := whole.placed l
    simpa using count
  · obtain ⟨k, k', labelled⟩ := every m member
    exact labelled.own l

theorem Program.sampleLabels : ∃ c, sampleProgram.annotated.generate {} sampleProgram = .ok c ∧
    (∃ n, ∀ l : Label, (c.methods.flatMap CompiledMethod.code).count (.label l) =
      if l.index < n then 1 else 0) ∧
    ∀ m ∈ c.methods, ∀ l : Label, (∃ i ∈ m.code, i.jumpTarget? = some l) ↔ .label l ∈ m.code := by
  cases made : sampleProgram.annotated.generate {} sampleProgram with
  | ok c => exact ⟨c, rfl, Analysis.generatedLabels made⟩
  | error fault =>
    have works : (sampleProgram.annotated.generate {} sampleProgram).toOption.isSome = true := by
      decide +kernel
    simp [made, Except.toOption] at works

end ClassCompiler
