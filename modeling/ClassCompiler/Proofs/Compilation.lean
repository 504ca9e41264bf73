import ClassCompiler.Compile
import ClassCompiler.Numbering
import ClassCompiler.Proofs.CheckTotal
import ClassCompiler.Proofs.CompiledMethods

/-! What holds of every program that has been analyzed and of every class that has been made: the
analysis never asks in vain for what it has noted itself, its code can be made, and the code keeps to
the stack limits and to the kinds of the values on the stack. -/
namespace ClassCompiler

theorem DataType.descriptorsNamed {types : List DataType} {d : String}
    (made : DataType.descriptors types = .ok d) : ∀ type ∈ types, type ≠ .self := by
  induction types generalizing d with
  | nil => simp
  | cons type rest ih =>
    obtain ⟨first, head, made⟩ := bindOk.mp made
    obtain ⟨others, tail, _⟩ := bindOk.mp made
    intro other member
    rcases List.mem_cons.mp member with rfl | behind
    · exact DataType.descriptorOkIff.mp ⟨first, head⟩
    · exact ih tail other behind

theorem methodDescriptorNamed {params : List DataType} {returns : DataType} {d : String}
    (made : methodDescriptor params returns = .ok d) :
    (∀ type ∈ params, type ≠ .self) ∧ returns ≠ .self := by
  obtain ⟨inside, described, made⟩ := bindOk.mp made
  obtain ⟨result, returned, _⟩ := bindOk.mp made
  exact ⟨DataType.descriptorsNamed described, DataType.descriptorOkIff.mp ⟨result, returned⟩⟩

theorem Method.compileAllNamed {a : Analysis} {className : String} {ms : List (Method NodeId)}
    {n : Nat} {made : List CompiledMethod × Nat} (done : Method.compileAll a className ms n = .ok made) :
    ∀ m ∈ ms, (∀ param ∈ m.params, param.type ≠ .self) ∧ m.returnType ≠ .self := by
  induction ms generalizing n made with
  | nil => simp
  | cons m rest ih =>
    obtain ⟨c, here, done⟩ := bindOk.mp done
    obtain ⟨cs, later, _⟩ := bindOk.mp done
    intro other member
    rcases List.mem_cons.mp member with rfl | behind
    · obtain ⟨_, _, here⟩ := bindOk.mp here
      obtain ⟨d, described, _⟩ := bindOk.mp here
      obtain ⟨params, returns⟩ := methodDescriptorNamed described
      exact ⟨fun param given => params param.type (List.mem_map.mpr ⟨param, given, rfl⟩), returns⟩
    · exact ih later other behind

namespace Program

theorem compileParts {p : Program NodeId} {options : Options} {c : ClassFile}
    (done : p.compile options = .ok c) :
    ∃ a, p.analyze = .ok a ∧ a.generate options p = .ok c := by
  unfold compile at done
  cases analyzed : p.analyze with
  | error failure => simp [analyzed] at done
  | ok a =>
    simp only [analyzed] at done
    cases made : a.generate options p with
    | error fault => simp [made] at done
    | ok d =>
      simp only [made] at done
      cases done
      exact ⟨a, rfl, made⟩

theorem compiledMethods {p : Program NodeId} {options : Options} {c : ClassFile}
    (unique : p.tags.Nodup) (solid : ∀ m ∈ p.methods, ∀ param ∈ m.params, param.type ≠ .void)
    (done : p.compile options = .ok c) :
    ∃ a cs, p.analyze = .ok a ∧ c.methods = initMethod :: mainMethod options.className :: cs ∧
      List.Forall₂ (Method.Compiled a) p.methods cs := by
  obtain ⟨a, analyzed, made⟩ := compileParts done
  obtain ⟨ms, compiled, _⟩ := bindOk.mp made
  have named := Method.compileAllNamed compiled
  have describable : p.Describable := fun m member =>
    ⟨fun param given => DataType.isValueIff.mpr ⟨solid m member param given,
      (named m member).1 param given⟩, (named m member).2⟩
  obtain ⟨cs, generated, all⟩ := generates unique describable analyzed options
  rw [generated] at made
  cases made
  exact ⟨a, cs, analyzed, rfl, all⟩

end Program

theorem relatedFrom {α β : Type} {R : α → β → Prop} {xs : List α} {ys : List β}
    (all : List.Forall₂ R xs ys) {y : β} (member : y ∈ ys) : ∃ x ∈ xs, R x y := by
  induction all with
  | nil => contradiction
  | cons first _ ih =>
    rcases List.mem_cons.mp member with rfl | behind
    · exact ⟨_, List.mem_cons_self .., first⟩
    · obtain ⟨x, inside, related⟩ := ih behind
      exact ⟨x, List.mem_cons_of_mem _ inside, related⟩

/-- Two methods: one that calls itself on both sides of a logical operator, and a `Main` with a loop
around a nested assignment and a branch that returns. -/
def sampleTree : Program Unit :=
  let var (x : String) : Expr Unit := .var () x {}
  let int (n : Int) : Expr Unit := .literal () (.int n) {}
  let even (e : Expr Unit) : Expr Unit := .call () "Even" [e, .literal () (.float ⟨0x3f000000⟩) {}] {}
  let small : Stmt Unit := .ifElse () (.binary () .less (var "n") (int 2))
    (.ret () (some (.binary () .equal (var "n") (int 0))) {}) ()
    (.block () [.ret () (some (.binary () .or (even (.binary () .sub (var "n") (int 2)))
      (.binary () .and (.not () (even (var "n")) {}) (.binary () .less (var "f") (var "f"))))) {}] {}) {}
  let body : Stmt Unit := .block ()
    [.expr () (.assign () (var "x") (.binary () .add (var "x")
        (.assign () (var "y") (.randomBelow () (.read () .int {}) {})))) {},
      .ifThen () (.binary () .equal (.literal () (.string "a") {}) (.read () .line {}))
        (.ret () none {}) {},
      .expr () (.writeLine () (even (var "x")) {}) {}] {}
  ⟨(), [⟨(), "Even", some .bool, [⟨(), .int, "n", {}⟩, ⟨(), .float, "f", {}⟩],
      ⟨(), [small, .ret () (some (.literal () (.bool true) {})) {}], {}⟩, {}⟩,
    ⟨(), "Main", none, [],
      ⟨(), [.declare () none [⟨(), "x", some (int 7), {}⟩] {}, .declare () (some .int) [⟨(), "y", none, {}⟩] {},
        .loop () (.binary () .and (even (var "x")) (.literal () (.bool true) {})) body {}], {}⟩, {}⟩]⟩

def sampleProgram : Program NodeId := (sampleTree.number 0).1

theorem sampleCompiles : ∃ c, sampleProgram.compile {} = .ok c := by
  cases made : sampleProgram.compile {} with
  | ok c => exact ⟨c, rfl⟩
  | error failure =>
    have accepted : (sampleProgram.compile {}).toOption.isSome = true := by decide +kernel
    simp [made, Except.toOption] at accepted

namespace Program

/-- Every method of a class has the stack limit that its code reaches. For a method of the program that
is the maximum which the analysis has counted in the scope of the method. -/
theorem compiledStackDepth {p : Program NodeId} {options : Options} {c : ClassFile}
    (unique : p.tags.Nodup) (solid : ∀ m ∈ p.methods, ∀ param ∈ m.params, param.type ≠ .void)
    (done : p.compile options = .ok c) :
    (∀ m ∈ c.methods, maxStackDepth m.code = .ok m.maxStack) ∧
      ∃ a cs, p.analyze = .ok a ∧ c.methods = initMethod :: mainMethod options.className :: cs ∧
        List.Forall₂ (fun m made => made.name = m.name ∧ ∃ id, a.scopeIds.get? m.tag = some id ∧
          made.maxStack = (a.scopes.scope id).maxStack) p.methods cs := by
  obtain ⟨a, cs, analyzed, methods, compiled⟩ := compiledMethods unique solid done
  refine ⟨?_, a, cs, analyzed, methods, compiled.imp fun m made both => ⟨both.name, both.counted⟩⟩
  rw [methods]
  intro c member
  rcases List.mem_cons.mp member with rfl | member
  · exact initMethodChecked.depth
  rcases List.mem_cons.mp member with rfl | member
  · exact (mainMethodChecked options.className).depth
  obtain ⟨_, _, made⟩ := relatedFrom compiled member
  exact made.checked.depth

theorem sampleStackDepth : ∃ c, sampleProgram.compile {} = .ok c ∧
    (∀ m ∈ c.methods, maxStackDepth m.code = .ok m.maxStack) ∧
      ∃ a cs, sampleProgram.analyze = .ok a ∧ c.methods = initMethod :: mainMethod "Program" :: cs ∧
        List.Forall₂ (fun m made => made.name = m.name ∧ ∃ id, a.scopeIds.get? m.tag = some id ∧
          made.maxStack = (a.scopes.scope id).maxStack) sampleProgram.methods cs := by
  obtain ⟨c, made⟩ := sampleCompiles
  exact ⟨c, made, compiledStackDepth (by decide +kernel) (by decide +kernel) made⟩

/-- The analysis of a program never ends with a fault, and none stands in the way of its code. -/
theorem analysisFaultFree {p : Program NodeId} (unique : p.tags.Nodup) :
    (∀ fault, p.analyze ≠ .error (.fault fault)) ∧
      ∀ a, p.analyze = .ok a →
        (∀ m ∈ p.methods, ∀ param ∈ m.params, param.type.isValue = true) →
        (∀ m ∈ p.methods, m.returnType ≠ .self) →
          ∀ options, ∃ c, a.generate options p = .ok c := by
  refine ⟨p.analyzeEnds, fun a analyzed values named options => ?_⟩
  obtain ⟨cs, made, _⟩ := generates unique (fun m member => ⟨values m member, named m member⟩)
    analyzed options
  exact ⟨_, made⟩

theorem sampleFaultFree :
    (∀ fault, sampleProgram.analyze ≠ .error (.fault fault)) ∧
      ∃ a, sampleProgram.analyze = .ok a ∧ ∀ options, ∃ c, a.generate options sampleProgram = .ok c := by
  obtain ⟨c, made⟩ := sampleCompiles
  obtain ⟨a, analyzed, _⟩ := compileParts made
  obtain ⟨never, makes⟩ := analysisFaultFree (p := sampleProgram) (by decide +kernel)
  exact ⟨never, a, analyzed, makes a analyzed (by decide +kernel) (by decide +kernel)⟩

/-- The code of every method finds the kinds that it takes on the stack, and returns what the method
has to give. -/
theorem compiledKindSafe {p : Program NodeId} {options : Options} {c : ClassFile}
    (unique : p.tags.Nodup)
    (values : ∀ m ∈ p.methods, ∀ param ∈ m.params, param.type.isValue = true)
    (done : p.compile options = .ok c) :
    KindSafe none initMethod.code ∧ KindSafe none (mainMethod options.className).code ∧
      ∃ cs, c.methods = initMethod :: mainMethod options.className :: cs ∧
        List.Forall₂ (fun m made => made.name = m.name ∧
          KindSafe (ValueKind.of? m.returnType) made.code) p.methods cs := by
  obtain ⟨_, cs, _, methods, compiled⟩ := compiledMethods unique
    (fun m member param given => (DataType.isValueIff.mp (values m member param given)).1) done
  exact ⟨initMethodChecked.safe, (mainMethodChecked options.className).safe, cs, methods,
    compiled.imp fun m made both => ⟨both.name, both.checked.safe⟩⟩

theorem sampleKindSafe : ∃ c, sampleProgram.compile {} = .ok c ∧
    ∃ cs, c.methods = initMethod :: mainMethod "Program" :: cs ∧
      List.Forall₂ (fun m made => made.name = m.name ∧
        KindSafe (ValueKind.of? m.returnType) made.code) sampleProgram.methods cs := by
  obtain ⟨c, made⟩ := sampleCompiles
  exact ⟨c, made, (compiledKindSafe (by decide +kernel) (by decide +kernel) made).2.2⟩

end Program
end ClassCompiler
