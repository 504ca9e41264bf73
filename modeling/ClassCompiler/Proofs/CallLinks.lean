import ClassCompiler.Proofs.Compilation
import ClassCompiler.Proofs.Emission
import ClassCompiler.Proofs.Gathering
import Mathlib.Data.List.Nodup

/-! The calls in the code of a class. The tree of a method says which calls its code has and in which
order; every call of a method of the program names exactly one method of the class, and agrees with it
about what is passed and what comes back. The entry point calls `Main` as a method without a result,
whatever the program says. -/
namespace ClassCompiler

def CompiledMethod.reference (className : String) (m : CompiledMethod) : String :=
  s!"{className}.{m.name}{m.descriptor}"

inductive Library where
  | print (type : DataType)
  | read (input : Input)
  | random
  | randomBelow
  deriving DecidableEq, Repr

def Library.ofTarget? : String → Option Library
  | "java/io/PrintStream/println(I)V" => some (.print .int)
  | "java/io/PrintStream/println(F)V" => some (.print .float)
  | "java/io/PrintStream/println(Z)V" => some (.print .bool)
  | "java/io/PrintStream/println(C)V" => some (.print .char)
  | "java/io/PrintStream/println(Ljava/lang/String;)V" => some (.print .string)
  | "java/util/Scanner.nextInt()I" => some (.read .int)
  | "java/util/Scanner.nextFloat()F" => some (.read .float)
  | "java/util/Scanner.nextBoolean()Z" => some (.read .bool)
  | "java/util/Scanner.nextLine()Ljava/lang/String;" => some (.read .line)
  | "java/util/Random.nextInt()I" => some .random
  | "java/util/Random.nextInt(I)I" => some .randomBelow
  | _ => none

inductive Invocation where
  | library
  | method (name : String) (args : Nat)
  deriving DecidableEq, Repr

section
variable {τ : Type}

mutual

def Expr.invocations : Expr τ → List Invocation
  | .literal .. | .var .. => []
  | .binary _ _ left right => left.invocations ++ right.invocations
  | .not _ operand _ => operand.invocations
  | .assign _ _ value => value.invocations
  | .call _ m args _ => Expr.invocationsAll args ++ [.method m args.length]
  | .writeLine _ value _ => value.invocations ++ [.library]
  | .read .. | .random .. => [.library]
  | .randomBelow _ bound _ => bound.invocations ++ [.library]

def Expr.invocationsAll : List (Expr τ) → List Invocation
  | [] => []
  | e :: rest => e.invocations ++ Expr.invocationsAll rest

end

def Declarator.invocations (d : Declarator τ) : List Invocation :=
  match d.init with
  | some e => e.invocations
  | none => []

mutual

def Stmt.invocations : Stmt τ → List Invocation
  | .expr _ e _ => e.invocations
  | .declare _ _ vars _ => vars.flatMap Declarator.invocations
  | .ret _ (some e) _ => e.invocations
  | .ret _ none _ => []
  | .block _ body _ => Stmt.invocationsAll body
  | .ifThen _ cond yes _ => cond.invocations ++ yes.invocations
  | .ifElse _ cond yes _ no _ => cond.invocations ++ yes.invocations ++ no.invocations
  | .loop _ cond body _ => cond.invocations ++ body.invocations

def Stmt.invocationsAll : List (Stmt τ) → List Invocation
  | [] => []
  | s :: rest => s.invocations ++ Stmt.invocationsAll rest

end

def Method.invocations (m : Method τ) : List Invocation := Stmt.invocationsAll m.body.stmts

end

def Instruction.isVirtualCall : Instruction → Bool
  | .invokeVirtual .. => true
  | _ => false

def CompiledMethod.virtualCalls (m : CompiledMethod) : List Instruction :=
  m.code.filter Instruction.isVirtualCall

/-- An instruction makes a call of a tree. Of the declared methods, given with their compiled forms,
it names the one that is meant and no other. -/
def Invocation.Linked (className : String) (declared : List (Method NodeId × CompiledMethod)) :
    Invocation → Instruction → Prop
  | .library, i => ∃ target args returns, i = .invokeVirtual target args returns ∧
      (Library.ofTarget? target).isSome = true
  | .method x n, i => ∃ d ∈ declared, d.1.name = x ∧ n = d.1.params.length ∧
      i = .invokeVirtual (d.2.reference className) d.1.params.length (d.1.returnType != .void) ∧
      declared.countP (fun e => e.2.reference className == d.2.reference className) = 1

namespace Invocation

def Known (t : MethodTable) : Invocation → Prop
  | .library => True
  | .method x n => ∃ s, t.find? x = some s ∧ s.params.length = n

def Emitted (t : MethodTable) (className : String) : Invocation → Instruction → Prop
  | .library, i => ∃ target args returns, i = .invokeVirtual target args returns ∧
      (Library.ofTarget? target).isSome = true
  | .method x n, i => ∃ s d, t.find? x = some s ∧ methodDescriptor s.params s.returns = .ok d ∧
      i = .invokeVirtual s!"{className}.{x}{d}" n (s.returns != .void)

end Invocation

theorem Progress.assignedOnward (p : Progress) (home : Nat) (x : String) (v : Variable)
    (found : Option DataType) (span : Span) : p.Onward (p.assigned home x v found span) := by
  unfold Progress.assigned
  refine Progress.Onward.trans ?_ (.mark _ home x)
  split
  · exact .expectType _ _ _ _
  · exact .refl _

/-! What the check has made sure of. -/

mutual

theorem Expr.checkKnown (a : Analysis) (id : Nat) : ∀ (e : Expr NodeId) {p : Progress},
    (e.check a id p).2.diagnostics = [] → ∀ i ∈ e.invocations, i.Known a.methods
  | .literal .., _, _, i, member | .var .., _, _, i, member => by
    simp [Expr.invocations] at member
  | .binary _ op left right, p, clean, i, member => by
    have quiet : (right.check a id (left.check a id p).2).2.diagnostics = [] := by
      simp only [Expr.check] at clean
      split at clean
      · exact Progress.reportTold clean
      · exact clean
    rcases List.mem_append.mp member with first | second
    · exact left.checkKnown a id ((right.checkOnward a id _).clean quiet) i first
    · exact right.checkKnown a id quiet i second
  | .not _ operand span, p, clean, i, member =>
    operand.checkKnown a id ((Progress.Onward.expectType _ _ _ span).clean clean) i member
  | .assign _ target value, p, clean, i, member => by
    simp only [Expr.check] at clean
    split at clean
    · dsimp only at clean
      split at clean
      · exact value.checkKnown a id ((Progress.assignedOnward _ _ _ _ _ _).clean clean) i member
      · exact value.checkKnown a id clean i member
    · exact value.checkKnown a id clean i member
  | .call _ m args span, p, clean, i, member => by
    simp only [Expr.check] at clean
    cases found : a.methods.find? m with
    | none =>
      simp only [found] at clean
      exact Progress.reportTold ((Expr.checkArgsOnward a id args _ _).clean clean)
    | some s =>
      simp only [found] at clean
      rcases List.mem_append.mp member with inside | last
      · exact Expr.checkArgsKnown a id args clean i inside
      · obtain rfl := List.mem_singleton.mp last
        refine ⟨s, found, Classical.byContradiction fun other => ?_⟩
        rw [if_neg other] at clean
        exact Progress.reportTold ((Expr.checkArgsOnward a id args _ _).clean clean)
  | .writeLine _ value span, p, clean, i, member => by
    have quiet : (value.check a id p).2.diagnostics = [] := by
      simp only [Expr.check] at clean
      split at clean
      · exact Progress.reportTold clean
      · exact clean
    rcases List.mem_append.mp member with inside | last
    · exact value.checkKnown a id quiet i inside
    · obtain rfl := List.mem_singleton.mp last
      trivial
  | .read .., _, _, i, member | .random .., _, _, i, member => by
    obtain rfl := List.mem_singleton.mp member
    trivial
  | .randomBelow _ bound _, p, clean, i, member => by
    rcases List.mem_append.mp member with inside | last
    · exact bound.checkKnown a id ((Progress.Onward.expectType _ _ _ _).clean clean) i inside
    · obtain rfl := List.mem_singleton.mp last
      trivial
termination_by structural e => e

theorem Expr.checkArgsKnown (a : Analysis) (id : Nat) : ∀ (es : List (Expr NodeId))
    {types : List DataType} {p : Progress}, (Expr.checkArgs a id es types p).diagnostics = [] →
      ∀ i ∈ Expr.invocationsAll es, i.Known a.methods
  | [], _, _, _, i, member => by simp [Expr.invocationsAll] at member
  | e :: rest, types, p, clean, i, member => by
    have quiet : ∃ types q, (Expr.checkArgs a id rest types q).diagnostics = [] ∧
        (e.check a id p).2.Onward q := by
      cases types with
      | nil => exact ⟨_, _, clean, .refl _⟩
      | cons type types => exact ⟨_, _, clean, .expectType _ _ _ _⟩
    obtain ⟨types, q, clean, onward⟩ := quiet
    rcases List.mem_append.mp member with first | others
    · exact e.checkKnown a id
        ((onward.trans (Expr.checkArgsOnward a id rest types q)).clean clean) i first
    · exact Expr.checkArgsKnown a id rest clean i others
termination_by structural es => es

end

theorem Declarator.checkAllKnown {a : Analysis} {type : Option DataType} {span : Span} {id : Nat}
    {ds : List (Declarator NodeId)} {p : Progress}
    (clean : (Declarator.checkAll a type span id ds p).diagnostics = []) :
    ∀ i ∈ ds.flatMap Declarator.invocations, i.Known a.methods := by
  induction ds generalizing p with
  | nil => simp
  | cons d rest ih =>
    intro i member
    have quiet : (d.check a type span id p).diagnostics = [] :=
      List.prefix_nil.mp (clean ▸ Declarator.checkAllTold a type span id rest _)
    rw [List.flatMap_cons] at member
    rcases List.mem_append.mp member with first | others
    · cases given : d.init with
      | none => simp [Declarator.invocations, given] at first
      | some e =>
        simp only [Declarator.check, given] at quiet
        simp only [Declarator.invocations, given] at first
        cases type with
        | none => exact e.checkKnown a id quiet i first
        | some expected =>
          exact e.checkKnown a id ((Progress.Onward.expectType
            (Progress.reach _ d.tag) expected _ span).clean quiet) i first
    · exact ih clean i others

section
variable {a : Analysis} {returns : DataType}

theorem Expr.conditionKnown {id : Nat} {e : Expr NodeId} {span : Span} {p : Progress}
    (clean : (e.checkCondition a id span p).diagnostics = []) :
    ∀ i ∈ e.invocations, i.Known a.methods :=
  e.checkKnown a id ((Progress.Onward.expectType _ _ _ span).clean clean)

mutual

theorem Stmt.checkKnown : ∀ (s : Stmt NodeId) {id : Nat} {p q : Progress},
    s.check a returns id p = .ok q → q.diagnostics = [] → ∀ i ∈ s.invocations, i.Known a.methods
  | .expr _ e _, id, p, q, done, clean, i, member => by
    cases done
    exact e.checkKnown a id clean i member
  | .declare _ type vars span, id, p, q, done, clean, i, member => by
    cases done
    exact Declarator.checkAllKnown clean i member
  | .ret _ (some e) span, id, p, q, done, clean, i, member => by
    cases done
    exact e.checkKnown a id ((Progress.Onward.expectType _ _ _ span).clean clean) i member
  | .ret _ none _, id, p, q, done, clean, i, member => by simp [Stmt.invocations] at member
  | .block _ body _, id, p, q, done, clean, i, member => by
    obtain ⟨inner, _, done⟩ := bindOk.mp done
    exact Stmt.checkAllKnown body done clean i member
  | .ifThen _ cond yes span, id, p, q, done, clean, i, member => by
    obtain ⟨inner, _, done⟩ := bindOk.mp done
    rcases List.mem_append.mp member with tested | inside
    · exact Expr.conditionKnown (List.prefix_nil.mp (clean ▸ yes.checkTold done)) i tested
    · exact yes.checkKnown done clean i inside
  | .ifElse _ cond yes _ no span, id, p, q, done, clean, i, member => by
    obtain ⟨inner, _, done⟩ := bindOk.mp done
    obtain ⟨m, first, done⟩ := bindOk.mp done
    obtain ⟨other, _, done⟩ := bindOk.mp done
    have quiet : m.diagnostics = [] := List.prefix_nil.mp (clean ▸ no.checkTold done)
    rcases List.mem_append.mp member with before | otherwise
    · rcases List.mem_append.mp before with tested | inside
      · exact Expr.conditionKnown (List.prefix_nil.mp (quiet ▸ yes.checkTold first)) i tested
      · exact yes.checkKnown first quiet i inside
    · exact no.checkKnown done clean i otherwise
  | .loop _ cond body span, id, p, q, done, clean, i, member => by
    obtain ⟨inner, _, done⟩ := bindOk.mp done
    rcases List.mem_append.mp member with tested | inside
    · exact Expr.conditionKnown (List.prefix_nil.mp (clean ▸ body.checkTold done)) i tested
    · exact body.checkKnown done clean i inside
termination_by structural s => s

theorem Stmt.checkAllKnown : ∀ (ss : List (Stmt NodeId)) {id : Nat} {p q : Progress},
    Stmt.checkAll a returns ss id p = .ok q → q.diagnostics = [] →
      ∀ i ∈ Stmt.invocationsAll ss, i.Known a.methods
  | [], _, _, _, _, _, i, member => by simp [Stmt.invocationsAll] at member
  | s :: rest, id, p, q, done, clean, i, member => by
    obtain ⟨m, first, done⟩ := bindOk.mp done
    rcases List.mem_append.mp member with here | later
    · exact s.checkKnown first (List.prefix_nil.mp (clean ▸ Stmt.checkAllTold rest done)) i here
    · exact Stmt.checkAllKnown rest done clean i later
termination_by structural ss => ss

end
end

theorem Method.checkKnown {a : Analysis} {m : Method NodeId} {p q : Progress}
    (done : m.check a p = .ok q) (clean : q.diagnostics = []) :
    a.methods.count m.name ≤ 1 ∧ ∀ i ∈ m.invocations, i.Known a.methods := by
  unfold Method.check at done
  obtain ⟨outer, _, done⟩ := bindOk.mp done
  obtain ⟨r, returned, done⟩ := bindOk.mp done
  obtain ⟨inner, _, body⟩ := bindOk.mp done
  refine ⟨Nat.not_lt.mp fun many => ?_, Stmt.checkAllKnown m.body.stmts body clean⟩
  have quiet : r.diagnostics = [] :=
    List.prefix_nil.mp (clean ▸ Stmt.checkAllTold m.body.stmts body)
  rw [← Progress.receive, if_pos many, Progress.receiveEq] at returned
  exact Progress.reportTold ((Method.checkReturnOnward returned).clean quiet)

theorem Method.checkAllKnown {a : Analysis} {ms : List (Method NodeId)} {p q : Progress}
    (done : Method.checkAll a ms p = .ok q) (clean : q.diagnostics = []) : ∀ m ∈ ms,
      a.methods.count m.name ≤ 1 ∧ ∀ i ∈ m.invocations, i.Known a.methods := by
  induction ms generalizing p with
  | nil => simp
  | cons m rest ih =>
    obtain ⟨r, first, later⟩ := bindOk.mp done
    intro other member
    rcases List.mem_cons.mp member with rfl | behind
    · exact Method.checkKnown first (List.prefix_nil.mp (clean ▸ Method.checkAllTold later))
    · exact ih later other behind

/-! What the code has. -/

def Calls (t : MethodTable) (className : String) (calls : List Invocation)
    (code : List Instruction) : Prop :=
  List.Forall₂ (Invocation.Emitted t className) calls (code.filter Instruction.isVirtualCall)

section
variable {a : Analysis} {className : String} {t : MethodTable}

theorem Calls.append {calls more : List Invocation} {code rest : List Instruction}
    (first : Calls t className calls code) (others : Calls t className more rest) :
    Calls t className (calls ++ more) (code ++ rest) := by
  unfold Calls at *
  rw [List.filter_append]
  exact List.rel_append first others

theorem Calls.plain {code : List Instruction}
    (silent : code.filter Instruction.isVirtualCall = []) : Calls t className [] code := by
  unfold Calls
  rw [silent]
  exact .nil

theorem Calls.follow {calls : List Invocation} {code rest : List Instruction}
    (first : Calls t className calls code) (silent : rest.filter Instruction.isVirtualCall = []) :
    Calls t className calls (code ++ rest) := by
  simpa using first.append (.plain silent)

theorem Calls.lead {calls : List Invocation} {code rest : List Instruction}
    (silent : code.filter Instruction.isVirtualCall = []) (later : Calls t className calls rest) :
    Calls t className calls (code ++ rest) :=
  (Calls.plain silent).append later

theorem Calls.library {target : String} {args : Nat} {gives : Bool}
    (known : (Library.ofTarget? target).isSome = true) :
    Calls t className [.library] [.invokeVirtual target args gives] :=
  .cons ⟨target, args, gives, rfl, known⟩ .nil

theorem printCalls {type : DataType} {code : List Instruction} (made : printCode type = .ok code) :
    Calls t className [.library] code := by
  cases type <;> cases made <;> exact Calls.library rfl

mutual

theorem Expr.emitsCalls (id : Nat) : ∀ (e : Expr NodeId) {n n' : Nat} {code : List Instruction},
    e.Emits a className id n code n' → Calls a.methods className e.invocations code
  | .literal _ value _, _, _, _, .literal =>
    .plain (value.codeCases (fun _ => rfl) (fun _ => rfl) (fun _ => rfl) fun _ => rfl)
  | .var .., _, _, _, .var _ => .plain rfl
  | .binary _ _ left right, _, _, _, .arith _ one other _ _ =>
    ((left.emitsCalls id one).append (right.emitsCalls id other)).follow rfl
  | .binary _ _ left right, _, _, _, .compare _ one other _ tested =>
    (((left.emitsCalls id one).append (right.emitsCalls id other)).follow
      (by exact compareCases tested rfl rfl rfl)).follow rfl
  | .binary _ _ left right, _, _, _, .logical (b := b) _ one other =>
    ((((left.emitsCalls id one).follow rfl).append (right.emitsCalls id other)).follow rfl).follow
      (by cases b <;> rfl)
  | .not _ operand _, _, _, _, .not inner => ((operand.emitsCalls id inner).follow rfl).follow rfl
  | .assign _ _ value, _, _, _, .assign inner _ => ((value.emitsCalls id inner).follow rfl).follow rfl
  | .call _ _ args _, _, _, _, .call found given described =>
    (Calls.lead rfl (Expr.emitAllCalls id args given)).append
      (.cons ⟨_, _, found, described, rfl⟩ .nil)
  | .writeLine _ value _, _, _, _, .writeLine inner _ printed =>
    (Calls.lead rfl (value.emitsCalls id inner)).append (printCalls printed)
  | .read _ input _, _, _, _, .read => by cases input <;> exact Calls.library rfl
  | .random .., _, _, _, .random => Calls.library rfl
  | .randomBelow _ bound _, _, _, _, .randomBelow inner =>
    (Calls.lead rfl (bound.emitsCalls id inner)).append (.library rfl)
termination_by structural e => e

theorem Expr.emitAllCalls (id : Nat) : ∀ (es : List (Expr NodeId)) {n n' : Nat}
    {code : List Instruction}, Expr.EmitAll a className id es n code n' →
      Calls a.methods className (Expr.invocationsAll es) code
  | [], _, _, _, .nil => .plain rfl
  | e :: rest, _, _, _, .cons one more => (e.emitsCalls id one).append (Expr.emitAllCalls id rest more)
termination_by structural es => es

end

theorem Declarator.emitAllCalls {id : Nat} {ds : List (Declarator NodeId)} {n n' : Nat}
    {code : List Instruction} (emits : Declarator.EmitAll a className id ds n code n') :
    Calls a.methods className (ds.flatMap Declarator.invocations) code := by
  induction emits with
  | nil => exact .plain rfl
  | bare missing _ ih => simpa [Declarator.invocations, missing] using ih
  | @initial d e _ _ _ _ _ _ _ given inner _ _ ih =>
    have own : d.invocations = e.invocations := by simp [Declarator.invocations, given]
    rw [List.flatMap_cons, own]
    exact ((e.emitsCalls id inner).follow rfl).append ih

theorem Expr.droppedCalls {id : Nat} {node : NodeId} {e : Expr NodeId} {n n' : Nat}
    {code : List Instruction} (emits : e.EmitsDropped a className id node n code n') :
    Calls a.methods className e.invocations code := by
  cases emits with
  | assign inner _ => exact (Expr.emitsCalls id _ inner).follow rfl
  | silent _ inner _ => exact e.emitsCalls id inner
  | popped _ inner _ _ => exact (e.emitsCalls id inner).follow rfl

mutual

theorem Stmt.emitsCalls : ∀ (s : Stmt NodeId) {id n n' : Nat} {code : List Instruction},
    s.Emits a className id n code n' → Calls a.methods className s.invocations code
  | .expr .., _, _, _, _, .expr inner => Expr.droppedCalls inner
  | .declare .., _, _, _, _, .declare inner => Declarator.emitAllCalls inner
  | .ret _ (some e) _, id, _, _, _, .ret inner _ => (e.emitsCalls id inner).follow rfl
  | .ret _ none _, _, _, _, _, .leave _ => .plain rfl
  | .block _ body _, _, _, _, _, .block _ inside => Stmt.emitAllCalls body inside
  | .ifThen _ cond yes _, _, _, _, _, .ifThen _ tested inside =>
    (((cond.emitsCalls _ tested).follow rfl).append (yes.emitsCalls inside)).follow rfl
  | .ifElse _ cond yes _ no _, _, _, _, _, .ifElse _ tested inside _ otherwise =>
    (((((cond.emitsCalls _ tested).follow rfl).append (yes.emitsCalls inside)).follow rfl).append
      (no.emitsCalls otherwise)).follow rfl
  | .loop _ cond body _, _, _, _, _, .loop _ tested inside =>
    (((Calls.lead rfl (cond.emitsCalls _ tested)).follow rfl).append (body.emitsCalls inside)).follow
      rfl
termination_by structural s => s

theorem Stmt.emitAllCalls : ∀ (ss : List (Stmt NodeId)) {id n n' : Nat} {code : List Instruction},
    Stmt.EmitAll a className ss id n code n' → Calls a.methods className (Stmt.invocationsAll ss) code
  | [], _, _, _, _, .nil => .plain rfl
  | s :: rest, _, _, _, _, .cons one more => (s.emitsCalls one).append (Stmt.emitAllCalls rest more)
termination_by structural ss => ss

end

structure Method.Calling (t : MethodTable) (className : String) (m : Method NodeId)
    (made : CompiledMethod) : Prop where
  name : made.name = m.name
  described : methodDescriptor m.paramTypes m.returnType = .ok made.descriptor
  calls : Calls t className m.invocations made.code

theorem Method.emitsCalling {m : Method NodeId} {n n' : Nat} {made : CompiledMethod}
    (emits : m.Emits a className n made n') : m.Calling a.methods className made := by
  obtain ⟨_, described, _, body⟩ := emits
  exact ⟨rfl, described, (Stmt.emitAllCalls m.body.stmts body).follow (by split <;> rfl)⟩

theorem Method.compileAllCalling {ms : List (Method NodeId)} {n : Nat}
    {made : List CompiledMethod × Nat} (done : Method.compileAll a className ms n = .ok made) :
    List.Forall₂ (Method.Calling a.methods className) ms made.1 :=
  (Method.compileAllEmits done).imp fun _ _ ⟨_, _, emits⟩ => Method.emitsCalling emits

end

/-! References. -/

theorem DataType.descriptorClear {type : DataType} {d : String} (made : type.descriptor = .ok d) :
    '(' ∉ d.toList := by
  cases type <;> cases made <;> decide

theorem DataType.descriptorsClear {types : List DataType} {d : String}
    (made : DataType.descriptors types = .ok d) : '(' ∉ d.toList := by
  induction types generalizing d with
  | nil =>
    cases made
    decide
  | cons type rest ih =>
    obtain ⟨first, head, made⟩ := bindOk.mp made
    obtain ⟨others, tail, made⟩ := bindOk.mp made
    cases made
    simp [DataType.descriptorClear head, ih tail]

theorem methodDescriptorBracket {params : List DataType} {returns : DataType} {d : String}
    (made : methodDescriptor params returns = .ok d) :
    ∃ rest, d.toList = '(' :: rest ∧ '(' ∉ rest := by
  obtain ⟨inside, described, made⟩ := bindOk.mp made
  obtain ⟨result, returned, made⟩ := bindOk.mp made
  cases made
  exact ⟨inside.toList ++ ')' :: result.toList, by simp,
    by simp [DataType.descriptorsClear described, DataType.descriptorClear returned]⟩

def CompiledMethod.Bracketed (m : CompiledMethod) : Prop :=
  ∃ rest, m.descriptor.toList = '(' :: rest ∧ '(' ∉ rest

/-- The last bracket of a reference is that of the descriptor, so the name can be read off. -/
theorem referenceName {className x y d e : String} (here : ∃ rest, d.toList = '(' :: rest ∧ '(' ∉ rest)
    (there : ∃ rest, e.toList = '(' :: rest ∧ '(' ∉ rest)
    (same : s!"{className}.{y}{e}" = s!"{className}.{x}{d}") : y = x := by
  obtain ⟨rest, text, clear⟩ := here
  obtain ⟨rest', text', clear'⟩ := there
  have split (z f : String) : (s!"{className}.{z}{f}").toList =
      (className ++ "." ++ z).toList ++ f.toList := by
    rw [← String.toList_append]
    rfl
  have lists := congrArg String.toList same
  rw [split, split, text, text'] at lists
  have tails : rest' = rest := by
    rw [← CallShape.behindBracketAppend _ clear', lists, CallShape.behindBracketAppend _ clear]
  rw [tails] at lists
  have fronts := String.toList_inj.mp (List.append_cancel_right lists)
  exact (String.append_right_inj _).mp fronts

theorem CompiledMethod.nameOfReference {className : String} {m other : CompiledMethod}
    (here : m.Bracketed) (there : other.Bracketed)
    (same : other.reference className = m.reference className) : other.name = m.name :=
  referenceName here there same

namespace Method.Calling
variable {t : MethodTable} {className : String} {m other : Method NodeId}
  {made madeOther : CompiledMethod}

theorem bracketed (here : m.Calling t className made) : made.Bracketed :=
  methodDescriptorBracket here.described

theorem nameOfReference (here : m.Calling t className made)
    (there : other.Calling t className madeOther)
    (same : madeOther.reference className = made.reference className) : other.name = m.name := by
  rw [← here.name, ← there.name]
  exact CompiledMethod.nameOfReference here.bracketed there.bracketed same

end Method.Calling

theorem pairedWith {α β : Type} {R : α → β → Prop} {xs : List α} {ys : List β}
    (all : List.Forall₂ R xs ys) {x : α} (member : x ∈ xs) : ∃ y, (x, y) ∈ xs.zip ys := by
  induction all with
  | nil => contradiction
  | cons _ _ ih =>
    rcases List.mem_cons.mp member with rfl | behind
    · exact ⟨_, List.mem_cons_self ..⟩
    · obtain ⟨y, inside⟩ := ih behind
      exact ⟨y, List.mem_cons_of_mem _ inside⟩

namespace Program
variable {p : Program NodeId} {t : MethodTable} {className : String} {cs : List CompiledMethod}

theorem methodOfName (distinct : (p.methods.map Method.name).Nodup) {m other : Method NodeId}
    (member : m ∈ p.methods) (inside : other ∈ p.methods) (same : other.name = m.name) : other = m :=
  List.inj_on_of_nodup_map distinct inside member same

theorem referenceOnce (all : List.Forall₂ (Method.Calling t className) p.methods cs)
    (distinct : (p.methods.map Method.name).Nodup) {d : Method NodeId × CompiledMethod}
    (member : d ∈ p.methods.zip cs) : (p.methods.zip cs).countP
      (fun e => e.2.reference className == d.2.reference className) = 1 := by
  have here := List.forall₂_zip all member
  have known := (List.of_mem_zip member).1
  have names : (p.methods.zip cs).map (Method.name ∘ Prod.fst) = p.methods.map Method.name := by
    rw [← List.map_map, List.map_fst_zip (Nat.le_of_eq all.length_eq)]
  have sameName : ∀ e ∈ p.methods.zip cs,
      e.2.reference className = d.2.reference className ↔ e.1.name = d.1.name := by
    intro e inside
    have there := List.forall₂_zip all inside
    refine ⟨here.nameOfReference there, fun same => ?_⟩
    have method := methodOfName distinct known (List.of_mem_zip inside).1 same
    have described := there.described
    rw [method, here.described] at described
    rw [CompiledMethod.reference, CompiledMethod.reference, here.name, there.name, same,
      Except.ok.inj described]
  calc (p.methods.zip cs).countP (fun e => e.2.reference className == d.2.reference className)
      = (p.methods.zip cs).countP (fun e => e.1.name == d.1.name) :=
        List.countP_congr fun e inside => by simpa using sameName e inside
    _ = ((p.methods.zip cs).map (Method.name ∘ Prod.fst)).count d.1.name := by
        rw [List.count, List.countP_map]
        rfl
    _ = 1 := by
        rw [names]
        exact List.count_eq_one_of_mem distinct (List.mem_map.mpr ⟨d.1, known, rfl⟩)

theorem linked (all : List.Forall₂ (Method.Calling p.annotated.methods className) p.methods cs)
    (distinct : (p.methods.map Method.name).Nodup) {call : Invocation} {i : Instruction}
    (known : call.Known p.annotated.methods)
    (emitted : call.Emitted p.annotated.methods className i) :
    call.Linked className (p.methods.zip cs) i := by
  cases call with
  | library => exact emitted
  | method x n =>
    obtain ⟨s, found, count⟩ := known
    obtain ⟨s', d, found', described, rfl⟩ := emitted
    obtain rfl : s = s' := by simpa [found] using found'
    rw [annotatedFind] at found
    obtain ⟨m, hit, rfl⟩ := Option.map_eq_some_iff.mp found
    have name : m.name = x := by simpa using List.find?_some hit
    obtain ⟨made, member⟩ := pairedWith all (List.mem_of_find?_eq_some hit)
    have here := List.forall₂_zip all member
    have params : m.params.length = n := by simpa [signature, Method.paramTypes] using count
    refine ⟨(m, made), member, name, params.symm, ?_, referenceOnce all distinct member⟩
    have same : made.descriptor = d := Except.ok.inj (here.described.symm.trans described)
    rw [CompiledMethod.reference, here.name, name, same, params]
    rfl

theorem analyzeMain {q : Progress}
    (checked : Method.checkAll p.annotated p.methods (p.annotated.startCheck p) = .ok q)
    (told : q.diagnostics = []) : ∃ m, p.findMethod? mainName = some m ∧ m.params = [] := by
  have before : (p.annotated.startCheck p).diagnostics = [] :=
    List.prefix_nil.mp (told ▸ Method.checkAllTold checked)
  cases found : p.annotated.methods.find? mainName with
  | none =>
    simp only [Analysis.startCheck, MethodTable.mainViolation?, found] at before
    exact Progress.reportTold before
  | some s =>
    by_cases empty : s.params.isEmpty = true
    · rw [annotatedFind] at found
      obtain ⟨m, hit, rfl⟩ := Option.map_eq_some_iff.mp found
      exact ⟨m, hit, by simpa [signature, Method.paramTypes] using empty⟩
    · simp only [Analysis.startCheck, MethodTable.mainViolation?, found, empty] at before
      exact Progress.reportTold before

def entryCall (className : String) : Instruction := .invokeVirtual s!"{className}.Main()V" 0 false

theorem entryLinked (all : List.Forall₂ (Method.Calling t className) p.methods cs)
    (distinct : (p.methods.map Method.name).Nodup) {main : Method NodeId}
    (found : p.findMethod? mainName = some main) (empty : main.params = []) :
    (Invocation.method mainName 0).Linked className (p.methods.zip cs) (entryCall className) ↔
      main.returnType = .void := by
  have name : main.name = mainName := by simpa using List.find?_some found
  have known := List.mem_of_find?_eq_some found
  constructor
  · rintro ⟨d, member, same, _, call, _⟩
    obtain rfl := methodOfName distinct known (List.of_mem_zip member).1 (same.trans name.symm)
    simp only [entryCall, Instruction.invokeVirtual.injEq] at call
    simpa using call.2.2.symm
  · intro void
    obtain ⟨made, member⟩ := pairedWith all known
    have here := List.forall₂_zip all member
    have described := here.described
    rw [Method.paramTypes, empty, void] at described
    refine ⟨(main, made), member, name, by simp [empty], ?_, referenceOnce all distinct member⟩
    have plain : made.descriptor = "()V" := (Except.ok.inj described).symm
    have text : made.reference className = s!"{className}.Main()V" := by
      rw [CompiledMethod.reference, here.name, name, plain, String.append_assoc, String.append_assoc]
      rfl
    rw [text, void, empty]
    rfl

/-- Every call of a method of the program names exactly one of the declared methods and agrees with
it; the call of the entry point does so exactly when `Main` gives no value. -/
theorem selfCallsLink {options : Options} {c : ClassFile} (done : p.compile options = .ok c) :
    ∃ cs, c.methods = initMethod :: mainMethod options.className :: cs ∧
      List.Forall₂ (fun m made => made.name = m.name ∧
        methodDescriptor m.paramTypes m.returnType = .ok made.descriptor ∧
        List.Forall₂ (Invocation.Linked options.className (p.methods.zip cs)) m.invocations
          made.virtualCalls) p.methods cs ∧
      ∃ main call, p.findMethod? mainName = some main ∧
        (mainMethod options.className).virtualCalls = [call] ∧
        ((Invocation.method mainName 0).Linked options.className (p.methods.zip cs) call ↔
          main.returnType = .void) := by
  obtain ⟨a, analyzed, made⟩ := compileParts done
  obtain ⟨ms, compiled, generated⟩ := bindOk.mp made
  obtain ⟨q, checked, told, rfl⟩ := analyzeChecked analyzed
  cases generated
  have all := Method.compileAllCalling compiled
  have known := Method.checkAllKnown checked told
  obtain ⟨distinct, _⟩ := p.annotatedSingle.mp fun m member => (known m member).1
  obtain ⟨main, found, empty⟩ := analyzeMain checked told
  refine ⟨ms.1, rfl, ?_, main, entryCall options.className, found, rfl,
    entryLinked all distinct found empty⟩
  have pairs := List.forall₂_iff_zip.mp all
  refine List.forall₂_iff_zip.mpr ⟨all.length_eq, fun {m compiled} member => ?_⟩
  have here := pairs.2 member
  have invoked := (known m (List.of_mem_zip member).1).2
  refine ⟨here.name, here.described, ?_⟩
  have emitted := List.forall₂_iff_zip.mp here.calls
  exact List.forall₂_iff_zip.mpr ⟨emitted.1, fun {call i} inside =>
    linked all distinct (invoked call (List.of_mem_zip inside).1) (emitted.2 inside)⟩

theorem sampleCallsLink : ∃ c cs, sampleProgram.compile {} = .ok c ∧
    c.methods = initMethod :: mainMethod "Program" :: cs ∧
    List.Forall₂ (fun m made => made.name = m.name ∧
      methodDescriptor m.paramTypes m.returnType = .ok made.descriptor ∧
      List.Forall₂ (Invocation.Linked "Program" (sampleProgram.methods.zip cs)) m.invocations
        made.virtualCalls) sampleProgram.methods cs := by
  obtain ⟨c, made⟩ := sampleCompiles
  obtain ⟨cs, methods, calls, _⟩ := selfCallsLink made
  exact ⟨c, cs, made, methods, calls⟩

def valuedMain : Program NodeId :=
  let body : Block NodeId := ⟨⟨2⟩, [.ret ⟨1⟩ (some (.literal ⟨0⟩ (.int 1) {})) {}], {}⟩
  ⟨⟨4⟩, [⟨⟨3⟩, "Main", some .int, [], body, {}⟩]⟩

theorem valuedMainUnlinked : ∃ c, valuedMain.compile {} = .ok c ∧
    c.methods.map (CompiledMethod.reference "Program") =
      ["Program.<init>()V", "Program.main([Ljava/lang/String;)V", "Program.Main()I"] ∧
    (mainMethod "Program").virtualCalls = [.invokeVirtual "Program.Main()V" 0 false] := by
  cases made : valuedMain.compile {} with
  | error failure =>
    have accepted : (valuedMain.compile {}).toOption.isSome = true := by decide +kernel
    simp [made, Except.toOption] at accepted
  | ok c =>
    have names : (valuedMain.compile {}).toOption.map
        (fun c => c.methods.map (CompiledMethod.reference "Program")) = some
          ["Program.<init>()V", "Program.main([Ljava/lang/String;)V", "Program.Main()I"] := by
      decide +kernel
    rw [made] at names
    exact ⟨c, rfl, Option.some.inj names, rfl⟩

end Program
end ClassCompiler
