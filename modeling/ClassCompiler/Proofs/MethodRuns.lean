import ClassCompiler.Proofs.Labels
import ClassCompiler.Proofs.Simulation

/-! Compiled methods do what the methods of a program do. The machine starts at the first instruction
with the object in slot 0 and the arguments in the slots behind it. If the body of the method comes to a
result when it is run as it is written, then the code returns that result, in the world that the body
leaves. -/
namespace ClassCompiler
variable {p : Program NodeId}

def ClassFile.link (c : ClassFile) (target : String) : Option String :=
  (c.methods.find? fun m => m.reference c.name == target).map CompiledMethod.name

/-- The code of a method returns what the method does, from wherever the method is run. -/
def Method.Simulated (p : Program NodeId) (link : String → Option String) (m : Method NodeId)
    (made : CompiledMethod) : Prop :=
  ∀ (ρ W : Type) [DecidableEq ρ] (I : Interpretation ρ W) (object : Value ρ) (args : List (Value ρ))
    (w : W) (result : Option (Value ρ)) (last : W), m.Executes I p object args w result last →
    ∀ locals : Nat → Option (Value ρ), locals 0 = some object →
      (∀ i v, args[i]? = some v → locals (i + 1) = some v) →
        ∃ steps, execute I link made.code steps 0 ⟨locals, [], w⟩ = some (result, last)

theorem Program.classLinks {className : String} (version : String) {cs : List CompiledMethod}
    (all : List.Forall₂ (Method.Calling p.annotated.methods className) p.methods cs) :
    Linking (ClassFile.link ⟨className, version, initMethod :: mainMethod className :: cs⟩)
      p.annotated.methods className := by
  intro x s d found described
  rw [annotatedFind] at found
  obtain ⟨m, hit, rfl⟩ := Option.map_eq_some_iff.mp found
  have name : m.name = x := by simpa using List.find?_some hit
  obtain ⟨made, member⟩ := pairedWith all (List.mem_of_find?_eq_some hit)
  have here := List.forall₂_zip all member
  have same : made.descriptor = d := Except.ok.inj (here.described.symm.trans described)
  have bracketed : ∀ c ∈ initMethod :: mainMethod className :: cs, c.Bracketed := by
    intro c inside
    rcases List.mem_cons.mp inside with rfl | inside
    · exact ⟨")V".toList, by decide, by decide⟩
    rcases List.mem_cons.mp inside with rfl | inside
    · have text : "([Ljava/lang/String;)V".toList = '(' :: "[Ljava/lang/String;)V".toList := by decide
      exact ⟨_, text, by decide⟩
    obtain ⟨other, paired⟩ := pairedWith all.flip inside
    exact (List.forall₂_zip all.flip paired).bracketed
  have target : s!"{className}.{x}{d}" = made.reference className := by
    rw [CompiledMethod.reference, here.name, name, same]
  rw [target, ClassFile.link]
  cases first : List.find? (fun c => c.reference className == made.reference className)
      (initMethod :: mainMethod className :: cs) with
  | none =>
    have missed := List.find?_eq_none.mp first made
      (List.mem_cons_of_mem _ (List.mem_cons_of_mem _ (List.of_mem_zip member).2))
    simp at missed
  | some c =>
    have equal : c.reference className = made.reference className := by simpa using List.find?_some first
    have named := CompiledMethod.nameOfReference here.bracketed
      (bracketed c (List.mem_of_find?_eq_some first)) equal
    rw [Option.map_some, named, here.name, name]

namespace Method
variable {m : Method NodeId}

theorem nodesApart (unique : p.tags.Nodup) (member : m ∈ p.methods) :
    (p.tag :: m.params.map Param.tag).Nodup := by
  refine List.nodup_cons.mpr ⟨fun inside => Program.tagOutside unique member (m.paramTags inside), ?_⟩
  rw [p.tagsEq, List.nodup_cons] at unique
  have own := (List.nodup_flatMap.mp unique.2).1 m member
  rw [m.tagsEq] at own
  exact (List.nodup_append.mp (List.nodup_cons.mp own).2).1

theorem bindingsReverse (p : Program NodeId) (m : Method NodeId) : (m.bindings p).reverse =
    ⟨selfName, p.tag, .self⟩ :: m.params.map fun param => ⟨param.name, param.tag, param.type⟩ := by
  simp [bindings]

theorem bindingsFramed (unique : p.tags.Nodup) (member : m ∈ p.methods) :
    (m.bindings p).Framed p where
  apart := by
    have nodes : (m.bindings p).map Binding.node = (p.tag :: m.params.map Param.tag).reverse := by
      simp [bindings, Function.comp_def]
    rw [nodes]
    exact List.nodup_reverse.mpr (nodesApart unique member)
  object := ⟨⟨selfName, p.tag, .self⟩, by rw [Bindings.inSlot, bindingsReverse]; rfl, rfl⟩

theorem startHolds {ρ W : Type} (unique : p.tags.Nodup) (member : m ∈ p.methods) {object : Value ρ}
    {args : List (Value ρ)} {locals : Nat → Option (Value ρ)} (self : locals 0 = some object)
    (given : ∀ i v, args[i]? = some v → locals (i + 1) = some v) (w : W) :
    (m.bindings p).Holds (m.start p object args w) ⟨locals, w⟩ where
  world := rfl
  vars k b v found set := by
    obtain ⟨inner, distinct⟩ := List.nodup_cons.mp (nodesApart unique member)
    rw [Bindings.inSlot, bindingsReverse] at found
    cases k with
    | zero =>
      cases found
      simp only [start, if_true] at set
      exact self.trans set
    | succ k =>
      rw [List.getElem?_cons_succ, List.getElem?_map] at found
      obtain ⟨param, there, rfl⟩ := Option.map_eq_some_iff.mp found
      have other : param.tag ≠ p.tag := fun same =>
        inner (same ▸ List.mem_map_of_mem (List.mem_of_getElem? there))
      simp only [start, other, if_false] at set
      obtain ⟨g, hit, rfl⟩ := Option.map_eq_some_iff.mp set
      have tagged : g.1.tag = param.tag := by simpa using List.find?_some hit
      obtain ⟨j, at_j⟩ := List.mem_iff_getElem?.mp (List.mem_of_find?_eq_some hit)
      obtain ⟨declared, passed⟩ := List.getElem?_zip_eq_some.mp at_j
      have bound := (List.getElem?_eq_some_iff.mp declared).1
      obtain rfl : j = k := by
        refine (List.getElem?_inj (by simpa using bound) distinct).mp ?_
        rw [List.getElem?_map, List.getElem?_map, declared, there]
        exact congrArg some tagged
      exact given j g.2 passed

theorem Sited.simulated {final : Analysis} {link : String → Option String} {className : String}
    (unique : p.tags.Nodup) (member : m ∈ p.methods) (links : p.Links final className link)
    (sited : m.Sited final p) {n n' : Nat} {made : CompiledMethod}
    (emits : m.Emits final className n made n') : m.Simulated p link made := by
  intro ρ W _ I object args w result last executed locals self given
  have labelled := Method.emitsLabelled emits
  obtain ⟨inner, after, scope, inside⟩ := sited
  obtain @⟨_, _, _, code, _, _, _, bound, body⟩ := emits
  obtain rfl := Analysis.scopeOfBound bound scope
  have framed := bindingsFramed unique member
  have holds := startHolds unique member self given w
  have does : Does I link (code ++ if m.returnType = .void then [.ret none] else [])
      ⟨locals, [], w⟩ (.returned result last) := by
    cases executed with
    | returned _ ran => exact Does.early (Stmt.emitAllFollows links ran inside framed holds body)
    | ended _ void ran =>
      obtain ⟨_, t, run, held⟩ := Stmt.emitAllFollows links ran inside framed holds body
      rw [if_pos void, ← held.world]
      exact run.append (.stop rfl)
  obtain ⟨k, machine, i, reached, here, stops⟩ :=
    does _ 0 (Placed.whole fun here there => labelled.once here there)
  exact reached.finishes here stops

end Method

/-- `Search` counts up to its argument. In its loop there is a variable without a first value, a value
that is assigned inside a condition, and a branch that returns. -/
def searchProgram : Program NodeId :=
  let var (n : Nat) (x : String) : Expr NodeId := .var ⟨n⟩ x {}
  let int (n : Nat) (value : Int) : Expr NodeId := .literal ⟨n⟩ (.int value) {}
  let next : Expr NodeId := .assign ⟨10⟩ (var 11 "d") (.binary ⟨12⟩ .add (var 13 "s") (int 14 1))
  let body : Stmt NodeId := .block ⟨7⟩ [.declare ⟨8⟩ (some .int) [⟨⟨9⟩, "d", none, {}⟩] {},
    .ifElse ⟨15⟩ (.binary ⟨16⟩ .equal next (var 17 "n")) (.ret ⟨18⟩ (some (var 19 "d")) {}) ⟨20⟩
      (.block ⟨21⟩ [.declare ⟨22⟩ none [⟨⟨23⟩, "e", some (var 24 "d"), {}⟩] {},
        .expr ⟨25⟩ (.assign ⟨26⟩ (var 27 "s") (var 28 "e")) {}] {}) {}] {}
  ⟨⟨0⟩, [⟨⟨1⟩, "Search", some .int, [⟨⟨2⟩, .int, "n", {}⟩],
      ⟨⟨3⟩, [.declare ⟨4⟩ none [⟨⟨5⟩, "s", some (int 6 0), {}⟩] {},
        .loop ⟨29⟩ (.binary ⟨30⟩ .less (var 31 "s") (var 32 "n")) body {},
        .ret ⟨33⟩ (some (int 34 0)) {}], {}⟩, {}⟩,
    ⟨⟨35⟩, "Main", none, [], ⟨⟨36⟩, [], {}⟩, {}⟩]⟩

def searchMethod : Method NodeId := searchProgram.methods.head (by decide)

def adding : Interpretation String Unit where
  arith _ op l r :=
    match op, l, r with
    | .add, .int l, .int r => some (.int (l + r))
    | _, _, _ => none
  fcmpl _ _ := none
  text s := s
  call _ _ _ _ := none
  print _ _ _ := none
  read _ _ := none
  random _ := none
  randomBelow _ _ := none

theorem searchExecutes :
    searchMethod.Executes adding searchProgram (.ref "this") [.int 2] () (some (.int 2)) () := by
  apply Method.Executes.returned rfl
  apply Stmt.ExecuteAll.cons
  · exact .declare (.cons (.initial rfl .literal .literal) .nil)
  apply Stmt.ExecuteAll.returned
  apply Stmt.Executes.loopAgain
  · exact .compare rfl (.var rfl rfl) (.var rfl rfl) (.var rfl) rfl
  · decide
  · -- The first time the sum is 1, which is not 2.
    apply Stmt.Executes.block
    apply Stmt.ExecuteAll.cons
    · exact .declare (.cons (.bare rfl rfl) .nil)
    apply Stmt.ExecuteAll.cons
    · apply Stmt.Executes.elseFalse
      · show Expr.Evaluates _ _ _ _ (some (.ofBool false)) _
        apply Expr.Evaluates.compare rfl
        · exact .assign (.arith rfl (.var rfl rfl) .literal (Expr.HasType.var rfl) rfl rfl) rfl
        · exact .var rfl rfl
        · exact .assign rfl (.binary (.var rfl) .literal rfl)
        · rfl
      · apply Stmt.Executes.block
        apply Stmt.ExecuteAll.cons
        · exact .declare (.cons (.initial rfl (.var rfl) (.var rfl rfl)) .nil)
        · exact .cons (.expr (.assign (.var rfl rfl) rfl)) .nil
    · exact .nil
  apply Stmt.Executes.loopReturns
  · exact .compare rfl (.var rfl rfl) (.var rfl rfl) (.var rfl) rfl
  · decide
  · apply Stmt.Executes.block
    apply Stmt.ExecuteAll.cons
    · exact .declare (.cons (.bare rfl rfl) .nil)
    apply Stmt.ExecuteAll.returned
    apply Stmt.Executes.elseTrue
    · apply Expr.Evaluates.compare rfl
      · exact .assign (.arith rfl (.var rfl rfl) .literal (Expr.HasType.var rfl) rfl rfl) rfl
      · exact .var rfl rfl
      · exact .assign rfl (.binary (.var rfl) .literal rfl)
      · rfl
    · decide
    · exact .ret (.var rfl rfl)

namespace Program

/-- Compiled methods simulate the methods of the program. -/
theorem compiledSimulates {options : Options} {c : ClassFile} (unique : p.tags.Nodup)
    (valued : ∀ m ∈ p.methods, ∀ param ∈ m.params, param.type.isValue = true)
    (distinct : ∀ m ∈ p.methods, (m.params.map Param.name).Nodup)
    (named : ∀ m ∈ p.methods, ∀ d ∈ Stmt.declaratorsAll m.body.stmts, d.name ≠ selfName)
    (done : p.compile options = .ok c) :
    ∃ cs, c.methods = initMethod :: mainMethod options.className :: cs ∧
      List.Forall₂ (fun m made => made.name = m.name ∧ m.Simulated p c.link made) p.methods cs := by
  obtain ⟨a, analyzed, generated⟩ := compileParts done
  obtain ⟨ms, compiled, generated⟩ := bindOk.mp generated
  obtain ⟨q, clean, same⟩ := cleanOfAnalyze unique analyzed
  cases generated
  have alike : a.Alike p.annotated := by
    rw [same]
    exact ⟨rfl, rfl, rfl, clean.methods.marks⟩
  have sited := Method.passAllSited ⟨clean.sane unique valued, alike, named⟩ distinct p.between rfl
    (annotatedRuns unique) (List.Subset.refl _) p.begunSites clean.methods
  have calling := Method.compileAllCalling compiled
  rw [alike.methods] at calling
  have links : p.Links a options.className (ClassFile.link ⟨_, _, _⟩) :=
    ⟨alike.methods ▸ p.annotatedUsesEq, alike.methods ▸ classLinks options.version calling⟩
  refine ⟨ms.1, rfl, List.forall₂_iff_zip.mpr ⟨calling.length_eq, fun {m made} member => ?_⟩⟩
  have known := (List.of_mem_zip member).1
  obtain ⟨_, _, emits⟩ := List.forall₂_zip (Method.compileAllEmits compiled) member
  exact ⟨(List.forall₂_zip calling member).name, (sited m known).simulated unique known links emits⟩

theorem searchSimulated : ∃ c made, searchProgram.compile {} = .ok c ∧ made ∈ c.methods ∧
    made.name = "Search" ∧ ∃ steps, execute adding c.link made.code steps 0
      ⟨fun k => [.ref "this", .int 2][k]?, [], ()⟩ = some (some (.int 2), ()) := by
  cases done : searchProgram.compile {} with
  | error failure =>
    have accepted : (searchProgram.compile {}).toOption.isSome = true := by decide +kernel
    simp [done, Except.toOption] at accepted
  | ok c =>
    obtain ⟨cs, methods, all⟩ := compiledSimulates (by decide +kernel) (by decide +kernel)
      (by decide +kernel) (by decide +kernel) done
    cases all with
    | @cons _ made _ _ first _ =>
      obtain ⟨name, simulated⟩ := first
      exact ⟨c, made, rfl, by simp [methods], name, simulated String Unit adding _ _ _ _ _
        searchExecutes _ rfl fun i v given => by simpa using given⟩

end Program
end ClassCompiler
