import ClassCompiler.Proofs.Evaluation

/-! The code of an expression computes it. The variables are now slots: a name means the slot that
the analysis has for it. Wherever the code of an expression is placed, it leaves the value on top of
the stack, and the locals and the world as the evaluation leaves them. -/
namespace ClassCompiler
variable {ρ W : Type}

def Memory.on (s : Memory Nat ρ W) (stack : List (Cell ρ)) : Machine ρ W := ⟨s.vars, stack, s.world⟩

/-- Variables are slots, and types are those that have been recorded. -/
def Analysis.view (a : Analysis) (id : Nat) : View Nat where
  cell x :=
    match a.scopes.lookup id x with
    | some (.var v) => some v.slot
    | _ => none
  object := 0
  operand e type := a.typeOf? e.tag = some type
  methods := a.methods.uses

def Linking (link : String → Option String) (t : MethodTable) (className : String) : Prop :=
  ∀ m s d, t.find? m = some s → methodDescriptor s.params s.returns = .ok d →
    link s!"{className}.{m}{d}" = some m

theorem Analysis.localSlotCell {a : Analysis} {id : Nat} {x purpose : String} {s : ValueKind × Nat}
    (found : a.localSlot id x purpose = .ok s) : (a.view id).cell x = some s.2 := by
  obtain ⟨v, here, _, slot⟩ := Analysis.localSlotOf found
  simp [Analysis.view, here, slot]

theorem Analysis.localSlotMeant {a : Analysis} {id k : Nat} {x purpose : String}
    {s : ValueKind × Nat} (found : a.localSlot id x purpose = .ok s)
    (meant : (a.view id).cell x = some k) : s.2 = k :=
  Option.some.inj ((Analysis.localSlotCell found).symm.trans meant)

theorem Analysis.typeOfNoted {a : Analysis} {node : NodeId} {known type : DataType}
    (found : a.typeOf node = .ok known) (noted : a.typeOf? node = some type) : known = type :=
  Option.some.inj ((Analysis.typeOfOk.mp found).symm.trans noted)

theorem arithKindOf {type : DataType} {kind : ValueKind} (found : arithKind type = .ok kind) :
    ValueKind.of? type = some kind := by
  cases type <;> cases found <;> rfl

section
variable [DecidableEq ρ] {I : Interpretation ρ W} {link : String → Option String}

theorem Instruction.pushIntEffect (n : Int) (m : Machine ρ W) :
    (Instruction.pushInt n).effect I link m = some (.next (m.push (.int n))) := by
  unfold Instruction.pushInt
  split_ifs with tiny byte short
  · exact if_pos tiny
  · exact if_pos byte
  · exact if_pos short
  · rfl

theorem Instruction.pushBoolEffect (b : Bool) (m : Machine ρ W) :
    (Instruction.pushBool b).effect I link m = some (.next (m.push (.ofBool b))) := by
  cases b <;> rfl

theorem Literal.codeEffect (value : Literal) (m : Machine ρ W) :
    value.code.effect I link m = some (.next (m.push (I.literal value))) := by
  cases value with
  | int n => exact Instruction.pushIntEffect n m
  | char c => exact Instruction.pushIntEffect c.toNat m
  | bool b => exact Instruction.pushBoolEffect b m
  | float bits => rfl
  | string s => rfl

namespace Does
variable {m n : Machine ρ W} {i : Instruction}

theorem selectFalls (b : Bool) (taken done : Label) :
    Does I link (Instruction.selectBool b taken done) m (.through (m.push (.ofBool b))) :=
  (one (Instruction.pushBoolEffect b m)).append
    (jump [.label taken, Instruction.pushBool (!b)] rfl nil)

theorem selectTaken (b : Bool) (between : List Instruction) (done : Label) {taken : Label}
    (jumps : i.effect I link m = some (.jump taken n)) :
    Does I link ([i] ++ between ++ Instruction.selectBool b taken done) m
      (.through (n.push (.ofBool !b))) := by
  have last : Does I link [Instruction.pushBool (!b), .label done] n
      (.through (n.push (.ofBool !b))) :=
    (one (Instruction.pushBoolEffect (!b) n)).append (one rfl)
  simpa [Instruction.selectBool] using
    jump (between ++ [Instruction.pushBool b, .goto done]) jumps last

theorem test (b skips : Bool) (done : Label) {taken : Label}
    (tested : i.effect I link m = some (if skips then .jump taken n else .next n)) :
    Does I link ([i] ++ Instruction.selectBool b taken done) m
      (.through (n.push (.ofBool (b != skips)))) := by
  cases skips with
  | false =>
    rw [Bool.bne_false]
    exact (one tested).append (selectFalls b taken done)
  | true =>
    rw [Bool.bne_true]
    exact selectTaken b [] done tested

end Does

theorem Condition.zeroHolds (l : Int) : Condition.eq.holds (compare l 0) = (l == 0) := by
  rw [Bool.eq_iff_iff, Condition.holds, beq_iff_eq, beq_iff_eq]
  exact Std.compare_eq_iff_eq

variable (I link) in
theorem Instruction.decideEffect (isAnd : Bool) (taken : Label) (s : Memory Nat ρ W) (l : Int)
    (stack : List (Cell ρ)) :
    (Instruction.branch (if isAnd then .eq else .ne) taken).effect I link
        (s.on (.value (.int l) :: stack)) =
      some (if (l == 0) == isAnd then .jump taken (s.on stack) else .next (s.on stack)) := by
  have zero := Condition.zeroHolds l
  have other : Condition.ne.holds (compare l 0) = !(l == 0) := by
    rw [← zero]
    exact Condition.negateHolds .eq _
  cases isAnd <;> simp [Instruction.effect, Memory.on, zero, other]

namespace Does
variable {first second : List Instruction} {start : Machine ρ W} {s s' : Memory Nat ρ W} {l : Int}
  {stack : List (Cell ρ)}

theorem decided {isAnd : Bool} (left : Does I link first start (.through (s.on (.value (.int l) :: stack))))
    (decides : (l == 0) = isAnd) (second : List Instruction) (taken done : Label) :
    Does I link (first ++ [.branch (if isAnd then .eq else .ne) taken] ++ second ++
        [.branch (if isAnd then .eq else .ne) taken] ++ Instruction.selectBool isAnd taken done) start
      (.through (s.on (.value (.ofBool !isAnd) :: stack))) := by
  have tested := Instruction.decideEffect I link isAnd taken s l stack
  rw [decides, beq_self_eq_true, if_pos rfl] at tested
  have run := left.append
    (selectTaken isAnd (second ++ [.branch (if isAnd then .eq else .ne) taken]) done tested)
  simp only [List.append_assoc] at run ⊢
  exact run

theorem joined {isAnd : Bool} {r : Int}
    (left : Does I link first start (.through (s.on (.value (.int l) :: stack))))
    (leaves : (l == 0) = !isAnd)
    (right : Does I link second (s.on stack) (.through (s'.on (.value (.int r) :: stack))))
    (taken done : Label) :
    Does I link (first ++ [.branch (if isAnd then .eq else .ne) taken] ++ second ++
        [.branch (if isAnd then .eq else .ne) taken] ++ Instruction.selectBool isAnd taken done) start
      (.through (s'.on (.value (.ofBool (r != 0)) :: stack))) := by
  have falls := Instruction.decideEffect I link isAnd taken s l stack
  have onward : ((!isAnd) == isAnd) = false := by cases isAnd <;> rfl
  rw [leaves, onward] at falls
  have last := test isAnd _ done (Instruction.decideEffect I link isAnd taken s' r stack)
  -- The second operand alone settles the truth, whichever way its jump goes.
  have truth : (isAnd != ((r == 0) == isAnd)) = !(r == 0) := by
    cases isAnd <;> cases r == 0 <;> rfl
  rw [truth] at last
  have run := (left.append (one falls)).append (right.append last)
  simp only [List.append_assoc] at run ⊢
  exact run

theorem negated (operand : Does I link first start (.through (s.on (.value (.int l) :: stack))))
    (taken done : Label) :
    Does I link (first ++ [.branch .ne taken] ++ Instruction.selectBool true taken done) start
      (.through (s.on (.value (.ofBool (l == 0)) :: stack))) := by
  have last := test true _ done (Instruction.decideEffect I link false taken s l stack)
  have truth : (true != ((l == 0) == false)) = (l == 0) := by
    cases l == 0 <;> rfl
  rw [truth] at last
  rw [List.append_assoc]
  exact operand.append last

end Does

theorem arithDoes {kind : ValueKind} {op : ArithOp} {l r v : Value ρ}
    (result : I.arith kind op l r = some v) (s : Memory Nat ρ W) (stack : List (Cell ρ)) :
    Does I link [.arith kind op] (s.on (.value r :: .value l :: stack))
      (.through (s.on (.value v :: stack))) := by
  refine .one ?_
  simp only [Instruction.effect, Memory.on, result, Option.map_some]

theorem compareDoes {c : Condition} {type : DataType} {taken : Label} (done : Label)
    {test : List Instruction}
    (coded : compareCode c.negate taken type = .ok test) {l r : Value ρ} {truth : Bool}
    (compared : I.compare c type l r = some truth) (s : Memory Nat ρ W) (stack : List (Cell ρ)) :
    Does I link (test ++ Instruction.selectBool true taken done)
      (s.on (.value r :: .value l :: stack)) (.through (s.on (.value (.ofBool truth) :: stack))) := by
  -- The jump is taken if the condition does not hold.
  have tested (i : Instruction) (before : List (Cell ρ)) (branches : i.effect I link (s.on before) =
        some (if !truth then .jump taken (s.on stack) else .next (s.on stack))) :
      Does I link ([i] ++ Instruction.selectBool true taken done) (s.on before)
        (.through (s.on (.value (.ofBool truth) :: stack))) := by
    have run : Does I link ([i] ++ Instruction.selectBool true taken done) (s.on before) _ :=
      .test true (!truth) done branches
    have same : (true != !truth) = truth := by cases truth <;> rfl
    rw [same] at run
    exact run
  cases type with
  | void => contradiction
  | float =>
    cases coded
    obtain ⟨o, answer, holds⟩ := Option.map_eq_some_iff.mp compared
    have signed : Does I link [.fcmpl] (s.on (.value r :: .value l :: stack))
        (.through (s.on (.value (.int (signOf o)) :: stack))) := by
      refine Does.one ?_
      simp only [Instruction.effect, Memory.on, answer, Option.map_some]
    refine signed.append (tested _ _ ?_)
    simp only [Instruction.effect, Memory.on, compareSign, c.negateHolds, holds]
  | int | bool | char =>
    cases coded
    cases l with
    | int x =>
      cases r with
      | int y =>
        refine tested _ _ ?_
        simp only [Instruction.effect, Memory.on, c.negateHolds, Option.some.inj compared]
      | _ => contradiction
    | _ => contradiction
  | string | self =>
    cases coded
    cases l with
    | ref x =>
      cases r with
      | ref y =>
        have holds : c.holdsRef (x = y) = some truth := compared
        refine tested _ _ ?_
        simp only [Instruction.effect, Memory.on, c.negateHoldsRef, holds, Option.map_some]
      | _ => contradiction
    | _ => contradiction

theorem loadDoes {s : Memory Nat ρ W} {slot : Nat} {v : Value ρ} (given : s.vars slot = some v)
    (kind : ValueKind) (stack : List (Cell ρ)) :
    Does I link [.load kind slot] (s.on stack) (.through (s.on (.value v :: stack))) := by
  refine .one ?_
  simp only [Instruction.effect, Memory.on, given, Option.map_some]
  rfl

theorem storeDoes {s : Memory Nat ρ W} {kind : ValueKind} {slot : Nat} {v : Value ρ}
    {stack : List (Cell ρ)} : Does I link [.store kind slot] (s.on (.value v :: stack))
      (.through ((s.set slot (some v)).on stack)) := .one rfl

theorem dupDoes {s : Memory Nat ρ W} {v : Value ρ} {stack : List (Cell ρ)} :
    Does I link [.dup] (s.on (.value v :: stack)) (.through (s.on (.value v :: .value v :: stack))) :=
  .one rfl

section
variable {target : String} {vs : List (Value ρ)} {s : Memory Nat ρ W}
  {result : Option (Value ρ)} {w : W} {returns : Bool}

theorem invokeLibrary {op : Library} (known : Library.ofTarget? target = some op)
    (called : I.library op vs s.world = some (result, w)) (shaped : result.isSome = returns)
    (stack : List (Cell ρ)) : Does I link [.invokeVirtual target vs.length returns]
      (s.on ((vs.map Cell.value).reverse ++ .helper op.receiver :: stack))
      (.through (({ s with world := w } : Memory Nat ρ W).on
        ((result.map Cell.value).toList ++ stack))) := by
  refine .one ?_
  simp [Instruction.effect, Machine.invoke, Memory.on, popValuesAppend, known, called, shaped]

theorem invokeMethod {name : String} {object : Value ρ} (linked : link target = some name)
    (called : I.call name object vs s.world = some (result, w)) (shaped : result.isSome = returns)
    (stack : List (Cell ρ)) : Does I link [.invokeVirtual target vs.length returns]
      (s.on ((vs.map Cell.value).reverse ++ .value object :: stack))
      (.through (({ s with world := w } : Memory Nat ρ W).on
        ((result.map Cell.value).toList ++ stack))) := by
  refine .one ?_
  simp [Instruction.effect, Machine.invoke, Memory.on, popValuesAppend, linked, called, shaped]

end

theorem printDoes {type : DataType} {print : List Instruction} (coded : printCode type = .ok print)
    {s : Memory Nat ρ W} {v : Value ρ} {w : W} (written : I.print type v s.world = some w)
    (stack : List (Cell ρ)) :
    Does I link print
      (s.on (.value v :: .helper "java/lang/System/out Ljava/io/PrintStream;" :: stack))
      (.through (({ s with world := w } : Memory Nat ρ W).on stack)) := by
  have called : I.library (.print type) [v] s.world = some (none, w) := by
    simp [Interpretation.library, written]
  cases type <;> cases coded <;> exact invokeLibrary rfl called rfl stack

theorem readDoes {input : Input} {s : Memory Nat ρ W} {v : Value ρ} {w : W}
    (got : I.read input s.world = some (v, w)) (stack : List (Cell ρ)) :
    Does I link (readCode input) (s.on stack)
      (.through (({ s with world := w } : Memory Nat ρ W).on (.value v :: stack))) := by
  have called : I.library (.read input) [] s.world = some (some v, w) := by
    simp [Interpretation.library, got]
  have known : Library.ofTarget? s!"java/util/Scanner.{input.reader}" = some (.read input) := by
    cases input <;> rfl
  have asked : Does I link _ _ _ := invokeLibrary known called rfl stack
  exact .append (.one rfl) (.append (.one rfl) (.append (.one rfl) (.append (.one rfl) asked)))

theorem randomDoes (s : Memory Nat ρ W) (stack : List (Cell ρ)) :
    Does I link randomCode (s.on stack) (.through (s.on (.helper "java/util/Random" :: stack))) :=
  .append (.one rfl) (.append (.one rfl) (.one rfl))

theorem nextDoes {s : Memory Nat ρ W} {v : Value ρ} {w : W} (got : I.random s.world = some (v, w))
    (stack : List (Cell ρ)) : Does I link [.invokeVirtual "java/util/Random.nextInt()I" 0 true]
      (s.on (.helper "java/util/Random" :: stack))
      (.through (({ s with world := w } : Memory Nat ρ W).on (.value v :: stack))) := by
  have called : I.library .random [] s.world = some (some v, w) := by
    simp [Interpretation.library, got]
  exact invokeLibrary rfl called rfl stack

theorem nextBelowDoes {s : Memory Nat ρ W} {l v : Value ρ} {w : W}
    (got : I.randomBelow l s.world = some (v, w)) (stack : List (Cell ρ)) :
    Does I link [.invokeVirtual "java/util/Random.nextInt(I)I" 1 true]
      (s.on (.value l :: .helper "java/util/Random" :: stack))
      (.through (({ s with world := w } : Memory Nat ρ W).on (.value v :: stack))) := by
  have called : I.library .randomBelow [l] s.world = some (some v, w) := by
    simp [Interpretation.library, got]
  exact invokeLibrary rfl called rfl stack

theorem Expr.evaluateAllLength {κ : Type} [DecidableEq κ] {V : View κ} :
    ∀ (es : List (Expr NodeId)) {s s' : Memory κ ρ W} {vs : List (Value ρ)},
      Expr.EvaluateAll I V s es vs s' → vs.length = es.length
  | [], _, _, _, .nil => rfl
  | _ :: rest, _, _, _, .cons _ others => by
    simp [Expr.evaluateAllLength rest others]

mutual

theorem Expr.emitsDoes {a : Analysis} {className : String} {id : Nat}
    (linked : Linking link a.methods className) : ∀ (e : Expr NodeId) {n n' : Nat}
    {code : List Instruction} {s s' : Memory Nat ρ W} {result : Option (Value ρ)}
    (stack : List (Cell ρ)), e.Emits a className id n code n' →
      e.Evaluates I (a.view id) s result s' →
        Does I link code (s.on stack) (.through (s'.on ((result.map Cell.value).toList ++ stack)))
  | .literal _ value _, _, _, _, _, _, _, _, .literal, .literal => .one (value.codeEffect _)
  | .var .., _, _, _, _, _, _, stack, .var home, .var meant given => by
    obtain rfl := Analysis.localSlotMeant home meant
    exact loadDoes given _ stack
  | .binary _ _ left right, n, _, _, _, s', _, stack, emits, evaluated => by
    cases emits with
    | arith action one other recorded family =>
      cases evaluated with
      | arith again first second typed kinds result =>
        cases action.symm.trans again
        obtain rfl := Analysis.typeOfNoted recorded typed
        cases (arithKindOf family).symm.trans kinds
        exact ((left.emitsDoes linked stack one first).append
          (right.emitsDoes linked _ other second)).append (arithDoes result s' stack)
      | compare again | decided again | joined again => cases action.symm.trans again
    | compare action one other recorded tested =>
      cases evaluated with
      | compare again first second typed result =>
        cases action.symm.trans again
        obtain rfl := Analysis.typeOfNoted recorded typed
        rw [List.append_assoc]
        exact ((left.emitsDoes linked stack one first).append
          (right.emitsDoes linked _ other second)).append (compareDoes _ tested result s' stack)
      | arith again | decided again | joined again => cases action.symm.trans again
    | logical action one other =>
      cases evaluated with
      | decided again first decides =>
        cases action.symm.trans again
        exact (left.emitsDoes linked stack one first).decided decides _ ⟨n⟩ ⟨n + 1⟩
      | joined again first leaves second =>
        cases action.symm.trans again
        exact (left.emitsDoes linked stack one first).joined leaves
          (right.emitsDoes linked stack other second) ⟨n⟩ ⟨n + 1⟩
      | arith again | compare again => cases action.symm.trans again
  | .not _ operand _, _, _, _, _, _, _, stack, .not emits, .not inner =>
    (operand.emitsDoes linked stack emits inner).negated _ _
  | .assign _ _ value, _, _, _, _, _, _, stack, .assign emits home,
      .assign assigned meant => by
    obtain rfl := Analysis.localSlotMeant home meant
    exact ((value.emitsDoes linked stack emits assigned).append dupDoes).append storeDoes
  | .call _ m args _, _, _, _, _, _, _, stack, .call declared emits described,
      .call found receiver given called shaped => by
    obtain ⟨_, same, rfl⟩ := Option.map_eq_some_iff.mp found
    cases declared.symm.trans same
    have last := invokeMethod (linked m _ _ declared described) called shaped stack
    rw [Expr.evaluateAllLength args given] at last
    exact ((loadDoes receiver .reference stack).append
      (Expr.emitAllDoes linked args _ emits given)).append last
  | .writeLine _ value _, _, _, _, s, _, _, stack, .writeLine emits recorded printing,
      .writeLine printed typed written => by
    obtain rfl := Analysis.typeOfNoted recorded typed
    have first : Does I link [.getStatic "java/lang/System/out Ljava/io/PrintStream;"] (s.on stack)
        (.through (s.on (.helper "java/lang/System/out Ljava/io/PrintStream;" :: stack))) := .one rfl
    exact (first.append (value.emitsDoes linked _ emits printed)).append
      (printDoes printing written stack)
  | .read .., _, _, _, _, _, _, stack, .read, .read got => readDoes got stack
  | .random .., _, _, _, s, _, _, stack, .random, .random got =>
    (randomDoes s stack).append (nextDoes got stack)
  | .randomBelow _ bound _, _, _, _, s, _, _, stack, .randomBelow emits, .randomBelow limit got =>
    ((randomDoes s stack).append (bound.emitsDoes linked _ emits limit)).append
      (nextBelowDoes got stack)
termination_by structural e => e

theorem Expr.emitAllDoes {a : Analysis} {className : String} {id : Nat}
    (linked : Linking link a.methods className) : ∀ (es : List (Expr NodeId)) {n n' : Nat}
    {code : List Instruction} {s s' : Memory Nat ρ W} {vs : List (Value ρ)}
    (stack : List (Cell ρ)), Expr.EmitAll a className id es n code n' →
      Expr.EvaluateAll I (a.view id) s es vs s' →
        Does I link code (s.on stack) (.through (s'.on ((vs.map Cell.value).reverse ++ stack)))
  | [], _, _, _, _, _, _, _, .nil, .nil => .nil
  | e :: rest, _, _, _, _, _, _, stack, .cons one more, .cons first others => by
    have run := (e.emitsDoes linked stack one first).append
      (Expr.emitAllDoes linked rest _ more others)
    simpa using run
termination_by structural es => es

end

end
end ClassCompiler
