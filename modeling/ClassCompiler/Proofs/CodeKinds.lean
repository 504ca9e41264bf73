import ClassCompiler.Code
import ClassCompiler.Proofs.CallShapes
import ClassCompiler.Proofs.CodeSteps
import ClassCompiler.Proofs.Demand

/-! The code of a program that its analysis fits: there is code for every piece, it finds the kinds
that it takes on the stack, and it needs the room that the syntax says. -/
namespace ClassCompiler

theorem ValueKind.carrierValue {type : DataType} (self : ValueKind) (value : type.isValue = true) :
    self.carrier type = ValueKind.of? type := by
  cases type <;> simp_all [ValueKind.carrier, DataType.isValue]

theorem ValueKind.ofValue {type : DataType} (value : type.isValue = true) :
    ∃ kind, ValueKind.of? type = some kind := by
  cases type <;> simp_all [ValueKind.of?, DataType.isValue]

def Analysis.Callable (a : Analysis) : Prop :=
  ∀ m use, a.methods.uses m = some use →
    use.returns ≠ .self ∧ ∀ type ∈ use.params, type.isValue = true

/-- There is code, and it turns the stack `before` into `after`. -/
def Makes (returns : Option ValueKind) (made : Except Fault (List Instruction × Nat)) (n : Nat)
    (before after : List ValueKind) (need : Nat) : Prop :=
  ∃ code n', made = .ok (code, n') ∧ Runs returns code n n' before after need

theorem Makes.resize {returns : Option ValueKind} {made : Except Fault (List Instruction × Nat)}
    {n d e : Nat} {before after : List ValueKind} (makes : Makes returns made n before after d)
    (same : d = e) : Makes returns made n before after e := same ▸ makes

@[simp] theorem okBind {ε α β : Type} (value : α) (f : α → Except ε β) :
    (Except.ok value >>= f) = f value := rfl

section
variable {returns : Option ValueKind} {a : Analysis} {className : String} {id : Nat}
  {stack : List ValueKind}

theorem Literal.codeRuns (returns : Option ValueKind) (value : Literal) (n : Nat)
    (stack : List ValueKind) :
    ∃ kind, ValueKind.of? value.dataType = some kind ∧
      Runs returns [value.code] n n stack (kind :: stack) (stack.length + 1) := by
  have one (i : Instruction) (kind : ValueKind) (simple : i.isPlain = true)
      (made : i.kinds returns stack = some (kind :: stack)) :
      Runs returns [i] n n stack (kind :: stack) (stack.length + 1) :=
    (Runs.plain n simple made).resize (by simp only [List.length_cons]; omega)
  cases value with
  | int v => exact ⟨.int, rfl, one _ _ (Instruction.pushIntPlain v) (Instruction.pushIntKinds ..)⟩
  | float v => exact ⟨.float, rfl, one _ _ rfl rfl⟩
  | bool v => exact ⟨.int, rfl, one _ _ rfl rfl⟩
  | char v => exact ⟨.int, rfl, one _ _ (Instruction.pushIntPlain _) (Instruction.pushIntKinds ..)⟩
  | string v => exact ⟨.reference, rfl, one _ _ rfl rfl⟩

theorem Analysis.Holds.slot {vars : String → Option DataType} {self : ValueKind}
    (holds : a.Holds id vars self) {x : String} {type : DataType} (known : vars x = some type)
    (purpose : String) : ∃ kind slot, a.localSlot id x purpose = .ok (kind, slot) ∧
      self.carrier type = some kind := by
  obtain ⟨v, found, kind, here, typed, kinds, carried⟩ := holds x type known
  exact ⟨kind, v.slot, by simp [Analysis.localSlot, here, typed, kinds], carried⟩

theorem arithKindNumeric {type : DataType} (numeric : type.isNumeric = true) :
    ∃ kind, arithKind type = .ok kind ∧ ValueKind.of? type = some kind ∧ kind ≠ .reference := by
  cases type <;> simp_all [DataType.isNumeric, arithKind, ValueKind.of?]

theorem BinaryOp.actionGroup (op : BinaryOp) :
    match op.action with
    | .logical _ => op.group = .logical
    | .compare _ => op.group = .relational
    | .arith _ => op.group = .arithmetic := by
  cases op <;> rfl

theorem Expr.codeArith {node : NodeId} {op : BinaryOp} {o : ArithOp} {left right : Expr NodeId}
    {type : DataType} {kind : ValueKind} {n d e : Nat} (action : op.action = .arith o)
    (numeric : type.isNumeric = true) (known : ValueKind.of? type = some kind)
    (recorded : a.typeOf? node = some type)
    (l : Makes returns (left.code a className id n) n stack (kind :: stack) d)
    (r : ∀ m, Makes returns (right.code a className id m) m (kind :: stack)
      (kind :: kind :: stack) e) (room : stack.length + 2 ≤ e) :
    Makes returns ((Expr.binary node op left right).code a className id n) n stack (kind :: stack)
      (max d e) := by
  obtain ⟨lcode, m, madeLeft, runLeft⟩ := l
  obtain ⟨rcode, n', madeRight, runRight⟩ := r m
  obtain ⟨kind', family, same, number⟩ := arithKindNumeric numeric
  obtain rfl : kind = kind' := by simpa [known] using same
  refine ⟨lcode ++ rcode ++ [.arith kind o], n', ?_, ?_⟩
  · simp only [Expr.code, action, madeLeft, madeRight, Analysis.typeOfOk.mpr recorded, family,
      okBind]
    rfl
  · have made : (Instruction.arith kind o).kinds returns (kind :: kind :: stack) =
        some (kind :: stack) := by
      simp [Instruction.kinds, number, takeKinds]
    refine ((runLeft.append runRight).append (.plain n' rfl made)).resize ?_
    simp only [List.length_cons]
    omega

theorem compareRuns (cond : Condition) {type : DataType} {kind : ValueKind} {code : List Instruction}
    {n m d : Nat} (value : type.isValue = true) (known : ValueKind.of? type = some kind)
    (runs : Runs returns code n m stack (kind :: kind :: stack) d) (room : stack.length + 2 ≤ d) :
    ∃ test, compareCode cond ⟨m⟩ type = .ok test ∧
      Runs returns (code ++ test ++ Instruction.selectBool true ⟨m⟩ ⟨m + 1⟩) n (m + 2) stack
        (.int :: stack) d := by
  have direct (i : Instruction) (target : i.jumpTarget? = some ⟨m⟩) (goes : i.isTerminal = false)
      (made : i.kinds returns (kind :: kind :: stack) = some stack) :
      Runs returns (code ++ [i] ++ Instruction.selectBool true ⟨m⟩ ⟨m + 1⟩) n (m + 2) stack
        (.int :: stack) d := by
    refine (runs.test target goes made).resize ?_
    simp only [List.length_cons]
    omega
  cases type with
  | void | self => simp [DataType.isValue] at value
  | int | bool | char =>
    cases known
    exact ⟨_, rfl, direct _ rfl rfl rfl⟩
  | string =>
    cases known
    exact ⟨_, rfl, direct _ rfl rfl rfl⟩
  | float =>
    cases known
    refine ⟨_, rfl, ?_⟩
    have both : Instruction.fcmpl.kinds returns (.float :: .float :: stack) =
        some (.int :: stack) := rfl
    have sign : (Instruction.branch cond ⟨m⟩).kinds returns (.int :: stack) = some stack := rfl
    have compared := (runs.append (.plain m rfl both)).test rfl rfl sign
    have same : code ++ [Instruction.fcmpl, .branch cond ⟨m⟩] =
        code ++ [.fcmpl] ++ [.branch cond ⟨m⟩] := by simp
    rw [same]
    refine compared.resize ?_
    simp only [List.length_cons]
    omega

theorem Expr.codeCompare {node : NodeId} {op : BinaryOp} {holds : Condition}
    {left right : Expr NodeId} {type : DataType} {kind : ValueKind} {n d e : Nat}
    (action : op.action = .compare holds) (value : type.isValue = true)
    (known : ValueKind.of? type = some kind) (recorded : a.typeOf? node = some type)
    (l : Makes returns (left.code a className id n) n stack (kind :: stack) d)
    (r : ∀ m, Makes returns (right.code a className id m) m (kind :: stack)
      (kind :: kind :: stack) e) (room : stack.length + 2 ≤ e) :
    Makes returns ((Expr.binary node op left right).code a className id n) n stack (.int :: stack)
      (max d e) := by
  obtain ⟨lcode, m, madeLeft, runLeft⟩ := l
  obtain ⟨rcode, n', madeRight, runRight⟩ := r m
  obtain ⟨test, made, runs⟩ := compareRuns holds.negate value known
    (runLeft.append runRight) (by omega)
  refine ⟨lcode ++ rcode ++ test ++ Instruction.selectBool true ⟨n'⟩ ⟨n' + 1⟩, n' + 2, ?_, runs⟩
  simp only [Expr.code, action, madeLeft, madeRight, Analysis.typeOfOk.mpr recorded, made,
    okBind]
  rfl

theorem Expr.codeLogical {node : NodeId} {op : BinaryOp} {isAnd : Bool} {left right : Expr NodeId}
    {n d e : Nat} (action : op.action = .logical isAnd)
    (l : Makes returns (left.code a className id (n + 2)) (n + 2) stack (.int :: stack) d)
    (r : ∀ m, Makes returns (right.code a className id m) m stack (.int :: stack) e)
    (room : stack.length + 1 ≤ d) :
    Makes returns ((Expr.binary node op left right).code a className id n) n stack (.int :: stack)
      (max d e) := by
  obtain ⟨lcode, m, madeLeft, runLeft⟩ := l
  obtain ⟨rcode, n', madeRight, runRight⟩ := r m
  refine ⟨_, n', ?_, Runs.logical isAnd (if isAnd then .eq else .ne) runLeft runRight room⟩
  simp only [Expr.code, action, madeLeft, madeRight, okBind]
  rfl

theorem Expr.codeNot {node : NodeId} {operand : Expr NodeId} {span : Span} {n d : Nat}
    (o : Makes returns (operand.code a className id n) n stack (.int :: stack) d)
    (room : stack.length + 1 ≤ d) :
    Makes returns ((Expr.not node operand span).code a className id n) n stack (.int :: stack) d := by
  obtain ⟨code, m, made, runs⟩ := o
  have sign : (Instruction.branch .ne ⟨m⟩).kinds returns (.int :: stack) = some stack := rfl
  refine ⟨_, m + 2, ?_, (runs.test rfl rfl sign).resize ?_⟩
  · simp only [Expr.code, made, okBind]
    rfl
  · simp only [List.length_cons]
    omega

theorem Analysis.assignMakes (node : NodeId) {target : Expr NodeId} {x : String} {kind : ValueKind}
    {slot n d : Nat} {value : Nat → Except Fault (List Instruction × Nat)} (keep : Bool)
    (named : target.asName = some x) (home : a.localSlot id x "store" = .ok (kind, slot))
    (v : Makes returns (value n) n stack (kind :: stack) d) (room : stack.length + 1 ≤ d) :
    Makes returns (a.assignCode id node keep target value n) n stack
      (if keep then kind :: stack else stack) (if keep then max d (stack.length + 2) else d) := by
  obtain ⟨code, m, made, runs⟩ := v
  have stored (rest : List ValueKind) :
      (Instruction.store kind slot).kinds returns (kind :: rest) = some rest := by
    simp [Instruction.kinds, takeKinds]
  refine ⟨code ++ (if keep then [.dup] else []) ++ [.store kind slot], m, ?_, ?_⟩
  · simp only [Analysis.assignCode, named, made, home, okBind]
    rfl
  · cases keep with
    | false =>
      have whole := runs.append (.plain m rfl (stored stack))
      simp only [Bool.false_eq_true, if_false, List.append_nil]
      refine whole.resize ?_
      simp only [List.length_cons]
      omega
    | true =>
      have copied : Instruction.dup.kinds returns (kind :: stack) = some (kind :: kind :: stack) := rfl
      have whole := (runs.append (.plain m rfl copied)).append (.plain m rfl (stored (kind :: stack)))
      simp only [if_true]
      refine whole.resize ?_
      simp only [List.length_cons]
      omega

theorem readRuns (returns : Option ValueKind) (input : Input) (n : Nat) (stack : List ValueKind) :
    ∃ kind, ValueKind.of? (Intrinsic.read input).resultType = some kind ∧
      Runs returns (readCode input) n n stack (kind :: stack) (stack.length + 3) := by
  obtain ⟨kind, known, shape⟩ : ∃ kind, ValueKind.of? (Intrinsic.read input).resultType = some kind ∧
      CallShape.read? s!"java/util/Scanner.{input.reader}" = some ⟨[], some kind⟩ := by
    cases input <;> exact ⟨_, rfl, rfl⟩
  refine ⟨kind, known, ?_⟩
  have one : (Instruction.new "java/util/Scanner").kinds returns stack =
      some (.reference :: stack) := rfl
  have two : Instruction.dup.kinds returns (.reference :: stack) =
      some (.reference :: .reference :: stack) := rfl
  have three : (Instruction.getStatic "java/lang/System.in Ljava/io/InputStream;").kinds returns
      (.reference :: .reference :: stack) = some (.reference :: .reference :: .reference :: stack) := rfl
  have made : CallShape.read? "java/util/Scanner.<init>(Ljava/io/InputStream;)V" =
      some ⟨[.reference], none⟩ := rfl
  have four : (Instruction.invokeSpecial "java/util/Scanner.<init>(Ljava/io/InputStream;)V" 1).kinds
      returns (.reference :: .reference :: .reference :: stack) = some (.reference :: stack) :=
    Instruction.callRead made rfl rfl _
  have five : (Instruction.invokeVirtual s!"java/util/Scanner.{input.reader}" 0 true).kinds returns
      (.reference :: stack) = some (kind :: stack) := Instruction.callRead shape rfl rfl _
  have whole := (Runs.plain n rfl one).append ((Runs.plain n rfl two).append ((Runs.plain n rfl
    three).append ((Runs.plain n rfl four).append (.plain n rfl five))))
  refine whole.resize ?_
  simp only [List.length_cons]
  omega

theorem randomRuns (n : Nat) :
    Runs returns randomCode n n stack (.reference :: stack) (stack.length + 2) := by
  have one : (Instruction.new "java/util/Random").kinds returns stack =
      some (.reference :: stack) := rfl
  have two : Instruction.dup.kinds returns (.reference :: stack) =
      some (.reference :: .reference :: stack) := rfl
  have made : CallShape.read? "java/util/Random.<init>()V" = some ⟨[], none⟩ := rfl
  have three : (Instruction.invokeSpecial "java/util/Random.<init>()V" 0).kinds
      returns (.reference :: .reference :: stack) = some (.reference :: stack) :=
    Instruction.callRead made rfl rfl _
  have whole := (Runs.plain n rfl one).append ((Runs.plain n rfl two).append (.plain n rfl three))
  refine whole.resize ?_
  simp only [List.length_cons]
  omega

theorem printRuns {type : DataType} {kind : ValueKind} (value : type.isValue = true)
    (known : ValueKind.of? type = some kind) (n : Nat) (stack : List ValueKind) :
    ∃ code, printCode type = .ok code ∧
      Runs returns code n n (kind :: .reference :: stack) stack (stack.length + 2) := by
  obtain ⟨target, made, shape⟩ : ∃ target, printCode type = .ok [.invokeVirtual target 1 false] ∧
      CallShape.read? target = some ⟨[kind], none⟩ := by
    cases type with
    | void | self => simp [DataType.isValue] at value
    | _ =>
      cases known
      exact ⟨_, rfl, rfl⟩
  have called : (Instruction.invokeVirtual target 1 false).kinds returns
      (kind :: .reference :: stack) = some stack := Instruction.callRead shape rfl rfl stack
  refine ⟨_, made, (Runs.plain n rfl called).resize ?_⟩
  simp only [List.length_cons]
  omega

theorem Expr.codeWriteLine {node : NodeId} {printed : Expr NodeId} {span : Span} {type : DataType}
    {kind : ValueKind} {n d : Nat} (value : type.isValue = true)
    (known : ValueKind.of? type = some kind) (recorded : a.typeOf? node = some type)
    (v : Makes returns (printed.code a className id n) n (.reference :: stack)
      (kind :: .reference :: stack) d) (room : stack.length + 2 ≤ d) :
    Makes returns ((Expr.writeLine node printed span).code a className id n) n stack stack d := by
  obtain ⟨code, m, made, runs⟩ := v
  obtain ⟨print, madePrint, printed⟩ := printRuns value known m stack
  have out : (Instruction.getStatic "java/lang/System/out Ljava/io/PrintStream;").kinds returns
      stack = some (.reference :: stack) := rfl
  refine ⟨_, m, ?_, (((Runs.plain n rfl out).append runs).append printed).resize ?_⟩
  · simp only [Expr.code, made, Analysis.typeOfOk.mpr recorded, madePrint, okBind]
    rfl
  · simp only [List.length_cons]
    omega

theorem Expr.codeRandom {node : NodeId} {span : Span} (n : Nat) :
    Makes returns ((Expr.random node span).code a className id n) n stack (.int :: stack)
      (stack.length + 2) := by
  have made : CallShape.read? "java/util/Random.nextInt()I" = some ⟨[], some .int⟩ := rfl
  have called : (Instruction.invokeVirtual "java/util/Random.nextInt()I" 0 true).kinds returns
      (.reference :: stack) = some (.int :: stack) := Instruction.callRead made rfl rfl stack
  refine ⟨_, n, rfl, ((randomRuns n).append (.plain n rfl called)).resize ?_⟩
  simp only [List.length_cons]
  omega

theorem Expr.codeRandomBelow {node : NodeId} {bound : Expr NodeId} {span : Span} {n d : Nat}
    (b : Makes returns (bound.code a className id n) n (.reference :: stack)
      (.int :: .reference :: stack) d) (room : stack.length + 2 ≤ d) :
    Makes returns ((Expr.randomBelow node bound span).code a className id n) n stack (.int :: stack)
      d := by
  obtain ⟨code, m, made, runs⟩ := b
  have shape : CallShape.read? "java/util/Random.nextInt(I)I" = some ⟨[.int], some .int⟩ := rfl
  have called : (Instruction.invokeVirtual "java/util/Random.nextInt(I)I" 1 true).kinds returns
      (.int :: .reference :: stack) = some (.int :: stack) := Instruction.callRead shape rfl rfl stack
  refine ⟨_, m, ?_, (((randomRuns n).append runs).append (.plain m rfl called)).resize ?_⟩
  · simp only [Expr.code, made, okBind]
    rfl
  · simp only [List.length_cons]
    omega

theorem Expr.codeCall {node : NodeId} {m : String} {args : List (Expr NodeId)} {span : Span}
    {gives : DataType} {params : List DataType} {n d : Nat} (callable : a.Callable)
    (found : a.methods.uses m = some ⟨gives, params⟩) (count : args.length = params.length)
    (es : Makes returns (Expr.codeAll a className id args n) n (.reference :: stack)
      ((params.filterMap ValueKind.of?).reverse ++ .reference :: stack) d)
    (need : max (stack.length + 1) d = stack.length + 1 + Expr.needAll args) :
    Makes returns ((Expr.call node m args span).code a className id n) n stack
      ((ValueKind.of? gives).toList ++ stack) (stack.length + (1 + Expr.needAll args)) := by
  obtain ⟨code, n', made, runs⟩ := es
  obtain ⟨named, values⟩ := callable m _ found
  obtain ⟨descriptor, described, reads⟩ := CallShape.readMethod values named
  obtain ⟨s, declared, same⟩ := Option.map_eq_some_iff.mp found
  cases same
  have load : (Instruction.load .reference 0).kinds returns stack = some (.reference :: stack) := rfl
  have result : (ValueKind.of? s.returns).isSome = (s.returns != .void) := by
    cases s.returns <;> rfl
  have called : (Instruction.invokeVirtual s!"{className}.{m}{descriptor}" args.length
      (s.returns != .void)).kinds returns
        ((s.params.filterMap ValueKind.of?).reverse ++ .reference :: stack) =
          some ((ValueKind.of? s.returns).toList ++ stack) :=
    Instruction.callRead (reads _) (by rw [ValueKind.filterLength values, count]) result stack
  refine ⟨_, n', ?_, (((Runs.plain n rfl load).append runs).append (.plain n' rfl called)).resize ?_⟩
  · simp only [Expr.code, declared, made, described, okBind]
    rfl
  · have few : (ValueKind.of? s.returns).toList.length ≤ 1 := by
      cases s.returns <;> simp [ValueKind.of?]
    have many := Expr.needAllLength args
    simp only [List.length_append, List.length_reverse, List.length_cons,
      ValueKind.filterLength values]
    omega

theorem Expr.codeBinary {node : NodeId} {op : BinaryOp} {left right : Expr NodeId} {type : DataType}
    {kind : ValueKind} {self : ValueKind} {n : Nat} (admitted : op.admits type = true)
    (known : ValueKind.of? type = some kind) (recorded : a.typeOf? node = some type)
    (l : ∀ m stack, Makes returns (left.code a className id m) m stack (kind :: stack)
      (stack.length + left.need))
    (r : ∀ m stack, Makes returns (right.code a className id m) m stack (kind :: stack)
      (stack.length + right.need)) :
    Makes returns ((Expr.binary node op left right).code a className id n) n stack
      ((self.carrier (op.yields type)).toList ++ stack)
      (stack.length + (Expr.binary node op left right).need) := by
  have value := BinaryOp.admitsValue admitted
  have group := op.actionGroup
  have some' := left.needPositive
  have more := right.needPositive
  cases action : op.action with
  | arith o =>
    rw [action] at group
    have numeric : type.isNumeric = true := by simpa [BinaryOp.admits, group] using admitted
    have result : self.carrier (op.yields type) = some kind := by
      rw [BinaryOp.yields, group, ValueKind.carrierValue self value, known]
    rw [result]
    refine (Expr.codeArith action numeric known recorded (l n stack)
      (fun m => r m (kind :: stack)) ?_).resize ?_
    · simp only [List.length_cons]
      omega
    · simp only [Expr.need, group, List.length_cons]
      simp
      omega
  | compare holds =>
    rw [action] at group
    have result : self.carrier (op.yields type) = some .int := by
      rw [BinaryOp.yields, group]
      rfl
    rw [result]
    refine (Expr.codeCompare action value known recorded (l n stack)
      (fun m => r m (kind :: stack)) ?_).resize ?_
    · simp only [List.length_cons]
      omega
    · simp only [Expr.need, group, List.length_cons]
      simp
      omega
  | logical isAnd =>
    rw [action] at group
    have truth : type = .bool := by simpa [BinaryOp.admits, group] using admitted
    subst truth
    cases known
    have result : self.carrier (op.yields .bool) = some .int := by
      rw [BinaryOp.yields, group]
      rfl
    rw [result]
    refine (Expr.codeLogical action (l (n + 2) stack) (fun m => r m stack) (by omega)).resize ?_
    simp only [Expr.need, group, if_true]
    omega

mutual

theorem Expr.codeMakes (callable : a.Callable) {vars : String → Option DataType} {self : ValueKind}
    (holds : a.Holds id vars self) : ∀ (e : Expr NodeId) {type : DataType},
      e.HasType a.methods.uses vars type →
      e.Recorded a.typeOf? (Expr.HasType a.methods.uses vars) → ∀ n stack,
        Makes returns (e.code a className id n) n stack ((self.carrier type).toList ++ stack)
          (stack.length + e.need)
  | .literal node value span, _, typed, _, n, stack => by
    cases typed
    obtain ⟨kind, known, runs⟩ := value.codeRuns returns n stack
    have solid : value.dataType.isValue = true := by cases value <;> rfl
    rw [ValueKind.carrierValue self solid, known]
    exact ⟨_, n, rfl, runs⟩
  | .var node x span, type, typed, _, n, stack => by
    cases typed with
    | var known =>
      obtain ⟨kind, slot, home, carried⟩ := holds.slot known "load"
      have made : (Instruction.load kind slot).kinds returns stack = some (kind :: stack) := rfl
      rw [carried]
      refine ⟨_, n, ?_, (Runs.plain n rfl made).resize ?_⟩
      · simp only [Expr.code, home, okBind]
        rfl
      · simp only [List.length_cons, Expr.need]
        omega
  | .binary node op left right, _, typed, recorded, n, stack => by
    cases typed with
    | @binary _ _ _ _ type first second admitted =>
      have value := BinaryOp.admitsValue admitted
      obtain ⟨kind, known⟩ := ValueKind.ofValue value
      have carried : self.carrier type = some kind :=
        (ValueKind.carrierValue self value).trans known
      have l := left.codeMakes callable holds first recorded.2.1
      have r := right.codeMakes callable holds second recorded.2.2
      rw [carried] at l r
      exact Expr.codeBinary admitted known (recorded.1 type first) l r
  | .not node operand span, _, typed, recorded, n, stack => by
    cases typed with
    | not condition =>
      have positive := operand.needPositive
      have o := operand.codeMakes callable holds condition recorded n stack
      have room : stack.length + 1 ≤ stack.length + operand.need := by omega
      exact Expr.codeNot o room
  | .assign node target value, type, typed, recorded, n, stack => by
    cases typed with
    | @assign _ m x span _ _ known assigned =>
      obtain ⟨kind, slot, home, carried⟩ := holds.slot known "store"
      have v := value.codeMakes callable holds assigned recorded n stack
      have positive := value.needPositive
      rw [carried] at v ⊢
      refine Makes.resize (Analysis.assignMakes node true rfl home v (by omega)) ?_
      simp only [if_true, Expr.need]
      omega
  | .call node m args span, gives, typed, recorded, n, stack => by
    cases typed with
    | call found given =>
      obtain ⟨named, values⟩ := callable m _ found
      obtain ⟨d, es, need⟩ := Expr.codeAllMakes callable holds args given recorded values n
        (.reference :: stack)
      have plain : self.carrier gives = ValueKind.of? gives := if_neg named
      rw [plain]
      exact Expr.codeCall callable found (Expr.haveTypesLength given) es need
  | .writeLine node value span, _, typed, recorded, n, stack => by
    cases typed with
    | @writeLine _ _ _ type printed printable =>
      obtain ⟨kind, known⟩ := ValueKind.ofValue printable
      have v := value.codeMakes callable holds printed recorded.2 n (.reference :: stack)
      have positive := value.needPositive
      rw [ValueKind.carrierValue self printable, known] at v
      refine (Expr.codeWriteLine printable known (recorded.1 type printed) v ?_).resize ?_
      · simp only [List.length_cons]
        omega
      · simp only [List.length_cons, Expr.need]
        omega
  | .read node input span, _, typed, _, n, stack => by
    cases typed
    obtain ⟨kind, known, runs⟩ := readRuns returns input n stack
    have value : (Intrinsic.read input).resultType.isValue = true := by cases input <;> rfl
    rw [ValueKind.carrierValue self value, known]
    exact ⟨_, n, rfl, runs⟩
  | .random node span, _, typed, _, n, stack => by
    cases typed
    exact Expr.codeRandom n
  | .randomBelow node bound span, _, typed, recorded, n, stack => by
    cases typed with
    | randomBelow limit =>
      have b := bound.codeMakes callable holds limit recorded n (.reference :: stack)
      have positive := bound.needPositive
      refine (Expr.codeRandomBelow b ?_).resize ?_
      · simp only [List.length_cons]
        omega
      · simp only [List.length_cons, Expr.need]
        omega

theorem Expr.codeAllMakes (callable : a.Callable) {vars : String → Option DataType}
    {self : ValueKind} (holds : a.Holds id vars self) : ∀ (es : List (Expr NodeId))
      {types : List DataType}, Expr.HaveTypes a.methods.uses vars es types →
      Expr.RecordedAll a.typeOf? (Expr.HasType a.methods.uses vars) es →
      (∀ type ∈ types, type.isValue = true) → ∀ n stack,
        ∃ d, Makes returns (Expr.codeAll a className id es n) n stack
            ((types.filterMap ValueKind.of?).reverse ++ stack) d ∧
          max stack.length d = stack.length + Expr.needAll es
  | [], _, typed, _, _, n, stack => by
    cases typed
    exact ⟨0, ⟨[], n, rfl, .nil n⟩, by simp [Expr.needAll]⟩
  | e :: rest, _, typed, recorded, values, n, stack => by
    cases typed with
    | @cons _ _ type types first others =>
      have value := values type (List.mem_cons_self ..)
      obtain ⟨kind, known⟩ := ValueKind.ofValue value
      have here := e.codeMakes callable holds first recorded.1 n stack
      rw [ValueKind.carrierValue self value, known] at here
      obtain ⟨code, m, made, runs⟩ := here
      obtain ⟨d, ⟨codes, n', madeRest, runRest⟩, need⟩ := Expr.codeAllMakes callable holds rest others
        recorded.2 (fun other member => values other (List.mem_cons_of_mem _ member)) m (kind :: stack)
      refine ⟨max (stack.length + e.need) d, ⟨code ++ codes, n', ?_, ?_⟩, ?_⟩
      · simp only [Expr.codeAll, made, madeRest, okBind]
        rfl
      · rw [List.filterMap_cons, known, List.reverse_cons, List.append_assoc]
        exact runs.append runRest
      · have positive := e.needPositive
        simp only [List.length_cons] at need
        simp only [Expr.needAll]
        omega

end

/-- An expression that the analysis fits leaves a value of the kind of its type; only the object may
be hidden from the code. -/
theorem Expr.Fits.makes (returns : Option ValueKind) (className : String) (callable : a.Callable)
    {e : Expr NodeId} {type : DataType} (fits : e.Fits a id type) : ∃ self : ValueKind, ∀ n stack,
      Makes returns (e.code a className id n) n stack ((self.carrier type).toList ++ stack)
        (stack.length + e.need) := by
  obtain ⟨vars, self, typed, recorded, holds⟩ := fits
  exact ⟨self, e.codeMakes callable holds typed recorded⟩

theorem Expr.Fits.plain (returns : Option ValueKind) (className : String) (callable : a.Callable)
    {e : Expr NodeId} {type : DataType} (fits : e.Fits a id type) (named : type ≠ .self) (n : Nat) :
    Makes returns (e.code a className id n) n [] (ValueKind.of? type).toList e.need := by
  obtain ⟨self, makes⟩ := fits.makes returns className callable
  have here := makes n []
  rw [ValueKind.carrier, if_neg named, List.append_nil, List.length_nil, Nat.zero_add] at here
  exact here

theorem Declarator.Fits.makes (callable : a.Callable) {d : Declarator NodeId} (fits : d.Fits a id)
    (n : Nat) : Makes returns (d.code a className id n) n [] [] d.need := by
  cases fits with
  | bare missing =>
    refine ⟨[], n, by simp [Declarator.code, missing], (Runs.nil n).resize ?_⟩
    simp [Declarator.need, missing]
  | @initial e type v given fits value slot known =>
    obtain ⟨kind, kinds⟩ := ValueKind.ofValue value
    have here := fits.plain returns className callable (DataType.isValueIff.mp value).2 n
    rw [kinds, Option.toList_some] at here
    obtain ⟨code, m, made, runs⟩ := here
    have stored : (Instruction.store kind v.slot).kinds returns [kind] = some [] := by
      simp [Instruction.kinds, takeKinds]
    refine ⟨code ++ [.store kind v.slot], m, ?_, (runs.append (.plain m rfl stored)).resize ?_⟩
    · simp only [Declarator.code, given, made, Analysis.localSlot, slot, known, kinds, okBind]
      rfl
    · have positive := e.needPositive
      simp only [Declarator.need, given, List.length_cons, List.length_nil, Option.map_some,
        Option.getD_some]
      omega

theorem Declarator.allMake (callable : a.Callable) {ds : List (Declarator NodeId)}
    (fits : ∀ d ∈ ds, d.Fits a id) (n : Nat) :
    Makes returns (Declarator.codeAll a className id ds n) n [] [] (Declarator.needAll ds) := by
  induction ds generalizing n with
  | nil => exact ⟨[], n, rfl, .nil n⟩
  | cons d rest ih =>
    have here : Makes returns (d.code a className id n) n [] [] d.need :=
      Declarator.Fits.makes callable (fits d (List.mem_cons_self ..)) n
    obtain ⟨code, m, made, runs⟩ := here
    obtain ⟨codes, n', madeRest, runRest⟩ :=
      ih (fun other member => fits other (List.mem_cons_of_mem _ member)) m
    refine ⟨code ++ codes, n', ?_, runs.append runRest⟩
    simp only [Declarator.codeAll, made, madeRest, okBind]
    rfl

theorem Expr.codeDroppedPlain {e : Expr NodeId}
    (plain : ∀ m target value, e ≠ .assign m target value) (node : NodeId) (n : Nat) :
    e.codeDropped a className id node n = (do
      let r ← e.code a className id n
      match a.typeOf? node with
      | none | some .void => pure r
      | some _ => pure (r.1 ++ [.pop], r.2)) := by
  cases e with
  | assign m target value => exact absurd rfl (plain m target value)
  | _ => rfl

theorem Expr.Fits.drops (callable : a.Callable) {node : NodeId} {e : Expr NodeId} {type : DataType}
    (fits : e.Fits a id type)
    (recorded : (∃ m target value, e = .assign m target value) ∨ a.typeOf? node = some type)
    (n : Nat) : Makes returns (e.codeDropped a className id node n) n [] [] e.needDropped := by
  by_cases assigns : ∃ m target value, e = .assign m target value
  · obtain ⟨m, target, value, rfl⟩ := assigns
    obtain ⟨vars, self, typed, noted, holds⟩ := fits
    cases typed with
    | @assign _ k x span _ _ known assigned =>
      obtain ⟨kind, slot, home, carried⟩ := holds.slot known "store"
      have v : Makes returns (value.code a className id n) n [] ((self.carrier type).toList ++ [])
          ([].length + value.need) := value.codeMakes callable holds assigned noted n []
      have positive := value.needPositive
      rw [carried, List.length_nil, Nat.zero_add] at v
      have target : (Expr.var k x span).asName = some x := rfl
      exact Analysis.assignMakes m false target home v (by simpa using positive)
  · have plain : ∀ m target value, e ≠ .assign m target value :=
      fun m target value same => assigns ⟨m, target, value, same⟩
    have need : e.needDropped = e.need := by
      cases e with
      | assign m target value => exact absurd rfl (plain m target value)
      | _ => rfl
    have typed := recorded.resolve_left assigns
    obtain ⟨self, makes⟩ := fits.makes returns className callable
    obtain ⟨code, m, made, runs⟩ := makes n []
    have positive := e.needPositive
    rw [need, Expr.codeDroppedPlain plain, made, typed]
    rw [List.length_nil, Nat.zero_add] at runs
    by_cases void : type = .void
    · subst void
      exact ⟨code, m, rfl, runs⟩
    · obtain ⟨kind, carried⟩ : ∃ kind, self.carrier type = some kind := by
        cases type with
        | void => contradiction
        | _ => exact ⟨_, rfl⟩
      rw [carried, Option.toList_some, List.append_nil] at runs
      have popped : Instruction.pop.kinds returns [kind] = some [] := rfl
      refine ⟨code ++ [.pop], m, ?_, (runs.append (.plain m rfl popped)).resize ?_⟩
      · cases type <;> first | rfl | contradiction
      · simp only [List.length_cons, List.length_nil]
        omega

theorem Stmt.Fits.returnMakes (callable : a.Callable) {type : DataType} (named : type ≠ .self)
    {node : NodeId} {e : Expr NodeId} {span : Span} (fits : e.Fits a id type)
    (recorded : a.typeOf? node = some type) (n : Nat) :
    Makes (ValueKind.of? type) ((Stmt.ret node (some e) span).code a className id n) n [] [] e.need := by
  obtain ⟨code, m, made, runs⟩ := fits.plain (ValueKind.of? type) className callable named n
  refine ⟨code ++ [.ret (ValueKind.of? type)], m, ?_, (runs.append (.ret m)).resize ?_⟩
  · simp only [Stmt.code, made, Analysis.typeOfOk.mpr recorded, okBind]
    rfl
  · have positive := e.needPositive
    have few : (ValueKind.of? type).toList.length ≤ 1 := by cases type <;> simp [ValueKind.of?]
    omega

mutual

theorem Stmt.codeMakes (callable : a.Callable) {type : DataType} (named : type ≠ .self) :
    ∀ (s : Stmt NodeId) {id : Nat}, Stmt.Fits a type id s → ∀ n,
      Makes (ValueKind.of? type) (s.code a className id n) n [] [] s.need
  | .expr node e span, id, fits, n => by
    cases fits with
    | expr fits recorded => exact Expr.Fits.drops callable fits recorded n
  | .declare node declared vars span, id, fits, n => by
    cases fits with
    | declare fits => exact Declarator.allMake callable fits n
  | .ret node (some e) span, id, fits, n => by
    cases fits with
    | ret fits recorded => exact Stmt.Fits.returnMakes callable named fits recorded n
  | .ret node none span, id, fits, n => by
    cases fits with
    | leave nothing recorded =>
      subst nothing
      refine ⟨[.ret none], n, ?_, .ret n⟩
      simp only [Stmt.code, Analysis.typeOfOk.mpr recorded, okBind]
      rfl
  | .block node body span, id, fits, n => by
    cases fits with
    | block scope fits =>
      obtain ⟨code, n', made, runs⟩ := Stmt.codeAllMakes callable named body fits n
      refine ⟨code, n', ?_, runs⟩
      simp only [Stmt.code, Analysis.scopeOfOk.mpr scope, made, okBind]
  | .ifThen node cond yes span, id, fits, n => by
    cases fits with
    | ifThen scope condition fits =>
      obtain ⟨c, m, madeCond, runCond⟩ := condition.plain _ className callable (by simp) n
      obtain ⟨y, n', madeYes, runYes⟩ := yes.codeMakes callable named fits (m + 1)
      refine ⟨_, n', ?_, Runs.conditional runCond runYes cond.needPositive⟩
      simp only [Stmt.code, Analysis.scopeOfOk.mpr scope, madeCond, madeYes, okBind]
      rfl
  | .ifElse node cond yes elseNode no span, id, fits, n => by
    cases fits with
    | ifElse scope condition fits beside otherwise =>
      obtain ⟨c, m, madeCond, runCond⟩ := condition.plain _ className callable (by simp) n
      obtain ⟨y, k, madeYes, runYes⟩ := yes.codeMakes callable named fits (m + 1)
      obtain ⟨e, n', madeNo, runNo⟩ := no.codeMakes callable named otherwise (k + 1)
      refine ⟨_, n', ?_, Runs.choice runCond runYes runNo cond.needPositive⟩
      simp only [Stmt.code, Analysis.scopeOfOk.mpr scope, Analysis.scopeOfOk.mpr beside, madeCond,
        madeYes, madeNo, okBind]
      rfl
  | .loop node cond body span, id, fits, n => by
    cases fits with
    | loop scope condition fits =>
      obtain ⟨c, m, madeCond, runCond⟩ := condition.plain _ className callable (by simp) (n + 2)
      obtain ⟨b, n', madeBody, runBody⟩ := body.codeMakes callable named fits m
      refine ⟨_, n', ?_, Runs.loop runCond runBody cond.needPositive⟩
      simp only [Stmt.code, Analysis.scopeOfOk.mpr scope, madeCond, madeBody, okBind]
      rfl

theorem Stmt.codeAllMakes (callable : a.Callable) {type : DataType} (named : type ≠ .self) :
    ∀ (ss : List (Stmt NodeId)) {id : Nat}, Stmt.FitAll a type id ss → ∀ n,
      Makes (ValueKind.of? type) (Stmt.codeAll a className ss id n) n [] [] (Stmt.needAll ss)
  | [], id, _, n => ⟨[], n, rfl, .nil n⟩
  | s :: rest, id, fits, n => by
    cases fits with
    | cons first others =>
      obtain ⟨code, m, made, runs⟩ := s.codeMakes callable named first n
      obtain ⟨codes, n', madeRest, runRest⟩ := Stmt.codeAllMakes callable named rest others m
      refine ⟨code ++ codes, n', ?_, runs.append runRest⟩
      simp only [Stmt.codeAll, made, madeRest, okBind]
      rfl

end
end
end ClassCompiler
