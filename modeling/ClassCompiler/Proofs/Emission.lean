import ClassCompiler.Proofs.CleanProgram
import Mathlib.Data.List.Forall2

/-! Code generation as a relation, with one rule for each way in which a piece of code is made. What is
known of generated code follows by going over these rules. -/
namespace ClassCompiler

section
variable (a : Analysis) (className : String)

mutual

inductive Expr.Emits (id : Nat) : Expr NodeId → Nat → List Instruction → Nat → Prop where
  | literal {node value span n} : Emits id (.literal node value span) n [value.code] n
  | var {node x span n s} (home : a.localSlot id x "load" = .ok s) :
      Emits id (.var node x span) n [.load s.1 s.2] n
  | arith {node op left right o n m n' first second type kind} (action : op.action = .arith o)
      (one : Emits id left n first m) (other : Emits id right m second n')
      (typed : a.typeOf node = .ok type) (family : arithKind type = .ok kind) :
      Emits id (.binary node op left right) n (first ++ second ++ [.arith kind o]) n'
  | compare {node op left right holds n m n' first second type test}
      (action : op.action = .compare holds) (one : Emits id left n first m)
      (other : Emits id right m second n') (typed : a.typeOf node = .ok type)
      (tested : compareCode holds.negate ⟨n'⟩ type = .ok test) :
      Emits id (.binary node op left right) n
        (first ++ second ++ test ++ Instruction.selectBool true ⟨n'⟩ ⟨n' + 1⟩) (n' + 2)
  | logical {node op left right b n m n' first second} (action : op.action = .logical b)
      (one : Emits id left (n + 2) first m) (other : Emits id right m second n') :
      Emits id (.binary node op left right) n
        (first ++ [.branch (if b then .eq else .ne) ⟨n⟩] ++ second ++
          [.branch (if b then .eq else .ne) ⟨n⟩] ++ Instruction.selectBool b ⟨n⟩ ⟨n + 1⟩) n'
  | not {node operand span n n' code} (inner : Emits id operand n code n') :
      Emits id (.not node operand span) n
        (code ++ [.branch .ne ⟨n'⟩] ++ Instruction.selectBool true ⟨n'⟩ ⟨n' + 1⟩) (n' + 2)
  | assign {node m x span value n n' code s} (inner : Emits id value n code n')
      (home : a.localSlot id x "store" = .ok s) :
      Emits id (.assign node (.var m x span) value) n (code ++ [.dup] ++ [.store s.1 s.2]) n'
  | call {node m args span sig n n' code d} (found : a.methods.find? m = some sig)
      (given : Expr.EmitAll id args n code n')
      (described : methodDescriptor sig.params sig.returns = .ok d) :
      Emits id (.call node m args span) n ([.load .reference 0] ++ code ++
        [.invokeVirtual s!"{className}.{m}{d}" args.length (sig.returns != .void)]) n'
  | writeLine {node value span n n' code type print} (inner : Emits id value n code n')
      (typed : a.typeOf node = .ok type) (printed : printCode type = .ok print) :
      Emits id (.writeLine node value span) n
        ([.getStatic "java/lang/System/out Ljava/io/PrintStream;"] ++ code ++ print) n'
  | read {node input span n} : Emits id (.read node input span) n (readCode input) n
  | random {node span n} : Emits id (.random node span) n
      (randomCode ++ [.invokeVirtual "java/util/Random.nextInt()I" 0 true]) n
  | randomBelow {node bound span n n' code} (inner : Emits id bound n code n') :
      Emits id (.randomBelow node bound span) n
        (randomCode ++ code ++ [.invokeVirtual "java/util/Random.nextInt(I)I" 1 true]) n'

inductive Expr.EmitAll (id : Nat) : List (Expr NodeId) → Nat → List Instruction → Nat → Prop where
  | nil {n} : EmitAll id [] n [] n
  | cons {e rest n m n' first others} (one : Expr.Emits id e n first m)
      (more : EmitAll id rest m others n') : EmitAll id (e :: rest) n (first ++ others) n'

end

inductive Expr.EmitsDropped (id : Nat) (node : NodeId) :
    Expr NodeId → Nat → List Instruction → Nat → Prop where
  | assign {m k x span value n n' code s} (inner : Expr.Emits a className id value n code n')
      (home : a.localSlot id x "store" = .ok s) :
      EmitsDropped id node (.assign m (.var k x span) value) n (code ++ [.store s.1 s.2]) n'
  | silent {e n n' code} (plain : ∀ m target value, e ≠ .assign m target value)
      (inner : Expr.Emits a className id e n code n')
      (nothing : ∀ type, a.typeOf? node = some type → type = .void) :
      EmitsDropped id node e n code n'
  | popped {e n n' code type} (plain : ∀ m target value, e ≠ .assign m target value)
      (inner : Expr.Emits a className id e n code n') (left : a.typeOf? node = some type)
      (solid : type ≠ .void) : EmitsDropped id node e n (code ++ [.pop]) n'

inductive Declarator.EmitAll (id : Nat) :
    List (Declarator NodeId) → Nat → List Instruction → Nat → Prop where
  | nil {n} : EmitAll id [] n [] n
  | bare {d rest n n' others} (missing : d.init = none) (more : EmitAll id rest n others n') :
      EmitAll id (d :: rest) n others n'
  | initial {d e rest n m n' code s others} (given : d.init = some e)
      (inner : Expr.Emits a className id e n code m) (home : a.localSlot id d.name "store" = .ok s)
      (more : EmitAll id rest m others n') :
      EmitAll id (d :: rest) n (code ++ [.store s.1 s.2] ++ others) n'

mutual

inductive Stmt.Emits : Stmt NodeId → Nat → Nat → List Instruction → Nat → Prop where
  | expr {node e span id n code n'} (inner : Expr.EmitsDropped a className id node e n code n') :
      Emits (.expr node e span) id n code n'
  | declare {node type vars span id n code n'}
      (inner : Declarator.EmitAll a className id vars n code n') :
      Emits (.declare node type vars span) id n code n'
  | ret {node e span id n code n' type} (inner : Expr.Emits a className id e n code n')
      (typed : a.typeOf node = .ok type) :
      Emits (.ret node (some e) span) id n (code ++ [.ret (ValueKind.of? type)]) n'
  | leave {node span id n type} (typed : a.typeOf node = .ok type) :
      Emits (.ret node none span) id n [.ret (ValueKind.of? type)] n
  | block {node body span id inner n code n'} (scope : a.scopeOf node = .ok inner)
      (inside : Stmt.EmitAll body inner n code n') : Emits (.block node body span) id n code n'
  | ifThen {node cond yes span id inner n m n' test code} (scope : a.scopeOf node = .ok inner)
      (tested : Expr.Emits a className inner cond n test m)
      (inside : Emits yes inner (m + 1) code n') :
      Emits (.ifThen node cond yes span) id n (test ++ [.branch .eq ⟨m⟩] ++ code ++ [.label ⟨m⟩]) n'
  | ifElse {node cond yes elseNode no span id inner other n m k n' test code rest}
      (scope : a.scopeOf node = .ok inner) (tested : Expr.Emits a className inner cond n test m)
      (inside : Emits yes inner (m + 1) code k) (beside : a.scopeOf elseNode = .ok other)
      (otherwise : Emits no other (k + 1) rest n') :
      Emits (.ifElse node cond yes elseNode no span) id n
        (test ++ [.branch .eq ⟨m⟩] ++ code ++ [.goto ⟨k⟩, .label ⟨m⟩] ++ rest ++ [.label ⟨k⟩]) n'
  | loop {node cond body span id inner n m n' test code} (scope : a.scopeOf node = .ok inner)
      (tested : Expr.Emits a className inner cond (n + 2) test m)
      (inside : Emits body inner m code n') :
      Emits (.loop node cond body span) id n ([.label ⟨n⟩] ++ test ++ [.branch .eq ⟨n + 1⟩] ++ code ++
        [.goto ⟨n⟩, .label ⟨n + 1⟩]) n'

inductive Stmt.EmitAll : List (Stmt NodeId) → Nat → Nat → List Instruction → Nat → Prop where
  | nil {id n} : EmitAll [] id n [] n
  | cons {s rest id n m n' first others} (one : Stmt.Emits s id n first m)
      (more : EmitAll rest id m others n') : EmitAll (s :: rest) id n (first ++ others) n'

end

inductive Method.Emits (m : Method NodeId) (n : Nat) : CompiledMethod → Nat → Prop where
  | compile {id inner descriptor code n'} (scope : a.scopeOf m.tag = .ok id)
      (described : methodDescriptor m.paramTypes m.returnType = .ok descriptor)
      (within : a.scopeOf m.body.tag = .ok inner)
      (body : Stmt.EmitAll a className m.body.stmts inner n code n') :
      Emits m n ⟨.member, m.name, descriptor, (a.scopes.scope id).maxStack, a.scopes.maxLocals id,
        code ++ (if m.returnType = .void then [.ret none] else [])⟩ n'

end

def Instruction.isStraight : Instruction → Bool
  | .branch .. | .branchInt .. | .branchRef .. | .goto _ | .label _ => false
  | _ => true

-- What is true of code whatever its operands are is shown once for each form that the code can have.

@[elab_as_elim]
theorem Literal.codeCases {motive : Instruction → Prop} (value : Literal)
    (iconst : ∀ n, motive (.iconst n)) (bipush : ∀ n, motive (.bipush n))
    (sipush : ∀ n, motive (.sipush n)) (ldc : ∀ c, motive (.ldc c)) : motive value.code := by
  have number (n : Int) : motive (.pushInt n) := by
    unfold Instruction.pushInt
    split_ifs
    · exact iconst n
    · exact bipush n
    · exact sipush n
    · exact ldc _
  cases value with
  | int n => exact number n
  | char c => exact number c.toNat
  | bool b => exact iconst _
  | float bits => exact ldc _
  | string s => exact ldc _

@[elab_as_elim]
theorem compareCases {motive : List Instruction → Prop} {cond : Condition} {taken : Label}
    {type : DataType} {test : List Instruction} (made : compareCode cond taken type = .ok test)
    (floats : motive [.fcmpl, .branch cond taken]) (ints : motive [.branchInt cond taken])
    (refs : motive [.branchRef cond taken]) : motive test := by
  cases type <;> cases made <;> assumption

@[elab_as_elim]
theorem printCases {motive : List Instruction → Prop} {type : DataType} {code : List Instruction}
    (made : printCode type = .ok code) (call : ∀ target, motive [.invokeVirtual target 1 false]) :
    motive code := by
  cases type <;> cases made <;> exact call _

theorem Analysis.localSlotOf {a : Analysis} {id : Nat} {x purpose : String} {s : ValueKind × Nat}
    (found : a.localSlot id x purpose = .ok s) : ∃ v, a.scopes.lookup id x = some (.var v) ∧
      v.type.bind ValueKind.of? = some s.1 ∧ v.slot = s.2 := by
  unfold Analysis.localSlot at found
  split at found
  · rename_i v here
    refine ⟨v, here, ?_⟩
    split at found
    · rename_i type typed
      split at found
      · rename_i kind known
        cases found
        exact ⟨by simp [typed, known], rfl⟩
      · contradiction
    · contradiction
  · contradiction
  · contradiction

theorem Expr.asNameVar {τ : Type} {e : Expr τ} {x : String} (named : e.asName = some x) :
    ∃ m span, e = .var m x span := by
  cases e <;> cases named
  exact ⟨_, _, rfl⟩

section
variable {a : Analysis} {className : String}

theorem Analysis.assignMade {id : Nat} {node : NodeId} {keep : Bool} {target : Expr NodeId}
    {value : Nat → Except Fault (List Instruction × Nat)} {n : Nat} {made : List Instruction × Nat}
    (done : a.assignCode id node keep target value n = .ok made) :
    ∃ m x span v s, target = .var m x span ∧ value n = .ok v ∧
      a.localSlot id x "store" = .ok s ∧
      made = (v.1 ++ (if keep then [.dup] else []) ++ [.store s.1 s.2], v.2) := by
  unfold Analysis.assignCode at done
  split at done
  · rename_i x named
    obtain ⟨m, span, rfl⟩ := Expr.asNameVar named
    obtain ⟨v, valued, done⟩ := bindOk.mp done
    obtain ⟨s, home, done⟩ := bindOk.mp done
    cases done
    exact ⟨m, x, span, v, s, rfl, valued, home, rfl⟩
  · obtain ⟨_, _, done⟩ := bindOk.mp done
    cases done

mutual

theorem Expr.codeEmits (id : Nat) : ∀ (e : Expr NodeId) {n : Nat} {made : List Instruction × Nat},
    e.code a className id n = .ok made → e.Emits a className id n made.1 made.2
  | .literal .., _, _, done => by
    cases done
    exact .literal
  | .var .., _, _, done => by
    obtain ⟨s, home, done⟩ := bindOk.mp done
    cases done
    exact .var home
  | .binary _ op left right, n, _, done => by
    cases action : op.action with
    | arith o =>
      simp only [Expr.code, action] at done
      obtain ⟨l, first, done⟩ := bindOk.mp done
      obtain ⟨r, second, done⟩ := bindOk.mp done
      obtain ⟨type, typed, done⟩ := bindOk.mp done
      obtain ⟨kind, family, done⟩ := bindOk.mp done
      cases done
      exact .arith action (left.codeEmits id first) (right.codeEmits id second) typed family
    | compare holds =>
      simp only [Expr.code, action] at done
      obtain ⟨l, first, done⟩ := bindOk.mp done
      obtain ⟨r, second, done⟩ := bindOk.mp done
      obtain ⟨type, typed, done⟩ := bindOk.mp done
      obtain ⟨test, tested, done⟩ := bindOk.mp done
      cases done
      exact .compare action (left.codeEmits id first) (right.codeEmits id second) typed tested
    | logical b =>
      simp only [Expr.code, action] at done
      obtain ⟨l, first, done⟩ := bindOk.mp done
      obtain ⟨r, second, done⟩ := bindOk.mp done
      cases done
      exact .logical action (left.codeEmits id first) (right.codeEmits id second)
  | .not _ operand _, _, _, done => by
    obtain ⟨e, inner, done⟩ := bindOk.mp done
    cases done
    exact .not (operand.codeEmits id inner)
  | .assign _ _ value, _, _, done => by
    obtain ⟨m, x, span, v, s, rfl, valued, home, rfl⟩ := Analysis.assignMade done
    exact .assign (value.codeEmits id valued) home
  | .call _ m args _, _, _, done => by
    simp only [Expr.code] at done
    cases found : a.methods.find? m with
    | none => simp [found] at done
    | some s =>
      simp only [found] at done
      obtain ⟨es, given, done⟩ := bindOk.mp done
      obtain ⟨d, described, done⟩ := bindOk.mp done
      cases done
      exact .call found (Expr.codeAllEmits id args given) described
  | .writeLine _ value _, _, _, done => by
    obtain ⟨v, inner, done⟩ := bindOk.mp done
    obtain ⟨type, typed, done⟩ := bindOk.mp done
    obtain ⟨print, printed, done⟩ := bindOk.mp done
    cases done
    exact .writeLine (value.codeEmits id inner) typed printed
  | .read .., _, _, done => by
    cases done
    exact .read
  | .random .., _, _, done => by
    cases done
    exact .random
  | .randomBelow _ bound _, _, _, done => by
    obtain ⟨b, inner, done⟩ := bindOk.mp done
    cases done
    exact .randomBelow (bound.codeEmits id inner)
termination_by structural e => e

theorem Expr.codeAllEmits (id : Nat) : ∀ (es : List (Expr NodeId)) {n : Nat}
    {made : List Instruction × Nat}, Expr.codeAll a className id es n = .ok made →
      Expr.EmitAll a className id es n made.1 made.2
  | [], _, _, done => by
    cases done
    exact .nil
  | e :: rest, _, _, done => by
    obtain ⟨first, one, done⟩ := bindOk.mp done
    obtain ⟨others, more, done⟩ := bindOk.mp done
    cases done
    exact .cons (e.codeEmits id one) (Expr.codeAllEmits id rest more)
termination_by structural es => es

end

theorem Expr.codeDroppedEmits {id : Nat} {node : NodeId} {e : Expr NodeId} {n : Nat}
    {made : List Instruction × Nat} (done : e.codeDropped a className id node n = .ok made) :
    e.EmitsDropped a className id node n made.1 made.2 := by
  unfold Expr.codeDropped at done
  split at done
  · rename_i m target value
    obtain ⟨k, x, span, v, s, rfl, valued, home, rfl⟩ := Analysis.assignMade done
    have dropped : Expr.EmitsDropped a className id node (.assign m (.var k x span) value) n _ _ :=
      .assign (value.codeEmits id valued) home
    simpa using dropped
  · rename_i plain
    obtain ⟨r, here, done⟩ := bindOk.mp done
    have inner := Expr.codeEmits id _ here
    split at done <;> rename_i noted <;> cases done
    · exact .silent plain inner (by simp [noted])
    · exact .silent plain inner (by simp [noted])
    · rename_i solid
      exact .popped plain inner noted solid

theorem Declarator.codeAllEmits {id : Nat} {ds : List (Declarator NodeId)} {n : Nat}
    {made : List Instruction × Nat} (done : Declarator.codeAll a className id ds n = .ok made) :
    Declarator.EmitAll a className id ds n made.1 made.2 := by
  induction ds generalizing n made with
  | nil =>
    cases done
    exact .nil
  | cons d rest ih =>
    obtain ⟨first, here, done⟩ := bindOk.mp done
    obtain ⟨others, more, done⟩ := bindOk.mp done
    cases done
    unfold Declarator.code at here
    split at here
    · rename_i e given
      obtain ⟨v, valued, here⟩ := bindOk.mp here
      obtain ⟨s, home, here⟩ := bindOk.mp here
      cases here
      exact .initial given (e.codeEmits id valued) home (ih more)
    · rename_i missing
      cases here
      exact .bare missing (ih more)

mutual

theorem Stmt.codeEmits : ∀ (s : Stmt NodeId) {id n : Nat} {made : List Instruction × Nat},
    s.code a className id n = .ok made → s.Emits a className id n made.1 made.2
  | .expr .., _, _, _, done => .expr (Expr.codeDroppedEmits done)
  | .declare .., _, _, _, done => .declare (Declarator.codeAllEmits done)
  | .ret _ (some e) _, id, _, _, done => by
    obtain ⟨v, inner, done⟩ := bindOk.mp done
    obtain ⟨type, typed, done⟩ := bindOk.mp done
    cases done
    exact .ret (e.codeEmits id inner) typed
  | .ret _ none _, _, _, _, done => by
    obtain ⟨type, typed, done⟩ := bindOk.mp done
    cases done
    exact .leave typed
  | .block _ body _, _, _, _, done => by
    obtain ⟨inner, scope, done⟩ := bindOk.mp done
    exact .block scope (Stmt.codeAllEmits body done)
  | .ifThen _ cond yes _, _, _, _, done => by
    obtain ⟨inner, scope, done⟩ := bindOk.mp done
    obtain ⟨c, tested, done⟩ := bindOk.mp done
    obtain ⟨y, inside, done⟩ := bindOk.mp done
    cases done
    exact .ifThen scope (cond.codeEmits inner tested) (yes.codeEmits inside)
  | .ifElse _ cond yes _ no _, _, _, _, done => by
    obtain ⟨inner, scope, done⟩ := bindOk.mp done
    obtain ⟨c, tested, done⟩ := bindOk.mp done
    obtain ⟨y, inside, done⟩ := bindOk.mp done
    obtain ⟨other, beside, done⟩ := bindOk.mp done
    obtain ⟨e, otherwise, done⟩ := bindOk.mp done
    cases done
    exact .ifElse scope (cond.codeEmits inner tested) (yes.codeEmits inside) beside
      (no.codeEmits otherwise)
  | .loop _ cond body _, _, _, _, done => by
    obtain ⟨inner, scope, done⟩ := bindOk.mp done
    obtain ⟨c, tested, done⟩ := bindOk.mp done
    obtain ⟨b, inside, done⟩ := bindOk.mp done
    cases done
    exact .loop scope (cond.codeEmits inner tested) (body.codeEmits inside)
termination_by structural s => s

theorem Stmt.codeAllEmits : ∀ (ss : List (Stmt NodeId)) {id n : Nat}
    {made : List Instruction × Nat}, Stmt.codeAll a className ss id n = .ok made →
      Stmt.EmitAll a className ss id n made.1 made.2
  | [], _, _, _, done => by
    cases done
    exact .nil
  | s :: rest, _, _, _, done => by
    obtain ⟨first, one, done⟩ := bindOk.mp done
    obtain ⟨others, more, done⟩ := bindOk.mp done
    cases done
    exact .cons (s.codeEmits one) (Stmt.codeAllEmits rest more)
termination_by structural ss => ss

end

theorem Method.compileEmits {m : Method NodeId} {n : Nat} {made : CompiledMethod × Nat}
    (done : m.compile a className n = .ok made) : m.Emits a className n made.1 made.2 := by
  obtain ⟨id, scope, done⟩ := bindOk.mp done
  obtain ⟨descriptor, described, done⟩ := bindOk.mp done
  obtain ⟨inner, within, done⟩ := bindOk.mp done
  obtain ⟨body, inside, done⟩ := bindOk.mp done
  cases done
  exact .compile scope described within (Stmt.codeAllEmits m.body.stmts inside)

theorem Method.compileAllEmits {ms : List (Method NodeId)} {n : Nat}
    {made : List CompiledMethod × Nat} (done : Method.compileAll a className ms n = .ok made) :
    List.Forall₂ (fun m c => ∃ n n', m.Emits a className n c n') ms made.1 := by
  induction ms generalizing n made with
  | nil =>
    cases done
    exact .nil
  | cons m rest ih =>
    obtain ⟨first, here, done⟩ := bindOk.mp done
    obtain ⟨others, behind, done⟩ := bindOk.mp done
    cases done
    exact .cons ⟨n, first.2, Method.compileEmits here⟩ (ih behind)

mutual

theorem Expr.emitsCode (id : Nat) : ∀ (e : Expr NodeId) {n n' : Nat} {code : List Instruction},
    e.Emits a className id n code n' → e.code a className id n = .ok (code, n')
  | .literal .., _, _, _, .literal => rfl
  | .var .., _, _, _, .var home => bindOk.mpr ⟨_, home, rfl⟩
  | .binary _ _ left right, _, _, _, .arith action one other typed family => by
    simp only [Expr.code, action]
    exact bindOk.mpr ⟨_, left.emitsCode id one, bindOk.mpr ⟨_, right.emitsCode id other,
      bindOk.mpr ⟨_, typed, bindOk.mpr ⟨_, family, rfl⟩⟩⟩⟩
  | .binary _ _ left right, _, _, _, .compare action one other typed tested => by
    simp only [Expr.code, action]
    exact bindOk.mpr ⟨_, left.emitsCode id one, bindOk.mpr ⟨_, right.emitsCode id other,
      bindOk.mpr ⟨_, typed, bindOk.mpr ⟨_, tested, rfl⟩⟩⟩⟩
  | .binary _ _ left right, _, _, _, .logical action one other => by
    simp only [Expr.code, action]
    exact bindOk.mpr ⟨_, left.emitsCode id one, bindOk.mpr ⟨_, right.emitsCode id other, rfl⟩⟩
  | .not _ operand _, _, _, _, .not inner => bindOk.mpr ⟨_, operand.emitsCode id inner, rfl⟩
  | .assign _ _ value, _, _, _, .assign inner home =>
    bindOk.mpr ⟨_, value.emitsCode id inner, bindOk.mpr ⟨_, home, rfl⟩⟩
  | .call _ _ args _, _, _, _, .call found given described => by
    simp only [Expr.code, found]
    exact bindOk.mpr ⟨_, Expr.emitAllCode id args given, bindOk.mpr ⟨_, described, rfl⟩⟩
  | .writeLine _ value _, _, _, _, .writeLine inner typed printed =>
    bindOk.mpr ⟨_, value.emitsCode id inner, bindOk.mpr ⟨_, typed, bindOk.mpr ⟨_, printed, rfl⟩⟩⟩
  | .read .., _, _, _, .read => rfl
  | .random .., _, _, _, .random => rfl
  | .randomBelow _ bound _, _, _, _, .randomBelow inner =>
    bindOk.mpr ⟨_, bound.emitsCode id inner, rfl⟩
termination_by structural e => e

theorem Expr.emitAllCode (id : Nat) : ∀ (es : List (Expr NodeId)) {n n' : Nat}
    {code : List Instruction}, Expr.EmitAll a className id es n code n' →
      Expr.codeAll a className id es n = .ok (code, n')
  | [], _, _, _, .nil => rfl
  | e :: rest, _, _, _, .cons one more =>
    bindOk.mpr ⟨_, e.emitsCode id one, bindOk.mpr ⟨_, Expr.emitAllCode id rest more, rfl⟩⟩
termination_by structural es => es

end

end
end ClassCompiler
