import ClassCompiler.Analysis
import ClassCompiler.ClassFile
import ClassCompiler.Descriptor

/-!
The code of a program. Types, slots and limits are read off a finished analysis; only the
instructions are chosen here. Every piece of code is given the number of labels used before it and
returns how many are used after it, so no label is placed twice in a class.

On a tree that its analysis does not fit, the first thing missing is the fault.
-/
namespace ClassCompiler

inductive OpAction where
  | logical (isAnd : Bool)
  | compare (holds : Condition)
  | arith (op : ArithOp)
  deriving DecidableEq, Repr

def BinaryOp.action : BinaryOp → OpAction
  | or => .logical false
  | and => .logical true
  | equal => .compare .eq
  | notEqual => .compare .ne
  | less => .compare .lt
  | lessEqual => .compare .le
  | greater => .compare .gt
  | greaterEqual => .compare .ge
  | add => .arith .add
  | sub => .arith .sub
  | mul => .arith .mul
  | div => .arith .div
  | mod => .arith .rem

def Analysis.localSlot (a : Analysis) (id : Nat) (name purpose : String) :
    Except Fault (ValueKind × Nat) :=
  match a.scopes.lookup id name with
  | some (.var v) =>
    match v.type with
    | some type =>
      match ValueKind.of? type with
      | some kind => .ok (kind, v.slot)
      | none => .error (.noInstruction type purpose)
    | none => .error (.missingType v.declaredAt)
  | some (.method _) => .error (.notAVariable name)
  | none => .error (.unresolvedSymbol name)

def Literal.code : Literal → Instruction
  | int value => .pushInt value
  | float value => .ldc (.float value)
  | bool value => .pushBool value
  | char value => .pushInt value.toNat
  | string value => .ldc (.string value)

def arithKind (type : DataType) : Except Fault ValueKind :=
  match ValueKind.of? type with
  | some .int => .ok .int
  | some .float => .ok .float
  | _ => .error (.noInstruction type "arithmetic")

def compareCode (cond : Condition) (taken : Label) : DataType → Except Fault (List Instruction)
  | .float => .ok [.fcmpl, .branch cond taken]
  | .int | .bool | .char => .ok [.branchInt cond taken]
  | .string | .self => .ok [.branchRef cond taken]
  | .void => .error (.noInstruction .void "comparison")

def printCode (type : DataType) : Except Fault (List Instruction) :=
  if type.isValue then do
    let d ← type.descriptor
    pure [.invokeVirtual s!"java/io/PrintStream/println({d})V" 1 false]
  else .error (.noInstruction type "print")

def Input.reader : Input → String
  | int => "nextInt()I"
  | float => "nextFloat()F"
  | bool => "nextBoolean()Z"
  | line => "nextLine()Ljava/lang/String;"

def readCode (input : Input) : List Instruction :=
  [.new "java/util/Scanner", .dup, .getStatic "java/lang/System.in Ljava/io/InputStream;",
    .invokeSpecial "java/util/Scanner.<init>(Ljava/io/InputStream;)V" 1,
    .invokeVirtual s!"java/util/Scanner.{input.reader}" 0 true]

def randomCode : List Instruction :=
  [.new "java/util/Random", .dup, .invokeSpecial "java/util/Random.<init>()V" 0]

/-- An assignment, given the code of its value; with `keep` a copy of the value stays. -/
def Analysis.assignCode (a : Analysis) (id : Nat) (node : NodeId) (keep : Bool)
    (target : Expr NodeId) (value : Nat → Except Fault (List Instruction × Nat)) (labels : Nat) :
    Except Fault (List Instruction × Nat) :=
  match target.asName with
  | some x => do
    let v ← value labels
    let s ← a.localSlot id x "store"
    pure (v.1 ++ (if keep then [.dup] else []) ++ [.store s.1 s.2], v.2)
  | none => do
    let type ← a.typeOf node
    .error (.noInstruction type "assignment target")

mutual

/-- Code that leaves the value on the stack, and the labels used after it. -/
def Expr.code (a : Analysis) (className : String) (id : Nat) :
    Expr NodeId → Nat → Except Fault (List Instruction × Nat)
  | .literal _ value _, n => .ok ([value.code], n)
  | .var _ x _, n => do
    let s ← a.localSlot id x "load"
    pure ([.load s.1 s.2], n)
  | .binary node op left right, n =>
    match op.action with
    | .arith op => do
      let l ← left.code a className id n
      let r ← right.code a className id l.2
      let kind ← arithKind (← a.typeOf node)
      pure (l.1 ++ r.1 ++ [.arith kind op], r.2)
    | .compare holds => do
      let l ← left.code a className id n
      let r ← right.code a className id l.2
      let test ← compareCode holds.negate ⟨r.2⟩ (← a.typeOf node)
      pure (l.1 ++ r.1 ++ test ++ Instruction.selectBool true ⟨r.2⟩ ⟨r.2 + 1⟩, r.2 + 2)
    | .logical isAnd => do
      -- The first operand that decides jumps past the other.
      let test : Instruction := .branch (if isAnd then .eq else .ne) ⟨n⟩
      let l ← left.code a className id (n + 2)
      let r ← right.code a className id l.2
      pure (l.1 ++ [test] ++ r.1 ++ [test] ++ Instruction.selectBool isAnd ⟨n⟩ ⟨n + 1⟩, r.2)
  | .not _ operand _, n => do
    let e ← operand.code a className id n
    pure (e.1 ++ [.branch .ne ⟨e.2⟩] ++ Instruction.selectBool true ⟨e.2⟩ ⟨e.2 + 1⟩, e.2 + 2)
  | .assign node target value, n =>
    a.assignCode id node true target (fun n => value.code a className id n) n
  | .call _ m args _, n =>
    match a.methods.find? m with
    | some s => do
      let es ← Expr.codeAll a className id args n
      let d ← methodDescriptor s.params s.returns
      pure ([.load .reference 0] ++ es.1 ++
        [.invokeVirtual s!"{className}.{m}{d}" args.length (s.returns != .void)], es.2)
    | none => .error (.unknownMethod m)
  | .writeLine node value _, n => do
    let v ← value.code a className id n
    let print ← printCode (← a.typeOf node)
    pure ([.getStatic "java/lang/System/out Ljava/io/PrintStream;"] ++ v.1 ++ print, v.2)
  | .read _ input _, n => .ok (readCode input, n)
  | .random _ _, n =>
    .ok (randomCode ++ [.invokeVirtual "java/util/Random.nextInt()I" 0 true], n)
  | .randomBelow _ bound _, n => do
    let b ← bound.code a className id n
    pure (randomCode ++ b.1 ++ [.invokeVirtual "java/util/Random.nextInt(I)I" 1 true], b.2)

def Expr.codeAll (a : Analysis) (className : String) (id : Nat) :
    List (Expr NodeId) → Nat → Except Fault (List Instruction × Nat)
  | [], n => .ok ([], n)
  | e :: rest, n => do
    let e ← e.code a className id n
    let es ← Expr.codeAll a className id rest e.2
    pure (e.1 ++ es.1, es.2)

end

def Expr.codeDropped (a : Analysis) (className : String) (id : Nat) (node : NodeId)
    (e : Expr NodeId) (n : Nat) : Except Fault (List Instruction × Nat) :=
  match e with
  | .assign node target value =>
    a.assignCode id node false target (fun n => value.code a className id n) n
  | e => do
    let r ← e.code a className id n
    match a.typeOf? node with
    | none | some .void => pure r
    | some _ => pure (r.1 ++ [.pop], r.2)

def Declarator.code (a : Analysis) (className : String) (id : Nat) (d : Declarator NodeId)
    (n : Nat) : Except Fault (List Instruction × Nat) :=
  match d.init with
  | some e => do
    let v ← e.code a className id n
    let s ← a.localSlot id d.name "store"
    pure (v.1 ++ [.store s.1 s.2], v.2)
  | none => .ok ([], n)

def Declarator.codeAll (a : Analysis) (className : String) (id : Nat) :
    List (Declarator NodeId) → Nat → Except Fault (List Instruction × Nat)
  | [], n => .ok ([], n)
  | d :: rest, n => do
    let d ← d.code a className id n
    let ds ← Declarator.codeAll a className id rest d.2
    pure (d.1 ++ ds.1, ds.2)

mutual

def Stmt.code (a : Analysis) (className : String) :
    Stmt NodeId → Nat → Nat → Except Fault (List Instruction × Nat)
  | .expr node e _, id, n => e.codeDropped a className id node n
  | .declare _ _ vars _, id, n => Declarator.codeAll a className id vars n
  | .ret node (some e) _, id, n => do
    let v ← e.code a className id n
    let type ← a.typeOf node
    pure (v.1 ++ [.ret (ValueKind.of? type)], v.2)
  | .ret node none _, _, n => do
    let type ← a.typeOf node
    pure ([.ret (ValueKind.of? type)], n)
  | .block node body _, _, n => do
    let inner ← a.scopeOf node
    Stmt.codeAll a className body inner n
  | .ifThen node cond yes _, _, n => do
    let inner ← a.scopeOf node
    let c ← cond.code a className inner n
    let y ← yes.code a className inner (c.2 + 1)
    pure (c.1 ++ [.branch .eq ⟨c.2⟩] ++ y.1 ++ [.label ⟨c.2⟩], y.2)
  | .ifElse node cond yes elseNode no _, _, n => do
    let inner ← a.scopeOf node
    let c ← cond.code a className inner n
    let y ← yes.code a className inner (c.2 + 1)
    let other ← a.scopeOf elseNode
    let e ← no.code a className other (y.2 + 1)
    pure (c.1 ++ [.branch .eq ⟨c.2⟩] ++ y.1 ++ [.goto ⟨y.2⟩, .label ⟨c.2⟩] ++ e.1 ++
      [.label ⟨y.2⟩], e.2)
  | .loop node cond body _, _, n => do
    let inner ← a.scopeOf node
    let c ← cond.code a className inner (n + 2)
    let b ← body.code a className inner c.2
    pure ([.label ⟨n⟩] ++ c.1 ++ [.branch .eq ⟨n + 1⟩] ++ b.1 ++ [.goto ⟨n⟩, .label ⟨n + 1⟩], b.2)

def Stmt.codeAll (a : Analysis) (className : String) :
    List (Stmt NodeId) → Nat → Nat → Except Fault (List Instruction × Nat)
  | [], _, n => .ok ([], n)
  | s :: rest, id, n => do
    let s ← s.code a className id n
    let ss ← Stmt.codeAll a className rest id s.2
    pure (s.1 ++ ss.1, ss.2)

end

def Method.compile (a : Analysis) (className : String) (m : Method NodeId) (n : Nat) :
    Except Fault (CompiledMethod × Nat) := do
  let id ← a.scopeOf m.tag
  let descriptor ← methodDescriptor m.paramTypes m.returnType
  let inner ← a.scopeOf m.body.tag
  let body ← Stmt.codeAll a className m.body.stmts inner n
  let last := if m.returnType = .void then [Instruction.ret none] else []
  pure (⟨.member, m.name, descriptor, (a.scopes.scope id).maxStack, a.scopes.maxLocals id,
    body.1 ++ last⟩, body.2)

def Method.compileAll (a : Analysis) (className : String) :
    List (Method NodeId) → Nat → Except Fault (List CompiledMethod × Nat)
  | [], n => .ok ([], n)
  | m :: rest, n => do
    let m ← m.compile a className n
    let ms ← Method.compileAll a className rest m.2
    pure (m.1 :: ms.1, ms.2)

def initMethod : CompiledMethod where
  access := .member
  name := "<init>"
  descriptor := "()V"
  maxStack := 1
  maxLocals := 1
  code := [.load .reference 0, .invokeSpecial "java/lang/Object/<init>()V" 0, .ret none]

def mainMethod (className : String) : CompiledMethod where
  access := .static
  name := "main"
  descriptor := "([Ljava/lang/String;)V"
  maxStack := 2
  maxLocals := 2
  code :=
    [.new className, .dup, .invokeSpecial s!"{className}.<init>()V" 0, .store .reference 1,
      .load .reference 1, .invokeVirtual s!"{className}.Main()V" 0 false, .ret none]

def Analysis.generate (a : Analysis) (options : Options) (p : Program NodeId) :
    Except Fault ClassFile := do
  let ms ← Method.compileAll a options.className p.methods 0
  pure ⟨options.className, options.version,
    initMethod :: mainMethod options.className :: ms.1⟩

end ClassCompiler
