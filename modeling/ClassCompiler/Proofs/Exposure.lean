import ClassCompiler.Proofs.ControlPaths
import ClassCompiler.Proofs.Emission
import ClassCompiler.Proofs.Origins

/-! Locals that a body can read before it gives them a value. A condition may turn out either way, so
that a branch, the body of a loop and the right operand of a logical operator may be left out. The ways
through a body found in this manner are the paths through its code. A local is a kind and a slot, which
the variables of blocks beside each other may share. -/
namespace ClassCompiler

def Analysis.isLocal (a : Analysis) (kind : ValueKind) (slot id : Nat) (x : String) : Bool :=
  match a.localSlot id x "load" with
  | .ok s => s == (kind, slot)
  | .error _ => false

def BinaryOp.isLogical (op : BinaryOp) : Bool :=
  match op.action with
  | .logical _ => true
  | _ => false

section
variable (a : Analysis) (kind : ValueKind) (slot : Nat)

mutual

/-- Some way through the expression gives the local no value. -/
def Expr.skips (id : Nat) : Expr NodeId → Bool
  | .literal .. | .var .. | .read .. | .random .. => true
  | .binary _ op left right => left.skips id && (op.isLogical || right.skips id)
  | .not _ operand _ => operand.skips id
  | .assign _ target value => value.skips id && !target.asName.any (a.isLocal kind slot id)
  | .call _ _ args _ => Expr.skipsAll id args
  | .writeLine _ value _ => value.skips id
  | .randomBelow _ bound _ => bound.skips id

def Expr.skipsAll (id : Nat) : List (Expr NodeId) → Bool
  | [] => true
  | e :: rest => e.skips id && Expr.skipsAll id rest

end

mutual

/-- Some way through the expression reads the local before it has given it a value. -/
def Expr.exposes (id : Nat) : Expr NodeId → Bool
  | .literal .. | .read .. | .random .. => false
  | .var _ x _ => a.isLocal kind slot id x
  | .binary _ _ left right => left.exposes id || left.skips a kind slot id && right.exposes id
  | .not _ operand _ => operand.exposes id
  | .assign _ _ value => value.exposes id
  | .call _ _ args _ => Expr.exposesAll id args
  | .writeLine _ value _ => value.exposes id
  | .randomBelow _ bound _ => bound.exposes id

def Expr.exposesAll (id : Nat) : List (Expr NodeId) → Bool
  | [] => false
  | e :: rest => e.exposes id || e.skips a kind slot id && Expr.exposesAll id rest

end

def Declarator.skips (id : Nat) (d : Declarator NodeId) : Bool :=
  match d.init with
  | some e => e.skips a kind slot id && !a.isLocal kind slot id d.name
  | none => true

def Declarator.exposes (id : Nat) (d : Declarator NodeId) : Bool :=
  d.init.any (Expr.exposes a kind slot id)

def Declarator.exposesAll (id : Nat) : List (Declarator NodeId) → Bool
  | [] => false
  | d :: rest => d.exposes a kind slot id || d.skips a kind slot id && Declarator.exposesAll id rest

mutual

def Stmt.skips : Stmt NodeId → Nat → Bool
  | .expr _ e _, id => e.skips a kind slot id
  | .declare _ _ vars _, id => vars.all (Declarator.skips a kind slot id)
  | .ret .., _ => false
  | .block n body _, _ => Stmt.skipsAll body (a.scopeAt n)
  | .ifThen n cond _ _, _ | .loop n cond _ _, _ => cond.skips a kind slot (a.scopeAt n)
  | .ifElse n cond yes m no _, _ => cond.skips a kind slot (a.scopeAt n) &&
      (yes.skips (a.scopeAt n) || no.skips (a.scopeAt m))

def Stmt.skipsAll : List (Stmt NodeId) → Nat → Bool
  | [], _ => true
  | s :: rest, id => s.skips id && Stmt.skipsAll rest id

end

mutual

def Stmt.exposes : Stmt NodeId → Nat → Bool
  | .expr _ e _, id => e.exposes a kind slot id
  | .declare _ _ vars _, id => Declarator.exposesAll a kind slot id vars
  | .ret _ value _, id => value.any (Expr.exposes a kind slot id)
  | .block n body _, _ => Stmt.exposesAll body (a.scopeAt n)
  | .ifThen n cond body _, _ | .loop n cond body _, _ =>
    cond.exposes a kind slot (a.scopeAt n) ||
      cond.skips a kind slot (a.scopeAt n) && body.exposes (a.scopeAt n)
  | .ifElse n cond yes m no _, _ => cond.exposes a kind slot (a.scopeAt n) ||
      cond.skips a kind slot (a.scopeAt n) &&
        (yes.exposes (a.scopeAt n) || no.exposes (a.scopeAt m))

def Stmt.exposesAll : List (Stmt NodeId) → Nat → Bool
  | [], _ => false
  | s :: rest, id => s.exposes id || s.skips a kind slot id && Stmt.exposesAll rest id

end

def Method.exposes (m : Method NodeId) : Bool :=
  Stmt.exposesAll a kind slot m.body.stmts (a.scopeAt m.body.tag)

end

theorem Analysis.scopeAtOf {a : Analysis} {n : NodeId} {id : Nat} (found : a.scopeOf n = .ok id) :
    a.scopeAt n = id := a.scopeAtBound (Analysis.scopeOfOk.mp found)

theorem Analysis.localSlotPurpose {a : Analysis} {id : Nat} {x purpose : String} {s : ValueKind × Nat}
    (found : a.localSlot id x purpose = .ok s) (other : String) : a.localSlot id x other = .ok s := by
  unfold Analysis.localSlot at found ⊢
  split at found
  · split at found
    · split at found
      · exact found
      · contradiction
    · contradiction
  · contradiction
  · contradiction

section
variable {a : Analysis} {className : String} {kind : ValueKind} {slot id : Nat}

theorem Analysis.isLocalOf {x purpose : String} {s : ValueKind × Nat}
    (home : a.localSlot id x purpose = .ok s) : a.isLocal kind slot id x = (s == (kind, slot)) := by
  rw [Analysis.isLocal, Analysis.localSlotPurpose home "load"]

namespace Passage

theorem load {x : String} {s : ValueKind × Nat} (home : a.localSlot id x "load" = .ok s) :
    Passage kind slot [.load s.1 s.2] true (a.isLocal kind slot id x) := by
  have same : (Instruction.load s.1 s.2 == .load kind slot) = a.isLocal kind slot id x := by
    rw [Analysis.isLocalOf home, Bool.eq_iff_iff]
    simp [Prod.ext_iff]
  rw [← same]
  exact one rfl rfl

theorem store {x : String} {s : ValueKind × Nat} (home : a.localSlot id x "store" = .ok s) :
    Passage kind slot [.store s.1 s.2] (!a.isLocal kind slot id x) false := by
  have same : (Instruction.store s.1 s.2 != .store kind slot) = !a.isLocal kind slot id x := by
    rw [Analysis.isLocalOf home, Bool.eq_iff_iff]
    simp [Prod.ext_iff]
  rw [← same]
  exact one rfl rfl

theorem object (inner : 0 < slot) : Passage kind slot [.load .reference 0] true false := by
  have other : (Instruction.load .reference 0 == .load kind slot) = false := by
    simp only [beq_eq_false_iff_ne, ne_eq, Instruction.load.injEq]
    omega
  rw [← other]
  exact one rfl rfl

theorem test {i : Instruction} {taken : Label} (aims : i.jumpTarget? = some taken)
    (goes : i.isTerminal = false) (b : Bool) (done : Label) :
    Passage kind slot (i :: Instruction.selectBool b taken done) true false :=
  choose aims goes (calm rfl : Passage kind slot [.pushBool b] true false)
    (calm rfl : Passage kind slot [.pushBool !b] true false)

theorem logical {i : Instruction} {taken : Label} {front rest : List Instruction} {s e s' e' : Bool}
    (aims : i.jumpTarget? = some taken) (goes : i.isTerminal = false)
    (left : Passage kind slot front s e) (right : Passage kind slot rest s' e') (b : Bool)
    (done : Label) :
    Passage kind slot (front ++ i :: (rest ++ i :: Instruction.selectBool b taken done)) s
      (e || s && e') := by
  have second : Passage kind slot (rest ++ [i, .pushBool b, .goto done] ++
      .label taken :: [.pushBool !b, .label done]) s' e' := by
    simpa [Instruction.selectBool] using right.append (test aims goes b done)
  simpa [Instruction.selectBool] using left.append (skip aims goes second rfl)

end Passage

theorem comparePassage {cond : Condition} {taken : Label} {type : DataType} {test : List Instruction}
    (made : compareCode cond taken type = .ok test) (b : Bool) (done : Label) :
    Passage kind slot (test ++ Instruction.selectBool b taken done) true false := by
  refine compareCases made ?_ (.test rfl rfl b done) (.test rfl rfl b done)
  have compared : Passage kind slot [.fcmpl] true false := .calm rfl
  exact compared.append (.test rfl rfl b done)

mutual

theorem Expr.emitsPassage (inner : 0 < slot) : ∀ (e : Expr NodeId) {n n' : Nat} {code : List Instruction},
    e.Emits a className id n code n' → Passage kind slot code (e.skips a kind slot id)
      (e.exposes a kind slot id)
  | .literal _ value _, _, _, _, .literal =>
    .calm (value.codeCases (fun _ => rfl) (fun _ => rfl) (fun _ => rfl) fun _ => rfl)
  | .var .., _, _, _, .var home => .load home
  | .binary _ op left right, _, _, _, .arith action one other _ _ => by
    have both := (left.emitsPassage inner one).append (right.emitsPassage inner other)
    simpa [Expr.skips, Expr.exposes, BinaryOp.isLogical, action] using
      both.between [] _ rfl rfl
  | .binary _ op left right, _, _, _, .compare action one other _ tested => by
    have both := (left.emitsPassage inner one).append (right.emitsPassage inner other)
    simpa [Expr.skips, Expr.exposes, BinaryOp.isLogical, action] using
      both.append (comparePassage tested true _)
  | .binary _ op left right, n, _, _, .logical (b := b) action one other => by
    simpa [Expr.skips, Expr.exposes, BinaryOp.isLogical, action] using
      Passage.logical (i := .branch (if b then .eq else .ne) ⟨n⟩) rfl rfl
        (left.emitsPassage inner one) (right.emitsPassage inner other) b ⟨n + 1⟩
  | .not _ operand _, _, _, _, .not within => by
    simpa [Expr.skips, Expr.exposes] using
      (operand.emitsPassage inner within).append (.test rfl rfl true _)
  | .assign _ _ value, _, _, _, .assign within home => by
    have stored := ((value.emitsPassage inner within).between [] [.dup] rfl rfl).append (.store home)
    simpa [Expr.skips, Expr.exposes, Expr.asName] using stored
  | .call _ _ args _, _, _, _, .call _ given _ => by
    have loaded := (Passage.object inner).append (Expr.emitAllPassage inner args given)
    simpa [Expr.skips, Expr.exposes] using loaded.between [] _ rfl rfl
  | .writeLine _ value _, _, _, _, .writeLine within _ printed =>
    (value.emitsPassage inner within).between _ _ rfl (printCases printed fun _ => rfl)
  | .read .., _, _, _, .read => .calm rfl
  | .random .., _, _, _, .random => .calm rfl
  | .randomBelow _ bound _, _, _, _, .randomBelow within =>
    (bound.emitsPassage inner within).between _ _ rfl rfl
termination_by structural e => e

theorem Expr.emitAllPassage (inner : 0 < slot) : ∀ (es : List (Expr NodeId)) {n n' : Nat}
    {code : List Instruction}, Expr.EmitAll a className id es n code n' →
      Passage kind slot code (Expr.skipsAll a kind slot id es) (Expr.exposesAll a kind slot id es)
  | [], _, _, _, .nil => .nil
  | e :: rest, _, _, _, .cons one more =>
    (e.emitsPassage inner one).append (Expr.emitAllPassage inner rest more)
termination_by structural es => es

end

theorem Expr.droppedPassage (inner : 0 < slot) {node : NodeId} {e : Expr NodeId} {n n' : Nat}
    {code : List Instruction} (emits : e.EmitsDropped a className id node n code n') :
    Passage kind slot code (e.skips a kind slot id) (e.exposes a kind slot id) := by
  cases emits with
  | assign within home =>
    simpa [Expr.skips, Expr.exposes, Expr.asName] using
      (Expr.emitsPassage inner _ within).append (.store home)
  | silent _ within => exact e.emitsPassage inner within
  | popped _ within =>
    exact (e.emitsPassage inner within).between [] [.pop] rfl rfl

theorem Declarator.emitAllPassage (inner : 0 < slot) {ds : List (Declarator NodeId)} {n n' : Nat}
    {code : List Instruction} (emits : Declarator.EmitAll a className id ds n code n') :
    Passage kind slot code (ds.all (Declarator.skips a kind slot id))
      (Declarator.exposesAll a kind slot id ds) := by
  induction emits with
  | nil => exact .nil
  | bare missing _ ih =>
    simpa [Declarator.exposesAll, Declarator.skips, Declarator.exposes, missing] using ih
  | initial given within home _ ih =>
    simpa [Declarator.exposesAll, Declarator.skips, Declarator.exposes, given] using
      ((Expr.emitsPassage inner _ within).append (.store home)).append ih

mutual

theorem Stmt.emitsPassage (inner : 0 < slot) : ∀ (s : Stmt NodeId) {id n n' : Nat}
    {code : List Instruction}, s.Emits a className id n code n' →
      Passage kind slot code (s.skips a kind slot id) (s.exposes a kind slot id)
  | .expr .., _, _, _, _, .expr within => Expr.droppedPassage inner within
  | .declare .., _, _, _, _, .declare within => Declarator.emitAllPassage inner within
  | .ret _ (some e) _, _, _, _, _, .ret within _ => by
    simpa [Stmt.skips, Stmt.exposes] using (e.emitsPassage inner within).append (.stop _)
  | .ret _ none _, _, _, _, _, .leave _ => .stop _
  | .block _ body _, _, _, _, _, .block scope inside => by
    rw [Stmt.skips, Stmt.exposes, Analysis.scopeAtOf scope]
    exact Stmt.emitAllPassage inner body inside
  | .ifThen _ cond yes _, _, _, _, _, .ifThen (m := m) scope tested inside => by
    have body : Passage kind slot (_ ++ [.label ⟨m⟩]) _ _ :=
      (yes.emitsPassage inner inside).between [] _ rfl rfl
    have aims : (Instruction.branch .eq ⟨m⟩).jumpTarget? = some ⟨m⟩ := rfl
    rw [Stmt.skips, Stmt.exposes, Analysis.scopeAtOf scope]
    simpa using (cond.emitsPassage inner tested).append (.skip aims rfl body rfl)
  | .ifElse _ cond yes _ no _, _, _, _, _, .ifElse (m := m) (k := k) scope tested inside beside
      otherwise => by
    have aims : (Instruction.branch .eq ⟨m⟩).jumpTarget? = some ⟨m⟩ := rfl
    rw [Stmt.skips, Stmt.exposes, Analysis.scopeAtOf scope, Analysis.scopeAtOf beside]
    simpa using (cond.emitsPassage inner tested).append (.choose (m := ⟨k⟩) aims rfl
      (yes.emitsPassage inner inside) (no.emitsPassage inner otherwise))
  | .loop _ cond body _, _, n, _, _, .loop scope tested inside => by
    have aims : (Instruction.branch .eq ⟨n + 1⟩).jumpTarget? = some ⟨n + 1⟩ := rfl
    rw [Stmt.skips, Stmt.exposes, Analysis.scopeAtOf scope]
    simpa using Passage.loop (l := ⟨n⟩) aims rfl (cond.emitsPassage inner tested)
      (body.emitsPassage inner inside)
termination_by structural s => s

theorem Stmt.emitAllPassage (inner : 0 < slot) : ∀ (ss : List (Stmt NodeId)) {id n n' : Nat}
    {code : List Instruction}, Stmt.EmitAll a className ss id n code n' →
      Passage kind slot code (Stmt.skipsAll a kind slot ss id) (Stmt.exposesAll a kind slot ss id)
  | [], _, _, _, _, .nil => .nil
  | s :: rest, _, _, _, _, .cons one more =>
    (s.emitsPassage inner one).append (Stmt.emitAllPassage inner rest more)
termination_by structural ss => ss

end

theorem Method.exposedIff (inner : 0 < slot) {m : Method NodeId} {n n' : Nat}
    {made : CompiledMethod} (emits : m.Emits a className n made n') :
    Exposed made.code kind slot 0 ↔ m.exposes a kind slot = true := by
  have placed := Placed.whole fun here there => (Method.emitsLabelled emits).once here there
  obtain ⟨_, _, within, body⟩ := emits
  have last : ∃ s, Passage kind slot (if m.returnType = .void then [.ret none] else []) s false := by
    split
    · exact ⟨_, .stop none⟩
    · exact ⟨_, .nil⟩
  obtain ⟨_, last⟩ := last
  have whole := ((Stmt.emitAllPassage inner m.body.stmts body).append last).whole placed
  rw [Method.exposes, Analysis.scopeAtOf within]
  simpa using whole

end
end ClassCompiler
