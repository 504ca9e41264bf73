import ClassCompiler.Instruction
import ClassCompiler.Table

/-!
How deep code makes the operand stack. One walk over the code carries the depth along the
fall-through edges and notes the depth at each label; all ways to a label have to agree. Code
after a jump or a return counts from an empty stack until a label says otherwise.
-/
namespace ClassCompiler

inductive StackError where
  | underflow (index : Nat)
  | mismatch (label : Label) (first second : Nat)
  deriving DecidableEq, Repr

def StackError.message : StackError → String
  | underflow index => s!"instruction {index} pops from an empty operand stack"
  | mismatch label first second =>
    s!"{label.text} is reached with stack depths {first} and {second}"

/-- Where the walk stands: the depth, unless control cannot come from above; the greatest depth so
far; and the depths noted at labels. -/
structure StackWalk where
  depth : Option Nat := some 0
  deepest : Nat := 0
  noted : Table Label Nat := {}
  deriving DecidableEq, Repr

namespace StackWalk

def arrive (noted : Table Label Nat) (l : Label) (incoming : Option Nat) :
    Except StackError (Nat × Table Label Nat) :=
  match noted.get? l, incoming with
  | some first, some second =>
    if first = second then .ok (first, noted) else .error (.mismatch l first second)
  | some first, none => .ok (first, noted)
  | none, incoming => .ok (incoming.getD 0, noted.insert l (incoming.getD 0))

def pass (w : StackWalk) (index : Nat) (i : Instruction) : Except StackError StackWalk :=
  let current := w.depth.getD 0
  if current < i.pops then .error (.underflow index)
  else do
    let after := current - i.pops + i.pushes
    let noted ← match i.jumpTarget? with
      | some l => (arrive w.noted l (some after)).map Prod.snd
      | none => pure w.noted
    pure ⟨if i.isTerminal then none else some after, max (max w.deepest after) current, noted⟩

def step (w : StackWalk) (index : Nat) : Instruction → Except StackError StackWalk
  | .label l => (arrive w.noted l w.depth).map fun here => ⟨some here.1, w.deepest, here.2⟩
  | i => w.pass index i

def walk (w : StackWalk) (index : Nat) : List Instruction → Except StackError StackWalk
  | [] => .ok w
  | i :: rest => do walk (← w.step index i) (index + 1) rest

end StackWalk

def maxStackDepth (code : List Instruction) : Except StackError Nat :=
  (StackWalk.walk {} 0 code).map StackWalk.deepest

theorem StackWalk.walkAppend (w : StackWalk) (index : Nat) (a b : List Instruction) :
    walk w index (a ++ b) = (walk w index a).bind fun w => walk w (index + a.length) b := by
  induction a generalizing w index with
  | nil => rfl
  | cons i rest ih =>
    simp only [List.cons_append, walk, List.length_cons]
    cases w.step index i with
    | error e => rfl
    | ok v =>
      have shift : index + (rest.length + 1) = index + 1 + rest.length := by omega
      rw [shift]
      exact ih v (index + 1)

end ClassCompiler
