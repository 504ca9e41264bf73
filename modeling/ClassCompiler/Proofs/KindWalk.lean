import ClassCompiler.Descriptor
import ClassCompiler.Proofs.TableMap
import ClassCompiler.StackDepth

/-! The walk of `StackDepth` with the kinds of the values on the operand stack in place of their
number. A call takes the kinds that its descriptor names, which is read off the text of its target:
the part behind the last opening bracket, since neither a parameter nor a result has one. -/
namespace ClassCompiler

structure CallShape where
  params : List ValueKind
  result : Option ValueKind
  deriving DecidableEq, Repr

namespace CallShape

def ofLetter : Char → Option ValueKind
  | 'I' | 'Z' | 'C' => some .int
  | 'F' => some .float
  | _ => none

/-- The parameters up to the closing bracket, and the text behind it. A class name is passed over
up to its semicolon. -/
def readParams : (inName : Bool) → List Char → Option (List ValueKind × List Char)
  | _, [] => none
  | true, c :: rest =>
    if c = ';' then (readParams false rest).map fun r => (.reference :: r.1, r.2)
    else readParams true rest
  | false, c :: rest =>
    if c = ')' then some ([], rest)
    else if c = 'L' then readParams true rest
    else
      match ofLetter c with
      | some kind => (readParams false rest).map fun r => (kind :: r.1, r.2)
      | none => none

def readResult : List Char → Option (Option ValueKind)
  | ['V'] => some none
  | [c] => (ofLetter c).map some
  | 'L' :: name => if name.idxOf ';' + 1 = name.length then some (some .reference) else none
  | _ => none

def behindBracket (text : List Char) : List Char :=
  (text.reverse.takeWhile (· ≠ '(')).reverse

def read? (target : String) : Option CallShape := do
  let params ← readParams false (behindBracket target.toList)
  let result ← readResult params.2
  some ⟨params.1, result⟩

end CallShape

def takeKinds : (expected stack : List ValueKind) → Option (List ValueKind)
  | [], stack => some stack
  | _ :: _, [] => none
  | e :: expected, k :: stack => if e = k then takeKinds expected stack else none

def Constant.kind : Constant → ValueKind
  | int _ => .int
  | float _ => .float
  | string _ => .reference

namespace Instruction

def callKinds (target : String) (args : Nat) (gives : Bool) (stack : List ValueKind) :
    Option (List ValueKind) := do
  let shape ← CallShape.read? target
  if shape.params.length = args ∧ shape.result.isSome = gives then
    let rest ← takeKinds (shape.params.reverse ++ [.reference]) stack
    some (shape.result.toList ++ rest)
  else none

/-- The stack after an instruction, in a method that gives a value of kind `returns`. -/
def kinds (returns : Option ValueKind) : Instruction → List ValueKind → Option (List ValueKind)
  | iconst _, stack | bipush _, stack | sipush _, stack => some (.int :: stack)
  | ldc constant, stack => some (constant.kind :: stack)
  | load kind _, stack => some (kind :: stack)
  | store kind _, stack => takeKinds [kind] stack
  | arith kind _, stack =>
    if kind = .reference then none else (takeKinds [kind, kind] stack).map (kind :: ·)
  | fcmpl, stack => (takeKinds [.float, .float] stack).map (.int :: ·)
  | branch .., stack => takeKinds [.int] stack
  | branchInt .., stack => takeKinds [.int, .int] stack
  | branchRef .., stack => takeKinds [.reference, .reference] stack
  | goto _, stack | label _, stack => some stack
  | dup, stack =>
    match stack with
    | [] => none
    | kind :: rest => some (kind :: kind :: rest)
  | pop, stack =>
    match stack with
    | [] => none
    | _ :: rest => some rest
  | ret kind, stack => if kind = returns then takeKinds kind.toList stack else none
  | new _, stack | getStatic _, stack => some (.reference :: stack)
  | invokeSpecial target args, stack => callKinds target args false stack
  | invokeVirtual target args gives, stack => callKinds target args gives stack

end Instruction

structure KindWalk where
  stack : Option (List ValueKind) := some []
  deepest : Nat := 0
  noted : Table Label (List ValueKind) := {}
  deriving DecidableEq, Repr

namespace KindWalk

def arrive (noted : Table Label (List ValueKind)) (l : Label)
    (incoming : Option (List ValueKind)) :
    Option (List ValueKind × Table Label (List ValueKind)) :=
  match noted.get? l, incoming with
  | some first, some second => if first = second then some (first, noted) else none
  | some first, none => some (first, noted)
  | none, incoming => some (incoming.getD [], noted.insert l (incoming.getD []))

def pass (returns : Option ValueKind) (w : KindWalk) (i : Instruction) : Option KindWalk := do
  let current := w.stack.getD []
  let after ← i.kinds returns current
  let noted ← match i.jumpTarget? with
    | some l => (arrive w.noted l (some after)).map Prod.snd
    | none => some w.noted
  some ⟨if i.isTerminal then none else some after,
    max (max w.deepest after.length) current.length, noted⟩

def step (returns : Option ValueKind) (w : KindWalk) : Instruction → Option KindWalk
  | .label l => (arrive w.noted l w.stack).map fun here => ⟨some here.1, w.deepest, here.2⟩
  | i => w.pass returns i

def walk (returns : Option ValueKind) (w : KindWalk) : List Instruction → Option KindWalk
  | [] => some w
  | i :: rest => do walk returns (← w.step returns i) rest

end KindWalk

/-- Every instruction finds the kinds that it takes, and all ways to a label bring the same. -/
def KindSafe (returns : Option ValueKind) (code : List Instruction) : Prop :=
  (KindWalk.walk returns {} code).isSome

theorem takeKindsAppend (taken expected stack : List ValueKind) :
    takeKinds (taken ++ expected) (taken ++ stack) = takeKinds expected stack := by
  induction taken with
  | nil => rfl
  | cons kind rest ih => simpa [takeKinds] using ih

theorem takeKindsLength {expected stack rest : List ValueKind}
    (taken : takeKinds expected stack = some rest) :
    stack.length = expected.length + rest.length := by
  induction expected generalizing stack with
  | nil =>
    cases taken
    simp
  | cons e expected ih =>
    cases stack with
    | nil => simp [takeKinds] at taken
    | cons k stack =>
      simp only [takeKinds] at taken
      split at taken
      · simp only [List.length_cons, ih taken]
        omega
      · contradiction

namespace Instruction

theorem callKindsLength {target : String} {args : Nat} {gives : Bool} {stack after : List ValueKind}
    (made : callKinds target args gives stack = some after) :
    1 + args ≤ stack.length ∧
      after.length = stack.length - (1 + args) + (if gives then 1 else 0) := by
  simp only [callKinds, Option.bind_eq_bind, Option.bind_eq_some_iff] at made
  obtain ⟨shape, _, made⟩ := made
  split at made
  · rename_i fits
    obtain ⟨rest, taken, result⟩ := Option.bind_eq_some_iff.mp made
    cases result
    have length := takeKindsLength taken
    simp only [List.length_append, List.length_reverse, List.length_singleton, fits.1] at length
    refine ⟨by omega, ?_⟩
    cases kind : shape.result with
    | none =>
      have gives : gives = false := by simpa [kind] using fits.2.symm
      simp [gives]
      omega
    | some k =>
      have gives : gives = true := by simpa [kind] using fits.2.symm
      simp [gives]
      omega
  · contradiction

theorem kindsLength {returns : Option ValueKind} {i : Instruction} {stack after : List ValueKind}
    (made : i.kinds returns stack = some after) :
    i.pops ≤ stack.length ∧ after.length = stack.length - i.pops + i.pushes := by
  cases i with
  | iconst | bipush | sipush | ldc | load | new | getStatic | goto | label =>
    cases made
    exact ⟨Nat.zero_le _, rfl⟩
  | store | branch | branchInt | branchRef =>
    have length := takeKindsLength made
    simp only [List.length_cons, List.length_nil, pops, pushes] at length ⊢
    omega
  | arith kind op =>
    simp only [kinds] at made
    split at made
    · contradiction
    · obtain ⟨rest, taken, rfl⟩ := Option.map_eq_some_iff.mp made
      have length := takeKindsLength taken
      simp only [List.length_cons, List.length_nil, pops, pushes] at length ⊢
      omega
  | fcmpl =>
    obtain ⟨rest, taken, rfl⟩ := Option.map_eq_some_iff.mp made
    have length := takeKindsLength taken
    simp only [List.length_cons, List.length_nil, pops, pushes] at length ⊢
    omega
  | dup | pop =>
    cases stack with
    | nil => contradiction
    | cons kind rest =>
      cases made
      simp [pops, pushes]
  | ret kind =>
    simp only [kinds] at made
    split at made
    · have length := takeKindsLength made
      cases kind <;> simp [pops, pushes] at length ⊢ <;> omega
    · contradiction
  | invokeSpecial target args => simpa [pops, pushes] using callKindsLength made
  | invokeVirtual target args gives => simpa [pops, pushes] using callKindsLength made

end Instruction

namespace KindWalk

theorem walkAppend {returns : Option ValueKind} {w v : KindWalk} {first : List Instruction}
    (reached : walk returns w first = some v) (second : List Instruction) :
    walk returns w (first ++ second) = walk returns v second := by
  induction first generalizing w with
  | nil =>
    cases reached
    rfl
  | cons i rest ih =>
    simp only [walk, Option.bind_eq_bind, Option.bind_eq_some_iff] at reached
    obtain ⟨u, here, later⟩ := reached
    simp only [List.cons_append, walk, here, Option.bind_eq_bind, Option.bind_some]
    exact ih later

def depths (w : KindWalk) : StackWalk :=
  ⟨w.stack.map List.length, w.deepest, w.noted.map List.length⟩

theorem arriveDepths {noted : Table Label (List ValueKind)} {l : Label}
    {incoming : Option (List ValueKind)} {here : List ValueKind × Table Label (List ValueKind)}
    (arrived : arrive noted l incoming = some here) :
    StackWalk.arrive (noted.map List.length) l (incoming.map List.length) =
      .ok (here.1.length, here.2.map List.length) := by
  unfold arrive at arrived
  unfold StackWalk.arrive
  rw [Table.getMap]
  cases known : noted.get? l with
  | none =>
    simp only [known] at arrived
    cases arrived
    cases incoming <;> simp [Table.insertMap]
  | some first =>
    cases incoming with
    | none =>
      simp only [known] at arrived
      cases arrived
      rfl
    | some second =>
      simp only [known] at arrived
      split at arrived
      · rename_i same
        cases arrived
        simp [same]
      · contradiction

theorem passDepths {returns : Option ValueKind} {w v : KindWalk} {i : Instruction}
    (passed : w.pass returns i = some v) (index : Nat) :
    w.depths.pass index i = .ok v.depths := by
  unfold pass at passed
  obtain ⟨after, made, passed⟩ := Option.bind_eq_some_iff.mp passed
  obtain ⟨enough, length⟩ := Instruction.kindsLength made
  have current : w.depths.depth.getD 0 = (w.stack.getD []).length := by
    cases h : w.stack <;> simp [depths, h]
  unfold StackWalk.pass
  simp only [current, ← length, if_neg (Nat.not_lt.mpr enough)]
  cases target : i.jumpTarget? with
  | none =>
    simp only [target] at passed
    cases passed
    cases terminal : i.isTerminal <;> rfl
  | some l =>
    simp only [target] at passed
    obtain ⟨noted, marked, result⟩ := Option.bind_eq_some_iff.mp passed
    obtain ⟨here, arrived, rfl⟩ := Option.map_eq_some_iff.mp marked
    cases result
    have reached := arriveDepths arrived
    simp only [Option.map_some] at reached
    have start : w.depths.noted = w.noted.map List.length := rfl
    simp only [start, reached]
    cases terminal : i.isTerminal <;> rfl

theorem stepDepths {returns : Option ValueKind} {w v : KindWalk} {i : Instruction}
    (stepped : w.step returns i = some v) (index : Nat) :
    w.depths.step index i = .ok v.depths := by
  cases i with
  | label l =>
    obtain ⟨here, arrived, rfl⟩ := Option.map_eq_some_iff.mp stepped
    have reached := arriveDepths arrived
    simp only [StackWalk.step, depths, reached]
    rfl
  | _ => exact passDepths stepped index

theorem walkDepths {returns : Option ValueKind} {w v : KindWalk} {code : List Instruction}
    (walked : walk returns w code = some v) (index : Nat) :
    StackWalk.walk w.depths index code = .ok v.depths := by
  induction code generalizing w index with
  | nil =>
    cases walked
    rfl
  | cons i rest ih =>
    obtain ⟨u, here, later⟩ := Option.bind_eq_some_iff.mp walked
    simp only [StackWalk.walk, stepDepths here index]
    exact ih later (index + 1)

theorem deepestDepth {returns : Option ValueKind} {code : List Instruction} {w : KindWalk}
    (walked : walk returns {} code = some w) : maxStackDepth code = .ok w.deepest := by
  have reached := walkDepths walked 0
  simp only [maxStackDepth]
  exact congrArg (Except.map StackWalk.deepest) reached

end KindWalk
end ClassCompiler
