import ClassCompiler.Syntax
import ClassCompiler.Table

/-!
Scopes and the symbols in them. The scopes of a program form a tree, in which a scope is named by
its position in the order in which the scopes were entered; the root has position 0. Each points
to the scope around it, so a parent always stands before its children. A name means its nearest
symbol from a scope outward.

A variable takes the slot after those of all variables visible from its scope; variables that are
visible together never share one, while scopes side by side use the same slots again. Scopes also
count the operand stack of the code inside them: the depth now, and the greatest depth.
-/
namespace ClassCompiler

/-- A local variable or parameter. Its type is missing when it could not be inferred. -/
structure Variable where
  type : Option DataType
  slot : Nat
  initialized : Bool
  declaredAt : NodeId
  deriving DecidableEq, Repr

structure MethodUse where
  returns : DataType
  params : List DataType
  deriving DecidableEq, Repr

inductive Symbol where
  | var (v : Variable)
  | method (m : MethodUse)
  deriving DecidableEq, Repr

namespace Symbol

def type? : Symbol → Option DataType
  | var v => v.type
  | method m => some m.returns

def isVariable : Symbol → Bool
  | var _ => true
  | method _ => false

end Symbol

/-- `declarations` counts how often each name was declared as a variable in this very scope. The
maxima cover the scopes inside as far as these have been left. -/
structure Scope where
  parent : Option Nat := none
  symbols : Table String Symbol := {}
  declarations : Table String Nat := {}
  stackDepth : Nat := 0
  maxStack : Nat := 0
  maxLocals : Nat := 0
  hasReturn : Bool := false
  deriving DecidableEq, Repr

namespace Scope

def variableCount (s : Scope) : Nat := s.symbols.values.countP Symbol.isVariable

def declarationCount (s : Scope) (name : String) : Nat := (s.declarations.get? name).getD 0

def declareVariable (s : Scope) (name : String) (v : Variable) : Scope :=
  { s with
    symbols := s.symbols.insert name (.var v)
    declarations := s.declarations.insert name (s.declarationCount name + 1)
    maxLocals := max s.maxLocals (v.slot + 1) }

def useMethod (s : Scope) (name : String) (m : MethodUse) : Scope :=
  { s with symbols := s.symbols.insertNew name (.method m) }

def markInitialized (s : Scope) (name : String) : Scope :=
  match s.symbols.get? name with
  | some (.var v) =>
    { s with symbols := s.symbols.insert name (.var { v with initialized := true }) }
  | _ => s

def push (s : Scope) (n : Nat) : Scope :=
  { s with stackDepth := s.stackDepth + n, maxStack := max s.maxStack (s.stackDepth + n) }

def pop (s : Scope) (n : Nat) : Scope := { s with stackDepth := s.stackDepth - n }

def raise (s : Scope) (maxStack maxLocals : Nat) : Scope :=
  { s with maxStack := max s.maxStack maxStack, maxLocals := max s.maxLocals maxLocals }

end Scope

structure ScopeTree where
  scopes : List Scope := [{}]
  deriving DecidableEq, Repr

namespace ScopeTree

def root : Nat := 0

def size (t : ScopeTree) : Nat := t.scopes.length

def scope (t : ScopeTree) (id : Nat) : Scope := (t.scopes[id]?).getD {}

def modify (t : ScopeTree) (id : Nat) (f : Scope → Scope) : ScopeTree :=
  ⟨t.scopes.modify id f⟩

def wayOut (t : ScopeTree) : (fuel : Nat) → (id : Nat) → List Nat
  | 0, _ => []
  | fuel + 1, id =>
    id :: match (t.scope id).parent with
      | some p => t.wayOut fuel p
      | none => []

/-- A scope and the scopes around it, nearest first. Parents stand at smaller positions, so `id`
steps lead to the root. -/
def ancestors (t : ScopeTree) (id : Nat) : List Nat := t.wayOut (id + 1) id

def visibleVariableCount (t : ScopeTree) (id : Nat) : Nat :=
  (t.ancestors id).foldr (fun a n => (t.scope a).variableCount + n) 0

/-- How often a name is declared in a scope and around it, the root left out. -/
def declarationCount (t : ScopeTree) (id : Nat) (name : String) : Nat :=
  ((t.ancestors id).filter (· ≠ root)).foldr (fun a n => (t.scope a).declarationCount name + n) 0

def resolve (t : ScopeTree) (id : Nat) (name : String) (visible : Symbol → Bool) :
    Option (Nat × Symbol) :=
  (t.ancestors id).findSome? fun a =>
    (((t.scope a).symbols.get? name).filter visible).map fun s => (a, s)

def lookup (t : ScopeTree) (id : Nat) (name : String) : Option Symbol :=
  (t.resolve id name fun _ => true).map Prod.snd

/-- A new child of a scope, at the last position. Under the root the stack count starts anew. -/
def enter (t : ScopeTree) (parent : Nat) : ScopeTree :=
  ⟨t.scopes ++
    [{ parent := some parent
       maxStack := if parent = root then 0 else (t.scope parent).maxStack
       maxLocals := t.visibleVariableCount parent }]⟩

def leave (t : ScopeTree) (id : Nat) : ScopeTree :=
  match (t.scope id).parent with
  | some p => t.modify p fun s => s.raise (t.scope id).maxStack (t.scope id).maxLocals
  | none => t

def nextSlot (t : ScopeTree) (id : Nat) : Nat := t.visibleVariableCount id

def declareVariable (t : ScopeTree) (id : Nat) (name : String) (type : Option DataType)
    (initialized : Bool) (node : NodeId) : ScopeTree :=
  t.modify id fun s => s.declareVariable name ⟨type, t.nextSlot id, initialized, node⟩

def useMethod (t : ScopeTree) (id : Nat) (name : String) (m : MethodUse) : ScopeTree :=
  t.modify id fun s => s.useMethod name m

def hasVariable (t : ScopeTree) (id : Nat) (name : String) : Bool :=
  ((t.scope id).symbols.get? name).any Symbol.isVariable

def markInitialized (t : ScopeTree) (id : Nat) (name : String) : ScopeTree :=
  t.modify id fun s => s.markInitialized name

def push (t : ScopeTree) (id : Nat) (n : Nat) : ScopeTree := t.modify id fun s => s.push n

def pop (t : ScopeTree) (id : Nat) (n : Nat) : ScopeTree := t.modify id fun s => s.pop n

def markReturn (t : ScopeTree) (id : Nat) : ScopeTree :=
  t.modify id fun s => { s with hasReturn := true }

def maxLocals (t : ScopeTree) (id : Nat) : Nat :=
  max (t.scope id).maxLocals (t.visibleVariableCount id)

@[simp] theorem modifySize (t : ScopeTree) (id : Nat) (f : Scope → Scope) :
    (t.modify id f).size = t.size := by simp [modify, size]

@[simp] theorem enterSize (t : ScopeTree) (parent : Nat) :
    (t.enter parent).size = t.size + 1 := by simp [enter, size]

theorem scopeModify (t : ScopeTree) (id other : Nat) (f : Scope → Scope) :
    (t.modify id f).scope other =
      if id = other ∧ other < t.size then f (t.scope other) else t.scope other := by
  simp only [scope, modify, size, List.getElem?_modify]
  by_cases same : id = other
  · subst same
    by_cases inside : id < t.scopes.length
    · simp [inside]
    · simp [inside]
  · cases h : t.scopes[other]? <;> simp [same]

theorem scopeEnter (t : ScopeTree) (parent other : Nat) (old : other < t.size) :
    (t.enter parent).scope other = t.scope other := by
  simp only [scope, enter, size] at *
  rw [List.getElem?_append_left old]

theorem parentModify (t : ScopeTree) (id other : Nat) {f : Scope → Scope}
    (keeps : ∀ s, (f s).parent = s.parent) :
    ((t.modify id f).scope other).parent = (t.scope other).parent := by
  rw [scopeModify]
  split
  · exact keeps _
  · rfl

theorem wayOutModify (t : ScopeTree) (id other : Nat) {f : Scope → Scope}
    (keeps : ∀ s, (f s).parent = s.parent) (fuel : Nat) :
    (t.modify id f).wayOut fuel other = t.wayOut fuel other := by
  induction fuel generalizing other with
  | zero => rfl
  | succ n ih =>
    simp only [wayOut, parentModify t id other keeps]
    cases (t.scope other).parent with
    | none => rfl
    | some p => simp only [ih]

theorem ancestorsModify (t : ScopeTree) (id other : Nat) {f : Scope → Scope}
    (keeps : ∀ s, (f s).parent = s.parent) :
    (t.modify id f).ancestors other = t.ancestors other := wayOutModify t id other keeps _

def Ordered (t : ScopeTree) : Prop := ∀ id p, (t.scope id).parent = some p → p < id

theorem orderedStart : Ordered {} := by
  intro id p found
  cases id <;> simp [scope] at found

theorem orderedModify {t : ScopeTree} (ordered : t.Ordered) (id : Nat) {f : Scope → Scope}
    (keeps : ∀ s, (f s).parent = s.parent) : (t.modify id f).Ordered := by
  intro other p found
  rw [parentModify t id other keeps] at found
  exact ordered other p found

theorem orderedEnter {t : ScopeTree} (ordered : t.Ordered) {parent : Nat}
    (inside : parent < t.size) : (t.enter parent).Ordered := by
  intro id p found
  rcases Nat.lt_trichotomy id t.size with old | new | beyond
  · rw [scopeEnter t parent id old] at found
    exact ordered id p found
  · have same : parent = p := by simpa [new, scope, enter, size] using found
    omega
  · rw [scope, enter, List.getElem?_eq_none (by simp [size] at beyond ⊢; omega)] at found
    simp at found

theorem wayOutEnough {t : ScopeTree} (ordered : t.Ordered) {fuel : Nat} {id : Nat}
    (enough : id < fuel) : t.wayOut fuel id = t.ancestors id := by
  induction id using Nat.strongRecOn generalizing fuel with
  | ind id ih =>
    cases fuel with
    | zero => omega
    | succ n =>
      simp only [ancestors, wayOut]
      cases found : (t.scope id).parent with
      | none => rfl
      | some p =>
        have lower := ordered id p found
        simp only [ih p lower (show p < n by omega), ih p lower (show p < id by omega)]

theorem ancestorsRoot {t : ScopeTree} {id : Nat} (top : (t.scope id).parent = none) :
    t.ancestors id = [id] := by simp [ancestors, wayOut, top]

theorem ancestorsChild {t : ScopeTree} (ordered : t.Ordered) {id p : Nat}
    (child : (t.scope id).parent = some p) : t.ancestors id = id :: t.ancestors p := by
  have lower := ordered id p child
  have rest := wayOutEnough ordered lower
  simp [ancestors, wayOut, child] at rest ⊢
  exact rest

end ScopeTree
end ClassCompiler
