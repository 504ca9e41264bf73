import ClassCompiler.Failure
import ClassCompiler.MethodTable
import ClassCompiler.ScopeTree

/-!
What is known about a program: its methods and scopes, the types and scopes of its nodes, and the
diagnostics that have not been handed out yet.
-/
namespace ClassCompiler

/-- `types` has the type of a node; for a comparison or a logical operator that is the type of the
operands, for a printed line the type of what is printed, and for an expression statement the type
of the value that is dropped. `scopeIds` has the scope that a node opens. -/
structure Analysis where
  methods : MethodTable := {}
  scopes : ScopeTree := {}
  types : Table NodeId DataType := {}
  scopeIds : Table NodeId Nat := {}
  diagnostics : List Diagnostic := []
  deriving DecidableEq, Repr

namespace Analysis

def typeOf? (a : Analysis) (node : NodeId) : Option DataType := a.types.get? node

def typeOf (a : Analysis) (node : NodeId) : Except Fault DataType :=
  match a.typeOf? node with
  | some type => .ok type
  | none => .error (.missingType node)

def scopeOf (a : Analysis) (node : NodeId) : Except Fault Nat :=
  match a.scopeIds.get? node with
  | some id => .ok id
  | none => .error (.missingScope node)

def setType (a : Analysis) (node : NodeId) (type : Option DataType) : Analysis :=
  match type with
  | some type => { a with types := a.types.insert node type }
  | none => a

def bindScope (a : Analysis) (node : NodeId) (id : Nat) : Analysis :=
  { a with scopeIds := a.scopeIds.insert node id }

def nameType? (a : Analysis) (id : Nat) (name : String) : Option DataType :=
  (a.scopes.lookup id name).bind Symbol.type?

def mapScopes (a : Analysis) (f : ScopeTree → ScopeTree) : Analysis :=
  { a with scopes := f a.scopes }

def push (a : Analysis) (id : Nat) (n : Nat) : Analysis := a.mapScopes fun t => t.push id n

def pop (a : Analysis) (id : Nat) (n : Nat) : Analysis := a.mapScopes fun t => t.pop id n

def report (a : Analysis) (d : Diagnostic) : Analysis :=
  { a with diagnostics := a.diagnostics ++ [d] }

def takeDiagnostics (a : Analysis) : List Diagnostic × Analysis :=
  (a.diagnostics, { a with diagnostics := [] })

theorem typeOfSetType (a : Analysis) (node other : NodeId) (type : DataType) :
    (a.setType node (some type)).typeOf? other =
      if node = other then some type else a.typeOf? other := Table.getInsert _ _ _ _

theorem scopeOfOk {a : Analysis} {node : NodeId} {id : Nat} :
    a.scopeOf node = .ok id ↔ a.scopeIds.get? node = some id := by
  unfold scopeOf
  cases a.scopeIds.get? node <;> simp

theorem typeOfOk {a : Analysis} {node : NodeId} {type : DataType} :
    a.typeOf node = .ok type ↔ a.typeOf? node = some type := by
  unfold typeOf
  cases a.typeOf? node <;> simp

end Analysis
end ClassCompiler
