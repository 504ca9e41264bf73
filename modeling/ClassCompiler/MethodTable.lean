import ClassCompiler.DataType
import ClassCompiler.Span

/-!
The methods that a program can name: those it declares, in source order, and then the intrinsics
it uses, each once, in the order of their first use. Only declared methods can be called by name,
but an intrinsic in use takes its name away from methods and variables.
-/
namespace ClassCompiler

inductive Origin where
  | declared
  | intrinsic
  deriving DecidableEq, Repr

/-- The span is that of the declaration, or of the first use of an intrinsic. -/
structure Signature where
  name : String
  returns : DataType
  params : List DataType
  origin : Origin
  span : Span
  deriving DecidableEq, Repr

structure MethodTable where
  signatures : List Signature := []
  deriving DecidableEq, Repr

namespace MethodTable

def declare (t : MethodTable) (name : String) (returns : DataType) (params : List DataType)
    (span : Span) : MethodTable :=
  ⟨t.signatures ++ [⟨name, returns, params, .declared, span⟩]⟩

def knowsIntrinsic (t : MethodTable) (name : String) : Bool :=
  t.signatures.any fun s => s.origin == .intrinsic && s.name == name

def useIntrinsic (t : MethodTable) (name : String) (returns : DataType) (params : List DataType)
    (span : Span) : MethodTable :=
  if t.knowsIntrinsic name then t
  else ⟨t.signatures ++ [⟨name, returns, params, .intrinsic, span⟩]⟩

def find? (t : MethodTable) (name : String) : Option Signature :=
  t.signatures.find? fun s => s.origin == .declared && s.name == name

def contains (t : MethodTable) (name : String) : Bool :=
  t.signatures.any fun s => s.name == name

def count (t : MethodTable) (name : String) : Nat :=
  t.signatures.countP fun s => s.name == name

def size (t : MethodTable) : Nat := t.signatures.length

theorem findUseIntrinsic (t : MethodTable) (name other : String) (returns : DataType)
    (params : List DataType) (span : Span) :
    (t.useIntrinsic name returns params span).find? other = t.find? other := by
  unfold useIntrinsic
  split
  · rfl
  · simp [find?, List.find?_append]

theorem findName {t : MethodTable} {name : String} {s : Signature}
    (found : t.find? name = some s) : s.name = name ∧ s.origin = .declared := by
  have hit := List.find?_some found
  simpa [and_comm] using hit

theorem containsIff {t : MethodTable} {name : String} :
    t.contains name = true ↔ ∃ s ∈ t.signatures, s.name = name := by
  simp [contains]

end MethodTable
end ClassCompiler
