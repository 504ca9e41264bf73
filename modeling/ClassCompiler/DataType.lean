/-!
The types of the language. `void` is the type of a method that gives no value, and `self` is the
type of the object that a method runs on.
-/
namespace ClassCompiler

inductive DataType where
  | int
  | float
  | bool
  | string
  | char
  | void
  | self
  deriving DecidableEq, Repr

namespace DataType

def keyword : DataType → String
  | int => "int"
  | float => "float"
  | bool => "bool"
  | string => "string"
  | char => "char"
  | void => "void"
  | self => "class"

def isValue : DataType → Bool
  | void | self => false
  | _ => true

def isNumeric : DataType → Bool
  | int | float | char => true
  | _ => false

def describe : Option DataType → String
  | some ty => ty.keyword
  | none => "null"

theorem isValueIff {ty : DataType} : ty.isValue = true ↔ ty ≠ void ∧ ty ≠ self := by
  cases ty <;> simp [isValue]

theorem numericValue {ty : DataType} (numeric : ty.isNumeric = true) : ty.isValue = true := by
  cases ty <;> simp_all [isNumeric, isValue]

end DataType
end ClassCompiler
