import ClassCompiler.Operator
import ClassCompiler.Span

/-!
Broken rules of the language, with the place to blame and the text that tells of them.
-/
namespace ClassCompiler

inductive Violation where
  | unknownType (name : String)
  | typeMismatch (expected found : String)
  | missingMain
  | mainHasParameters
  | duplicateMethod (name : String)
  | unknownMethod (name : String)
  | argumentCount (name : String) (expected found : Nat)
  | missingReturn (name : String)
  | unprintable (type : DataType)
  | invalidVariableType (type : DataType) (name : String)
  | notAVariable (name : String)
  | uninitialized (name : String)
  | duplicateVariable (name : String)
  | unknownVariable (name : String)
  | invalidAssignmentTarget
  | unsupportedOperator (type op : String)
  deriving DecidableEq, Repr

namespace Violation

def mismatch (expected found : Option DataType) : Violation :=
  .typeMismatch (DataType.describe expected) (DataType.describe found)

def unsupported (type : Option DataType) (op : BinaryOp) : Violation :=
  .unsupportedOperator (DataType.describe type) op.text

def message : Violation → String
  | unknownType name => s!"{name} does not have a known type."
  | typeMismatch expected found => s!"Types do not match, {expected} {found}."
  | missingMain => "No Main method has been found."
  | mainHasParameters => "The Main method can not have any parameters."
  | duplicateMethod name => s!"Multiple methods found with the same identifier of {name}."
  | unknownMethod name => s!"Method {name} does not exist."
  | argumentCount name expected found =>
    s!"Method {name} expects {expected} arguments but {found} were given."
  | missingReturn name => s!"Method {name} is missing a return statement."
  | unprintable type => s!"Unable to print a {type.keyword} to the console."
  | invalidVariableType type name => s!"{type.keyword} can not be used for variable {name}."
  | notAVariable name => s!"{name} is not a variable."
  | uninitialized name => s!"{name} has not been initialized yet."
  | duplicateVariable name =>
    s!"Multiple variables found with the same identifier of {name} in the same scope."
  | unknownVariable name => s!"Variable {name} does not exist in the current scope."
  | invalidAssignmentTarget => "Assignment target must be a variable."
  | unsupportedOperator type op => s!"{type} does not support the {op} operator."

end Violation

inductive Anchor where
  | start
  | stop
  deriving DecidableEq, Repr

structure Diagnostic where
  violation : Violation
  span : Span
  anchor : Anchor := .start
  deriving DecidableEq, Repr

namespace Diagnostic

def line (d : Diagnostic) : Nat :=
  match d.anchor with
  | .start => d.span.first.line
  | .stop => d.span.last.line

def text (d : Diagnostic) : String := s!"Line {d.line} - {d.violation.message}"

def report (ds : List Diagnostic) : String :=
  "\n".intercalate (s!"{ds.length} Errors found." :: ds.map text)

end Diagnostic
end ClassCompiler
