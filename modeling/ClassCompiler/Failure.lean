import ClassCompiler.Diagnostic
import ClassCompiler.Syntax

/-!
Why no class is produced: the program breaks rules, or the tables of an analysis do not fit the
tree that they are used for.
-/
namespace ClassCompiler

/-- What an analysis lacks for a tree. -/
inductive Fault where
  | missingScope (node : NodeId)
  | missingType (node : NodeId)
  | unresolvedSymbol (name : String)
  | notAVariable (name : String)
  | unknownMethod (name : String)
  | noInstruction (type : DataType) (purpose : String)
  deriving DecidableEq, Repr

def Fault.message : Fault → String
  | missingScope node => s!"internal error: no scope recorded for {node.text}"
  | missingType node => s!"internal error: no type recorded for {node.text}"
  | unresolvedSymbol name => s!"internal error: '{name}' is not bound in the current scope"
  | notAVariable name =>
    s!"internal error: '{name}' resolved to a method where a variable was expected"
  | unknownMethod name => s!"internal error: method '{name}' is not registered"
  | noInstruction type purpose =>
    s!"internal error: no {purpose} instruction for type {type.keyword}"

inductive Failure where
  | violations (diagnostics : List Diagnostic)
  | fault (cause : Fault)
  deriving DecidableEq, Repr

namespace Failure

def message : Failure → String
  | violations ds => Diagnostic.report ds
  | fault cause => cause.message

def diagnostics? : Failure → Option (List Diagnostic)
  | violations ds => some ds
  | fault _ => none

end Failure
end ClassCompiler
