import ClassCompiler.Failure

/-!
Descriptors: the types of a method as the assembler writes them, `(IZ)F` for a method that takes
an `int` and a `bool` and gives a `float`. The type of the object itself has none.
-/
namespace ClassCompiler

def DataType.descriptor : DataType → Except Fault String
  | .int => .ok "I"
  | .bool => .ok "Z"
  | .float => .ok "F"
  | .string => .ok "Ljava/lang/String;"
  | .char => .ok "C"
  | .void => .ok "V"
  | .self => .error (.noInstruction .self "descriptor")

def DataType.descriptors : List DataType → Except Fault String
  | [] => .ok ""
  | type :: rest => do
    let first ← type.descriptor
    let others ← DataType.descriptors rest
    pure (first ++ others)

def methodDescriptor (params : List DataType) (returns : DataType) : Except Fault String := do
  let inside ← DataType.descriptors params
  let result ← returns.descriptor
  pure ("(" ++ inside ++ ")" ++ result)

theorem DataType.descriptorOkIff {type : DataType} :
    (∃ d, type.descriptor = .ok d) ↔ type ≠ .self := by
  cases type <;> simp [DataType.descriptor]

end ClassCompiler
