import ClassCompiler.Instruction

/-!
The class that the assembler reads: a header, then the methods with their limits and code, one
instruction on a line.
-/
namespace ClassCompiler

inductive Access where
  | member
  | static
  deriving DecidableEq, Repr

def Access.text : Access → String
  | .member => "public"
  | .static => "public static"

structure CompiledMethod where
  access : Access
  name : String
  descriptor : String
  maxStack : Nat
  maxLocals : Nat
  code : List Instruction
  deriving DecidableEq, Repr

def CompiledMethod.lines (m : CompiledMethod) : List String :=
  [s!".method {m.access.text} {m.name}{m.descriptor}",
    s!".limit stack {m.maxStack}",
    s!".limit locals {m.maxLocals}"] ++
  m.code.map Instruction.text ++ [".end method"]

structure ClassFile where
  name : String
  version : String
  methods : List CompiledMethod
  deriving DecidableEq, Repr

namespace ClassFile

def method? (c : ClassFile) (name : String) : Option CompiledMethod :=
  c.methods.find? fun m => m.name == name

def lines (c : ClassFile) : List String :=
  [s!".bytecode {c.version}", s!".class public {c.name}", ".super java/lang/Object"] ++
  c.methods.flatMap CompiledMethod.lines

def text (c : ClassFile) : String := String.join (c.lines.map fun line => line ++ "\n")

end ClassFile

structure Options where
  className : String := "Program"
  version : String := "49.0"
  deriving DecidableEq, Repr

end ClassCompiler
