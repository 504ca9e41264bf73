import ClassCompiler.Code
import ClassCompiler.RuleCheck

/-!
From a program to its class, or to the reasons why there is none.
-/
namespace ClassCompiler.Program

def analyze (p : Program NodeId) : Except Failure Analysis :=
  let checked := ((({} : Analysis).declareMethods p).annotate p).check p
  match checked.1 with
  | .ok () => .ok checked.2
  | .error failure => .error failure

def compile (p : Program NodeId) (options : Options) : Except Failure ClassFile :=
  match p.analyze with
  | .ok a =>
    match a.generate options p with
    | .ok c => .ok c
    | .error fault => .error (.fault fault)
  | .error failure => .error failure

end ClassCompiler.Program
