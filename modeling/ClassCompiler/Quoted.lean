/-!
Quoted texts. A text stands between quotes on one line: a quote, a backslash, a line feed, a tab
and a carriage return are written as a backslash and one more character, all else as it is.
-/
namespace ClassCompiler.Quoted

/-- What follows the backslash, for the characters that need one. -/
def mark? : Char → Option Char
  | '"' => some '"'
  | '\\' => some '\\'
  | '\n' => some 'n'
  | '\t' => some 't'
  | '\r' => some 'r'
  | _ => none

def escapeChar (c : Char) : List Char :=
  match mark? c with
  | some m => ['\\', m]
  | none => [c]

def escape (s : List Char) : List Char := s.flatMap escapeChar

def quote (s : String) : String := String.ofList ('"' :: (escape s.toList ++ ['"']))

@[simp] theorem escapeNil : escape [] = [] := rfl

@[simp] theorem escapeCons (c : Char) (s : List Char) :
    escape (c :: s) = escapeChar c ++ escape s := rfl

end ClassCompiler.Quoted
