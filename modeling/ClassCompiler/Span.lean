/-!
Places in the program text. A span runs from its first position to its last, and the merge of two
spans is the least span around both.
-/
namespace ClassCompiler

structure Position where
  line : Nat := 0
  column : Nat := 0
  deriving DecidableEq, Repr

namespace Position

def before (a b : Position) : Bool :=
  a.line < b.line || (a.line == b.line && a.column < b.column)

def earlier (a b : Position) : Position := if b.before a then b else a

def later (a b : Position) : Position := if a.before b then b else a

end Position

structure Span where
  first : Position := {}
  last : Position := {}
  deriving DecidableEq, Repr

namespace Span

def ofCoordinates (line column endLine endColumn : Nat) : Span :=
  ⟨⟨line, column⟩, ⟨endLine, endColumn⟩⟩

def ofLines (startLine endLine : Nat) : Span := ofCoordinates startLine 1 endLine 1

def ofLine (line : Nat) : Span := ofLines line line

def merge (a b : Span) : Span := ⟨a.first.earlier b.first, a.last.later b.last⟩

def mergeAll : List Span → Option Span
  | [] => none
  | s :: rest => some (rest.foldl merge s)

def isSingleLine (s : Span) : Bool := s.first.line == s.last.line

def startText (s : Span) : String := s!"{s.first.line}:{s.first.column}"

def text (s : Span) : String :=
  s!"{s.first.line}:{s.first.column}-{s.last.line}:{s.last.column}"

end Span
end ClassCompiler
