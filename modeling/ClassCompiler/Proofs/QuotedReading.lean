import ClassCompiler.Instruction

/-! Quoted texts read back. A reader goes through a text from behind the opening quote. It takes a
backslash and the mark behind it for one character and stops at the first quote that is not marked.
What it has read when it comes to the closing quote is the text that was quoted. -/
namespace ClassCompiler
namespace Quoted

def unmark? : Char → Option Char
  | '"' => some '"'
  | '\\' => some '\\'
  | 'n' => some '\n'
  | 't' => some '\t'
  | 'r' => some '\r'
  | _ => none

/-- The text up to the quote that ends it, and what stands behind that quote. The reader is `marked`
when it has just passed a backslash; it gives up at an unknown mark and at the end of the input. -/
def scan : (marked : Bool) → List Char → Option (List Char × List Char)
  | _, [] => none
  | true, m :: rest =>
    (unmark? m).bind fun c => (scan false rest).map fun read => (c :: read.1, read.2)
  | false, c :: rest =>
    if c = '"' then some ([], rest)
    else if c = '\\' then scan true rest
    else (scan false rest).map fun read => (c :: read.1, read.2)

theorem unmarkMark {c m : Char} (marked : mark? c = some m) : unmark? m = some c := by
  unfold mark? at marked
  split at marked <;> cases marked <;> rfl

theorem scanEscapeChar (c : Char) (rest : List Char) :
    scan false (escapeChar c ++ rest) =
      (scan false rest).map fun read => (c :: read.1, read.2) := by
  unfold escapeChar
  cases marked : mark? c with
  | some m => simp [scan, unmarkMark marked]
  | none =>
    have noQuote : c ≠ '"' := by
      rintro rfl
      cases marked
    have noBackslash : c ≠ '\\' := by
      rintro rfl
      cases marked
    simp [scan, noQuote, noBackslash]

theorem scanEscape (s rest : List Char) : scan false (escape s ++ '"' :: rest) = some (s, rest) := by
  induction s with
  | nil => simp [scan]
  | cons c s ih => rw [escapeCons, List.append_assoc, scanEscapeChar, ih]; rfl

theorem escapeInjective {s t : List Char} (same : escape s = escape t) : s = t := by
  have read := scanEscape s []
  rw [same, scanEscape] at read
  exact (congrArg Prod.fst (Option.some.inj read)).symm

def breaks : List Char := ['\n', '\r', '\t']

theorem breakMarked {b : Char} (broken : b ∈ breaks) :
    (mark? b).isSome = true ∧ unmark? b = none ∧ b ≠ '\\' ∧ b ≠ '"' := by
  simp only [breaks, List.mem_cons, List.not_mem_nil, or_false] at broken
  rcases broken with rfl | rfl | rfl <;> exact ⟨rfl, rfl, by decide, by decide⟩

theorem escapeCharUnbroken {b : Char} (broken : b ∈ breaks) (c : Char) : b ∉ escapeChar c := by
  obtain ⟨needsMark, noMark, noBackslash, _⟩ := breakMarked broken
  intro inside
  unfold escapeChar at inside
  cases marked : mark? c with
  | some m =>
    have mark : b = m := by simpa [marked, noBackslash] using inside
    have read := unmarkMark marked
    rw [← mark, noMark] at read
    cases read
  | none =>
    have itself : b = c := by simpa [marked] using inside
    rw [itself, marked] at needsMark
    cases needsMark

theorem escapeUnbroken {b : Char} (broken : b ∈ breaks) (s : List Char) : b ∉ escape s := by
  intro inside
  obtain ⟨c, _, here⟩ := List.mem_flatMap.mp inside
  exact escapeCharUnbroken broken c here

theorem quoteChars (s : String) : (quote s).toList = '"' :: (escape s.toList ++ ['"']) := by
  simp [quote]

theorem quoteUnbroken {b : Char} (broken : b ∈ breaks) (s : String) : b ∉ (quote s).toList := by
  obtain ⟨_, _, _, noQuote⟩ := breakMarked broken
  simp [quoteChars, noQuote, escapeUnbroken broken s.toList]

theorem quoteInjective {s t : String} (same : quote s = quote t) : s = t := by
  have bodies : escape s.toList ++ ['"'] = escape t.toList ++ ['"'] := by
    have texts := congrArg String.toList same
    rw [quoteChars, quoteChars] at texts
    exact (List.cons.inj texts).2
  exact String.toList_inj.mp (escapeInjective (List.append_cancel_right bodies))

-- A backslash before a quote, and one before an `n` at the end.
example : scan false (escape ['\\', '"', '\\', 'n'] ++ ['"', ';']) =
    some (['\\', '"', '\\', 'n'], [';']) := by decide

end Quoted

theorem Instruction.ldcUnbroken {b : Char} (broken : b ∈ Quoted.breaks) {constant : Constant}
    (plain : b ∉ constant.text.toList) : b ∉ (Instruction.ldc constant).text.toList := by
  have line : (Instruction.ldc constant).text = "ldc " ++ constant.text := rfl
  simp only [Quoted.breaks, List.mem_cons, List.not_mem_nil, or_false] at broken
  rcases broken with rfl | rfl | rfl <;> simp [line, plain]

/-- The text of a string constant is read back as the string, up to its very last character. It stays
on one line, and it belongs to no other string. -/
theorem Constant.stringReadBack (s : String) :
    (∃ body, (Constant.string s).text.toList = '"' :: (body ++ ['"']) ∧
      Quoted.scan false (body ++ ['"']) = some (s.toList, [])) ∧
    (∀ b ∈ ['\n', '\r', '\t'], b ∉ (Constant.string s).text.toList ∧
      b ∉ (Instruction.ldc (.string s)).text.toList) ∧
    ∀ t, t ≠ s → (Constant.string t).text ≠ (Constant.string s).text := by
  refine ⟨⟨Quoted.escape s.toList, Quoted.quoteChars s, Quoted.scanEscape s.toList []⟩,
    fun b broken => ?_, fun t other same => other (Quoted.quoteInjective same)⟩
  have plain := Quoted.quoteUnbroken broken s
  exact ⟨plain, Instruction.ldcUnbroken broken plain⟩

end ClassCompiler
