import Docweave.Text.Class

namespace Docweave.Text

def normalizeNewlines : List Char → List Char
  | '\r' :: '\n' :: rest => '\n' :: normalizeNewlines rest
  | '\r' :: rest => '\n' :: normalizeNewlines rest
  | c :: rest => c :: normalizeNewlines rest
  | [] => []

theorem length_normalizeNewlines_le (cs : List Char) :
    (normalizeNewlines cs).length ≤ cs.length := by
  fun_induction normalizeNewlines cs with
  | case1 rest ih =>
      simp only [List.length_cons]
      omega
  | case2 rest _ ih => simpa using ih
  | case3 c rest _ _ ih => simpa using ih
  | case4 => simp

theorem normalizeNewlines_of_no_return {cs : List Char} (h : '\r' ∉ cs) :
    normalizeNewlines cs = cs := by
  fun_induction normalizeNewlines cs with
  | case1 => simp at h
  | case2 => simp at h
  | case3 c rest _ _ ih =>
      rw [List.mem_cons, not_or] at h
      rw [ih h.2]
  | case4 => rfl

def fileLinesFrom : List Char → List Char → List (List Char)
  | [], [] => []
  | line, [] => [line.reverse]
  | line, '\n' :: rest => ('\n' :: line).reverse :: fileLinesFrom [] rest
  | line, c :: rest => fileLinesFrom (c :: line) rest

def fileLines (s : String) : List String :=
  (fileLinesFrom [] s.toList).map String.ofList

theorem flatten_fileLinesFrom (line rest : List Char) :
    (fileLinesFrom line rest).flatten = line.reverse ++ rest := by
  fun_induction fileLinesFrom line rest <;> simp_all

theorem flatten_fileLines (cs : List Char) : (fileLinesFrom [] cs).flatten = cs := by
  simp [flatten_fileLinesFrom]

def isLineBreak (c : Char) : Bool :=
  inRanges c.toNat false [10, 14, 28, 31, 133, 134, 8232, 8234]

structure DisplayLine where
  body : List Char
  ending : List Char
  deriving DecidableEq, Repr

def DisplayLine.whole (l : DisplayLine) : List Char := l.body ++ l.ending

def displayLinesFrom : List Char → List Char → List DisplayLine
  | [], [] => []
  | line, [] => [⟨line.reverse, []⟩]
  | line, '\r' :: '\n' :: rest => ⟨line.reverse, ['\r', '\n']⟩ :: displayLinesFrom [] rest
  | line, c :: rest =>
      if isLineBreak c then ⟨line.reverse, [c]⟩ :: displayLinesFrom [] rest
      else displayLinesFrom (c :: line) rest

def displayLines (cs : List Char) : List DisplayLine := displayLinesFrom [] cs

theorem flatten_displayLinesFrom (line rest : List Char) :
    ((displayLinesFrom line rest).map DisplayLine.whole).flatten = line.reverse ++ rest := by
  fun_induction displayLinesFrom line rest <;> simp_all [DisplayLine.whole]

theorem flatten_displayLines (cs : List Char) :
    ((displayLines cs).map DisplayLine.whole).flatten = cs := by
  simp [displayLines, flatten_displayLinesFrom]

def dropEndWhile (p : Char → Bool) (cs : List Char) : List Char :=
  (cs.reverse.dropWhile p).reverse

def trim (cs : List Char) : List Char :=
  dropEndWhile isBlank (cs.dropWhile isBlank)

def isNewline (c : Char) : Bool := c == '\n' || c == '\r'

def dropNewlines (s : String) : String := String.ofList (s.toList.dropWhile isNewline)

def dropEndNewlines (s : String) : String := String.ofList (dropEndWhile isNewline s.toList)

def spaces (n : Nat) : String := String.ofList (List.replicate n ' ')

def spacesInt (n : Int) : String := spaces n.toNat

end Docweave.Text
