import Docweave.Comment.Line
import Docweave.Stream
import Docweave.Text.Tabs

namespace Docweave.Comment

inductive Scanned where
  | code (line : SourceLine)
  | comment (line : Line)
  deriving DecidableEq, Repr

inductive Note where
  | printed (text : String)
  | read (item : Scanned)

def openLine (number : Int) (text : String) : Except Fault (Option (Line × Found)) :=
  match opening.search text with
  | none => .ok none
  | some f => (Line.ofFound number .start opening f).map fun l => some (l, f)

def closeLine (number : Int) (text : String) : Except Fault (Option (Line × Found)) :=
  match closing.search text with
  | none => .ok none
  | some f => (Line.ofFound number .finish closing f).map fun l => some (l, f)

def continueLine (number : Int) (text : String) : Except Fault (Option (Line × Found)) :=
  if text = "" then .ok none
  else
    match continuation.search text with
    | none => .ok none
    | some f => (Line.ofFound number .middle continuation f).map fun l =>
        some (l.setTextEnd (some f.afterText), f)

structure Explain where
  verbose : Bool

namespace Explain

def tell (e : Explain) (text : String) : List Note :=
  if e.verbose then [.printed text] else []

def found (e : Explain) (title : String) (rule : Rule) (f : Found) (l : Line) :
    Except Fault (List Note) :=
  if e.verbose then do
    let dump ← rule.dump f
    return [.printed s!"{title} {dump}\n    {l.quoted}\n"]
  else .ok []

end Explain

structure Scan where
  notes : List Note
  inComment : Bool
  fault : Option Fault := none

namespace Scan

def failed (notes : List Note) (fault : Fault) : Scan := ⟨notes, false, some fault⟩

def before (notes : List Note) (s : Scan) : Scan := { s with notes := notes ++ s.notes }

end Scan

inductive Body where
  | opened (line : Line)
  | inside
  deriving DecidableEq, Repr

def bodyLine (e : Explain) (number : Int) (text : String) :
    Body → Except Fault (Option Line × List Note)
  | .opened l =>
      let l := l.setTextEnd (some text)
      .ok (some l, e.tell s!"with text\n    {l.quoted}\n")
  | .inside => do
      match ← continueLine number text with
      | none => return (none, [])
      | some (l, f) => return (some l, ← e.found "commentContinue" continuation f l)

def optionNotes : Option Line → List Note
  | none => []
  | some l => [.read (.comment l)]

def finishNote (number : Int) (used : Bool) (text after : String) : String :=
  let left := if used then "None" else (SourceLine.of number text).quoted
  s!"Finish analysis {left} {(SourceLine.of number after).quoted}\n"

mutual

def scanOutside (e : Explain) (number : Int) : Nat → String → Scan
  | 0, _ => ⟨[], false, none⟩
  | fuel + 1, text =>
      match openLine number text with
      | .error fault => .failed [] fault
      | .ok none =>
          ⟨if text = "" then [] else [.read (.code (.of number text))], false, none⟩
      | .ok (some (l, f)) =>
          match e.found "commentStart" opening f l with
          | .error fault => .failed [] fault
          | .ok notes => (scanInside e number fuel f.afterText (.opened l)).before notes

def scanInside (e : Explain) (number : Int) : Nat → String → Body → Scan
  | 0, _, _ => ⟨[], true, none⟩
  | fuel + 1, text, body =>
      match closeLine number text with
      | .error fault => .failed [] fault
      | .ok none =>
          match bodyLine e number text body with
          | .error fault => .failed [] fault
          | .ok (none, _) => .failed [] (.unmatchedLine (SourceLine.of number text).quoted)
          | .ok (some l, notes) => ⟨notes ++ [.read (.comment l)], true, none⟩
      | .ok (some (finish, f)) =>
          match e.found "commentFinish" closing f finish with
          | .error fault => .failed [] fault
          | .ok closeNotes =>
              match bodyLine e number f.beforeText body with
              | .error fault => .failed closeNotes fault
              | .ok (l?, notes) =>
                  (scanOutside e number fuel f.afterText).before
                    (closeNotes ++ notes ++ optionNotes l? ++ [.read (.comment finish)]
                      ++ e.tell (finishNote number l?.isSome f.beforeText f.afterText))

end

def scanLine (e : Explain) (number : Int) (inComment : Bool) (text : String) : Scan :=
  let fuel := text.length + 2
  let scan :=
    if inComment then scanInside e number fuel text .inside else scanOutside e number fuel text
  scan.before (e.tell ((SourceLine.of number text).quoted ++ "\n"))

def scanLines (e : Explain) : Bool → List (Int × String) → Scan
  | inComment, [] => ⟨[], inComment, none⟩
  | inComment, (number, text) :: lines =>
      let scan := scanLine e number inComment text
      match scan.fault with
      | some _ => scan
      | none => (scanLines e scan.inComment lines).before scan.notes

namespace Scan

def items (s : Scan) : List Scanned :=
  s.notes.filterMap fun
    | .read item => some item
    | .printed _ => none

def printed (s : Scan) : String :=
  String.join (s.notes.filterMap fun
    | .read _ => none
    | .printed text => some text)

def stream (s : Scan) : Stream Scanned := ⟨s.items, s.fault⟩

end Scan

def numbered (lines : List String) : List (Int × String) :=
  (List.range lines.length).map (fun (n : Nat) => (n : Int) + 1) |>.zip lines

def readLines (tabSize : Int) (text : String) : List String :=
  (Text.fileLines (String.ofList (Text.normalizeNewlines text.toList))).map
    (Text.expandTabs tabSize)

def scan (verbose : Bool) (lines : List String) : Scan :=
  scanLines ⟨verbose⟩ false (numbered lines)

end Docweave.Comment
