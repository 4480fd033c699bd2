import Docweave.Comment.Marks
import Docweave.Pattern.Dump

namespace Docweave.Comment

open Text

inductive Part where
  | start
  | middle
  | finish
  deriving DecidableEq, Repr

namespace Part

def name : Part → String
  | start => "START"
  | middle => "CONTINUE"
  | finish => "FINISH"

def ofName? (s : String) : Option Part := [start, middle, finish].find? (·.name == s)

end Part

structure Line where
  number : Option Int := none
  indent : Option Int := none
  symbol : Option String := none
  margin : Option Int := none
  text : Option String := none
  ending : Option String := none
  part : Option Part := none
  deriving DecidableEq, Repr

namespace Line

def datum (l : Line) : Datum :=
  .record (List.filterMap (fun (name, value) => value.map (name, ·))
    [("lineNumber", l.number.map .int), ("indent", l.indent.map .int),
      ("symbol", l.symbol.map .text), ("margin", l.margin.map .int), ("text", l.text.map .text),
      ("eol", l.ending.map .text), ("lineType", l.part.map fun p => .text p.name)])

def quoted (l : Line) : String := l.datum.quoted

def indentText (l : Line) : Option String := l.indent.map spacesInt

def marginText (l : Line) : Option String := l.margin.map spacesInt

def countSpaces (field text : String) : Except Fault Int :=
  if text.toList.all (· == ' ') then .ok text.length
  else do
    let _ ← quotedBytes text
    .error (.notSpaces field text)

def setIndentText (l : Line) : Option String → Except Fault Line
  | none => .ok { l with indent := none }
  | some text => (countSpaces "indentStr" text).map fun n => { l with indent := some n }

def setMarginText (l : Line) : Option String → Except Fault Line
  | none => .ok { l with margin := none }
  | some text => (countSpaces "marginStr" text).map fun n => { l with margin := some n }

def textEnd (l : Line) : Option String :=
  if l.text.isNone && l.ending.isNone then none
  else some (l.text.getD "" ++ l.ending.getD "")

def cutEnding (s : String) : String × String :=
  match lineEnding.search s with
  | some f => (f.beforeText, String.ofList (f.matched ++ f.after))
  | none => (s, "")

def setTextEnd (l : Line) : Option String → Line
  | none => { l with text := none, ending := none }
  | some s => { l with text := some (cutEnding s).1, ending := some (cutEnding s).2 }

def setPart (l : Line) : Option Part → Except Fault Line
  | some p => .ok { l with part := some p }
  | none => .error .partExpected

def readSpaces (g : Groups) (head : String) (set : Line → Option String → Except Fault Line)
    (l : Line) : Except Fault Line :=
  match g.first head with
  | none => .ok l
  | some (_, value) =>
      match set l (some value) with
      | .ok l' => .ok l'
      | .error fault =>
          match g.dump with
          | .ok dump => .error (.wrongGroups dump fault)
          | .error fault' => .error fault'

def readGroups (l : Line) (g : Groups) : Line × Option Fault :=
  let l := match g.first "symbol" with
    | some (_, symbol) => { l with symbol := some symbol }
    | none => l
  match readSpaces g "indent" setIndentText l with
  | .error fault => (l, some fault)
  | .ok l =>
      match readSpaces g "margin" setMarginText l with
      | .error fault => (l, some fault)
      | .ok l => (l, none)

def ofGroups (number : Option Int) (g : Groups) : Except Fault Line :=
  match ({ number } : Line).readGroups g with
  | (l, none) => .ok l
  | (_, some fault) => .error fault

def ofFound (number : Int) (part : Part) (rule : Rule) (f : Found) : Except Fault Line :=
  (ofGroups (some number) (.found rule f)).map fun l => { l with part := some part }

def jsonList (lines : List (Option Line)) : Except Fault String := do
  let entries ← lines.mapM fun l? =>
    match l? with
    | some l => Except.ok l.datum
    | none => .error (.missing "JSON form")
  return (Datum.list entries).json .line

end Line

structure SourceLine where
  number : Option Int := none
  text : Option String := none
  deriving DecidableEq, Repr

namespace SourceLine

def of (number : Int) (text : String) : SourceLine := ⟨some number, some text⟩

def quoted (l : SourceLine) : String :=
  (Datum.tuple [.ofInt? l.number, .ofText? l.text]).quoted

def outputs (l : SourceLine) : List (Option String) := [l.text]

end SourceLine

end Docweave.Comment
