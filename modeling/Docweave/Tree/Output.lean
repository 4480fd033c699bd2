import Docweave.Command
import Docweave.Path
import Docweave.Text.Fill
import Docweave.Text.Lowercase
import Docweave.Text.Number
import Docweave.Tree.Comments
import Docweave.Tree.Lift

namespace Docweave.Tree

open Element Text

def Edition.pieceTag : Edition → String
  | .final => "output"
  | .draft => "print"

def piece (d : Edition) (text : Option String) (attributes : List (String × String)) : Element :=
  { tag := d.pieceTag, attributes := attributes.map fun (k, v) => (k, .text v), text }

def collapse (s : String) : String :=
  String.ofList ((Pattern.many1 isBlank).replaceAll (fun _ => [' ']) s.toList)

def textPieces (d : Edition) (indentWidth : Int) (e : Element) : List Element :=
  match e.text with
  | none => []
  | some text =>
      let out :=
        if e.has "verbatim" then copyAttributes ["verbatim"] e (piece d (some text) [])
        else piece d (some (collapse text)) []
      [if e.attribute? "verbatim" = some "block" then out.set "indentFixed" (toString indentWidth)
        else out]

def memberMark (indentWidth : Int) (ordered : Bool) (index : Nat) : Except Fault String :=
  let mark := if ordered then s!"{index + 1}." else "-"
  if indentWidth < 0 then .error .negativeIndent
  else .ok (mark ++ spacesInt (indentWidth - mark.length))

def transition (d : Edition) (last : Option String) (child : Element) :
    Option String × List Element :=
  let layout := child.attribute? "layout"
  if last = some "span" ∧ layout = none then (none, [piece d none [("newlines", "1")]])
  else if layout = some "marker" then (last, [])
  else (layout, [])

def countToLast (children : List Element) : Nat :=
  (children.reverse.dropWhile (·.tag == "doc")).length

def headerPieces (d : Edition) (e : Element) : Except Fault (List Element) := do
  match e.attribute? "level" with
  | none => return []
  | some level =>
      let n ← whole level
      return List.replicate n.toNat (piece d (some "#") []) ++ [piece d (some " ") []]

def orderOf (e : Element) : Option Bool :=
  (e.attribute? "ordered").map fun s => lower s == "true"

mutual

def pieces (d : Edition) (indentWidth : Int) : Element → Stream Element
  | ⟨tag, attributes, text, tail, children⟩ =>
      let e : Element := ⟨tag, attributes, text, tail, children⟩
      let wrap := (e.attribute? "wrap").map fun s => piece d (some s) []
      let inside := childPieces d indentWidth (orderOf e) (countToLast children) 0 none children
      ((Stream.ofList wrap.toList).append (.ofExcept (headerPieces d e))).append
        ((Stream.ofList (textPieces d indentWidth e)).append (inside.append (.ofList wrap.toList)))

def childPieces (d : Edition) (indentWidth : Int) (order : Option Bool) (count : Nat) :
    Nat → Option String → List Element → Stream Element
  | _, _, [] => .nil
  | index, last, child :: rest =>
      let mark : Except Fault (List Element) := match order with
        | some ordered => do
            let mark ← memberMark indentWidth ordered index
            return [piece d (some mark) [("indent", toString indentWidth)]]
        | none => return []
      let (last, change) := transition d last child
      let unmark := match order with
        | some _ => [piece d none [("indent", toString (0 - indentWidth))]]
        | none => []
      let newlines :=
        if index + 1 < count then
          match child.attribute? "newlines" with
          | some n => [piece d none [("newlines", n)]]
          | none => []
        else []
      (((Stream.ofExcept mark).append (.ofList change)).append (pieces d indentWidth child)).append
        ((Stream.ofList (unmark ++ newlines)).append
          (childPieces d indentWidth order count (index + 1) last rest))

end

def addPieces (indentWidth : Int) (e : Element) : Except Fault Element := do
  match e.children.find? (·.tag == "markdown") with
  | none => return e
  | some markdown =>
      let made ← (pieces .final indentWidth markdown).toExcept
      return e.append { tag := "outputs", children := made }

structure Layout where
  done : List Element := []
  indent : Int := 0
  hanging : Int := 0
  texts : List String := []
  split : Option Value := none
  tag : Option String := none

namespace Layout

def verbatim (d : Edition) (l : Layout) (tag text : String) (e : Element) :
    Except Fault Layout := do
  if !l.texts.isEmpty then
    match d with
    | .final => throw (.undefined "text of element")
    | .draft =>
        throw (.verbatimInLine (Datum.list (l.texts.map .text)).quoted (← e.xml))
  let width ← match e.attribute? "indentFixed" with
    | none => pure 0
    | some s => whole s
  let lines := (displayLines text.toList).map fun line =>
    if line.whole.all isBlank then line.whole else (spacesInt width).toList ++ line.whole
  let elements := lines.map fun line =>
    copyAttributes ["verbatim"] e
      { tag, attributes := [("bareLine", .text (isTrue true))], text := some (String.ofList line) }
  return { l with done := l.done ++ elements }

def newline (tag : String) (l : Layout) : Layout :=
  let attributes := (l.split.map fun v => ("split", v)).toList
    ++ [("hanging", .text (toString l.hanging))]
  { l with
    done := l.done ++ [{ tag, attributes, text := some (String.join l.texts) }]
    texts := if l.indent > 0 then [spacesInt l.indent] else []
    hanging := l.indent
    split := none }

def newlines (tag : String) : Nat → Layout → Layout
  | 0, l => l
  | n + 1, l => newlines tag n (newline tag l)

def add (d : Edition) (l : Layout) (e : Element) : Except Fault Layout := do
  let tag := l.tag.getD e.tag
  let l := { l with tag := some tag }
  let l ← match e.attribute? "indent" with
    | none => pure l
    | some change => do
        let indent := l.indent + (← whole change)
        pure { l with indent, hanging := max l.hanging indent }
  let l := match e.value? "split" with
    | some v => { l with split := some v }
    | none => l
  let l ← match e.text with
    | none => pure l
    | some text =>
        if e.has "verbatim" then l.verbatim d tag text e
        else pure { l with texts := l.texts ++ [text] }
  match e.attribute? "newlines" with
  | none => return l
  | some n => return l.newlines tag (← whole n).toNat

def close (l : Layout) : List Element :=
  match l.tag with
  | some tag =>
      if l.texts.isEmpty then l.done
      else
        let attributes := [("hanging", .text (toString l.hanging)), ("bareLine", .text (isTrue true))]
        l.done ++ [{ tag, attributes, text := some (String.join l.texts) }]
  | none => l.done

end Layout

def layOutFrom (d : Edition) : Layout → List Element → Option Fault → Stream Element
  | l, [], none => .ofList l.close
  | l, [], some fault => ⟨l.done, some fault⟩
  | l, e :: es, fault =>
      match l.add d e with
      | .ok l => layOutFrom d l es fault
      | .error fault => ⟨l.done, some fault⟩

def logicalLines (d : Edition) (es : Stream Element) : Stream Element :=
  layOutFrom d {} es.items es.fault

def layOut (e : Element) : Except Fault Element := do
  match childIndex? "outputs" e with
  | none => return e
  | some i =>
      let made := ((e.children[i]?).map Element.children).getD []
      let lines ← (logicalLines .final (.ofList made)).toExcept
      return { e with children := e.children.modify i fun c => { c with children := lines } }

def position (cs : List Char) (n : Int) : Nat :=
  if n < 0 then ((cs.length : Int) + n).toNat else n.toNat

def respellLine (dialect : Dialect) (e : Element) : Except Fault (Element × Option Int) := do
  match e.attribute? "hanging" with
  | none => return (e, none)
  | some s =>
      let hanging ← whole s
      let some text := e.text | throw (.missing "text")
      let cs := text.toList
      let at' := position cs hanging
      let rest := String.ofList (cs.drop at')
      match Command.parse? rest with
      | none =>
          let warning : Element :=
            { tag := "warning", text := some "Warning: Apparent unrecognised at-command" }
          return (if cs.head? = some '@' then e.insert 0 warning else e, some hanging)
      | some leading =>
          let labels := (Command.leading.inOrder leading.found).map Prod.fst
          let e := e.setValue "atGroups" (.names labels)
          match leading.command.lead dialect with
          | none => return (e, some hanging)
          | some lead =>
              let text := String.ofList (cs.take at') ++ lead ++ leading.found.afterText
              return ({ e.set "atPrefix" lead with text := some text },
                some (hanging + lead.length))

structure Written where
  texts : List String
  lines : List Element
  fault : Option Fault := none

def fillLine (width : Option Int) (start text : String) (hanging : Int) :
    Except Fault (List String) := do
  let some width := width | throw (.missing "width")
  let subsequent := start ++ spacesInt hanging
  let filled ← fill width subsequent (start ++ text)
  let filled := if filled.isEmpty then [""] else filled
  return (filled.map fun line => if line.length < subsequent.length then subsequent else line).intersperse
    "\n"

def writeLine (width : Option Int) (dialect : Dialect) (start : String) (e : Element) :
    Except Fault (Element × List String) := do
  let (e, hanging) ← respellLine dialect e
  let texts ← match hanging with
    | none => do
        let some text := e.text | throw (.missing "text")
        pure [start, text]
    | some n => fillLine width start (e.text.getD "") n
  return (e, texts ++ if e.has "bareLine" then [] else ["\n"])

def writeLinesFrom (width : Option Int) (dialect : Dialect) (next : String) :
    String → List Element → Option Fault → Written
  | _, [], fault => ⟨[], [], fault⟩
  | start, e :: es, fault =>
      match writeLine width dialect start e with
      | .error fault => ⟨[], [], some fault⟩
      | .ok (e, texts) =>
          let rest := writeLinesFrom width dialect next next es fault
          ⟨texts ++ rest.texts, e :: rest.lines, rest.fault⟩

def standing (d : Edition) (comment : Element) : Except Fault (Dialect × Int) := do
  let some source := comment.attribute? "source"
    | throw (match d with
        | .final => .undefined "text of element"
        | .draft => .missing "source")
  let isSwift := lower (Path.Simple.of source).suffix == ".swift"
  let indent ← wholeOf "indent" (comment.attribute? "indentStart")
  return (if isSwift then .swift else .plain, indent)

def writeComment (d : Edition) (width : Option Int) (comment : Element) (lines : Stream Element) :
    Written :=
  match standing d comment with
  | .error fault => ⟨[], [], some fault⟩
  | .ok (dialect, indent) =>
      let next := spacesInt (indent + 1) ++ if dialect.isSwift then "" else "* "
      let opening := spacesInt indent ++ "/**" ++ if dialect.isSwift then "\n" else " "
      let (before, start) := if dialect.isSwift then ([opening], next) else ([], opening)
      let written := writeLinesFrom width dialect next start lines.items lines.fault
      let alone := if lines.items.isEmpty && !dialect.isSwift then [opening] else []
      let closing := alone ++ ["\n", spacesInt (indent + 1), "*/"]
      { written with
        texts := before ++ written.texts ++ if written.fault.isSome then [] else closing }

def writeElement (width : Option Int) (e : Element) : Except Fault (Element × String) := do
  match childIndex? "outputs" e with
  | none =>
      let some text := e.text | throw (.missing "text")
      return (e, text)
  | some i =>
      let lines := ((e.children[i]?).map Element.children).getD []
      let written := writeComment .final width e (.ofList lines)
      match written.fault with
      | some fault => throw fault
      | none =>
          let e := { e with children := e.children.modify i fun c =>
            { c with children := written.lines } }
          return (e, String.join written.texts)

def writeDraft (width : Option Int) (e : Element) : Element × Stream String :=
  if e.tag = "line" then
    match e.text with
    | some text => (e, ⟨[text], none⟩)
    | none => (e, .failed (.missing "text"))
  else
    match e.children.find? (·.tag == "markdown") with
    | none => (e, .failed (.undefined "element"))
    | some markdown =>
        let lines := logicalLines .draft (pieces .draft 4 markdown)
        let written := writeComment .draft width e lines
        (e.insert 0 { tag := "prints", children := written.lines }, ⟨written.texts, written.fault⟩)

end Docweave.Tree
