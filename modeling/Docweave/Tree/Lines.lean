import Docweave.Comment.Marks
import Docweave.Element.Xml
import Docweave.Stream
import Docweave.Text.Tabs

namespace Docweave.Tree

open Text Element

def lineElements (tag : String) (source : Option String) (lines : List String) : List Element :=
  lines.mapIdx fun i line =>
    { tag
      attributes := (source.map fun s => ("source", Value.text s)).toList
        ++ [("number", .text (toString (i + 1)))]
      text := some line }

def expandLine (tabSize : Int) (e : Element) : Except Fault Element := do
  let some text := e.text | .error (.unfit "text of line")
  let expanded := expandTabs tabSize text
  if expanded = text then return e
  else return { e.set "expandedTabSize" (toString tabSize) with text := some expanded }

def setTail (e : Element) (tail : Option String) : Except Fault Element := do
  if e.tail.isSome then throw (.tailInUse (← e.xml) (tail.getD "None"))
  return { e with tail }

def markOf (label : String) : Option Nat :=
  if label = "indent" then some 0
  else if "symbol".isPrefixOf label then some 1
  else if label = "margin" then some 2
  else none

structure Parting where
  children : List Element
  last : Option Nat := none
  head : String := ""
  cursor : Nat := 0

namespace Parting

def gap (p : Parting) (text : String) : Except Fault Parting :=
  match p.last with
  | none => .ok { p with head := p.head ++ text }
  | some i => do
      let children ← (p.children.mapIdx fun j c => (j, c)).mapM fun (j, c) =>
        if j = i then setTail c (some text) else .ok c
      return { p with children }

def capture (cs : List Char) (p : Parting) (label : String) (span : Span) : Except Fault Parting :=
  match markOf label with
  | none => .ok p
  | some i =>
      if span.start < p.cursor then .error .overlap
      else do
        let p ← p.gap (String.ofList (Found.slice cs ⟨p.cursor, span.start⟩))
        let inside := Found.slice cs span
        let fill (c : Element) : Element :=
          if inside.isEmpty then c else { c with text := some (String.ofList inside) }
        return { p with children := p.children.modify i fill, last := some i, cursor := span.stop }

end Parting

structure Parted where
  rest : Element
  parts : Element

def part (rule : Rule) (role : String) (e : Element) : Except Fault (Option Parted) := do
  let some text := e.text | .error (.missing "text of line")
  let cs := text.toList
  match rule.pattern.search cs with
  | none => return none
  | some f =>
      let spans := rule.inOrder f
      let blank : Parting :=
        { children := [{ tag := "indent" }, { tag := "symbol" }, { tag := "margin" }] }
      let p ← spans.foldlM (fun (p : Parting) s => p.capture cs s.1 s.2) blank
      let transcript := " ".intercalate (("groups:" ++ ",".intercalate (spans.map Prod.fst))
        :: spans.map fun (label, s) => s!"{label}:{s.start},{s.stop}")
      let { children, .. } ← { p with last := some 2 }.gap (String.ofList (cs.drop p.cursor))
      let children := children.modify 2 fun c => c.set "extract" "tail"
      let parts : Element := { tag := e.tag, children }
      let parts := copyAttributes ["number", "source"] e (parts.set "transcript" transcript)
      return some ⟨{ e with text := some p.head }, parts.set "part" role⟩

def lastTail (e : Element) : String := ((e.children.getLast?).bind Element.tail).getD ""

def setLastTail (e : Element) (tail : Option String) : Element :=
  { e with children := e.children.modify (e.children.length - 1) fun c => { c with tail } }

def restoreTail (e : Element) (tail : Option String) : Except Fault Element := do
  if ((e.children.getLast?).bind Element.tail).isSome then
    throw (.tailInUse (← e.xml) (tail.getD "None"))
  return setLastTail e tail

def cutLineEnd (e : Element) : Except Fault Element := do
  let cs := (lastTail e).toList
  let some f := Comment.lineEnding.pattern.search cs
    | throw (.leftover s!"Comment EOL pattern failed to match \"{← e.xml}\"")
  let ending : Element :=
    { tag := "eol", text := some (String.ofList (cs.drop f.before.length)),
      attributes := [("extract", .text "text")] }
  return (setLastTail e (some (String.ofList f.before))).append ending

def readBody : Option Element → Element → Except Fault (Option Element × Option String)
  | some parts, line => do
      let parts ← restoreTail parts line.text
      return (some (← cutLineEnd parts), some "")
  | none, line => do
      if line.text = some "" then return (none, line.text)
      match ← part Comment.continuation "continue" line with
      | none => return (none, line.text)
      | some p =>
          if p.rest.text ≠ some "" then
            throw (.leftover s!"Text not empty. line: {← p.rest.xml} continue: {← p.parts.xml}.")
          return (some (← cutLineEnd p.parts), p.rest.text)

structure LineRead where
  elements : List Element
  inComment : Bool

def LineRead.after (before : List Element) (r : LineRead) : LineRead :=
  { r with elements := before ++ r.elements }

mutual

def readOutside : Nat → Element → Except Fault LineRead
  | 0, _ => .ok ⟨[], false⟩
  | fuel + 1, line => do
      match ← part Comment.opening "start" line with
      | none =>
          if line.text = some "" then throw (.emptyLine (← line.xml))
          return ⟨[line], false⟩
      | some p =>
          readInside fuel (some (setLastTail p.parts none))
            { line with text := some (lastTail p.parts) }

def readInside : Nat → Option Element → Element → Except Fault LineRead
  | 0, _, _ => .ok ⟨[], true⟩
  | fuel + 1, opened, line => do
      let finish ← part Comment.closing "finish" line
      let line := (finish.map Parted.rest).getD line
      let (body, left) ← readBody opened line
      match finish with
      | none =>
          match body with
          | none => throw (.unmatchedElement (← line.xml))
          | some body => return ⟨[body], true⟩
      | some f =>
          if left ≠ some "" then
            throw (.leftover s!"Unused line at finish line: {← line.xml} finish: {← f.parts.xml}.")
          let rest := { line with text := some (lastTail f.parts) }
          let done := body.toList ++ [setLastTail f.parts none]
          if rest.text = some "" then return ⟨done, false⟩
          else return (← readOutside fuel rest).after done

end

def readLine (inComment : Bool) (line : Element) : Except Fault LineRead :=
  let fuel := (line.text.getD "").length + 2
  if inComment then readInside fuel none line else readOutside fuel line

def readFrom : Bool → List Element → Except Fault (List Element)
  | _, [] => .ok []
  | inComment, line :: lines => do
      let r ← readLine inComment line
      return r.elements ++ (← readFrom r.inComment lines)

def markComments (lines : List Element) : Except Fault (List Element) := readFrom false lines

def readLines (tabSize : Int) (source : String) (lines : Stream String) :
    Except Fault (List Element) := do
  let elements ← (lineElements "line" (some source) lines.items).mapM (expandLine tabSize)
  let marked ← markComments elements
  match lines.fault with
  | some fault => throw fault
  | none => return marked

end Docweave.Tree
