import Docweave.Datum
import Docweave.Element.Path
import Docweave.Tree.Lines

namespace Docweave.Tree

open Text Element

structure Gathering where
  mark : Option String := some "part"
  comment : String := "comment"
  lines : String := "lines"

def openComment (g : Gathering) (line : Element) : Element :=
  let e := ({ tag := g.comment } : Element).set? "lineFirst" (line.attribute? "number")
  copyAttributes ["source"] line e

def closeComment (g : Gathering) (comment : Element) (lines : List Element) : Element :=
  { comment with children := [{ tag := g.lines, children := lines }] }

def gatherFrom (g : Gathering) : Option (Element × List Element) → List Element → List Element
  | none, [] => []
  | some (comment, lines), [] => [closeComment g comment lines]
  | current, e :: rest =>
      match g.mark.bind e.value? with
      | some role =>
          let (comment, lines) := current.getD (openComment g e, [])
          let lines := lines ++ [e]
          if role = .text "finish" then closeComment g comment lines :: gatherFrom g none rest
          else gatherFrom g (some (comment, lines)) rest
      | none =>
          match current with
          | none => e :: gatherFrom g none rest
          | some (comment, lines) => closeComment g comment lines :: e :: gatherFrom g none rest

def gatherComments (g : Gathering) (es : List Element) : List Element := gatherFrom g none es

def textLength (e : Element) : Nat := (e.text.getD "").length

def marks (line : Element) : Except Fault (Element × Element × Element × List Element) :=
  match line.children with
  | a :: b :: c :: rest => .ok (a, b, c, rest)
  | _ => .error (.tooFew "parts of line")

def isContinued (line : Element) : Bool := line.value? "part" == some (.text "continue")

def shuffleLine (indentStart : Nat) (line : Element) : Except Fault Element := do
  let (indent, symbol, margin, rest) ← marks line
  let chars := (indent.text.getD "").toList
  let kept := indentStart + 1
  let surplus := String.ofList (chars.drop kept)
  let moved := [surplus, symbol.text.getD "", margin.text.getD "", margin.tail.getD ""]
  let indent :=
    if kept < chars.length then { indent with text := some (String.ofList (chars.take kept)) }
    else indent
  let line := line.set "shuffles" (Datum.tuple (moved.map .text)).quoted
  return { line with
    children := indent :: { symbol with text := none }
      :: { margin with text := none, tail := some (String.join moved) } :: rest }

def isSpaceOnly (line : Element) : Except Fault Bool := do
  let (_, symbol, margin, _) ← marks line
  return textLength symbol == 0 && (margin.tail.getD "").toList.all (· == ' ')

structure Indents where
  lines : List Element
  allInPlace : Bool
  found : Option Nat

def Indents.cons (line : Element) (i : Indents) : Indents := { i with lines := line :: i.lines }

def checkIndents (allHaveSymbol : Bool) (indentStart : Nat) :
    Option Nat → List Element → Except Fault Indents
  | found, [] => .ok ⟨[], true, found⟩
  | found, line :: lines => do
      if !isContinued line then
        return (← checkIndents allHaveSymbol indentStart found lines).cons line
      if ← pure !allHaveSymbol <&&> isSpaceOnly line then
        return (← checkIndents allHaveSymbol indentStart found lines).cons
          (line.set "spaceOnly" "continue")
      let some indent := line.children.head? | throw (.tooFew "parts of line")
      let n := textLength indent
      match found with
      | none =>
          if n = indentStart ∨ n = indentStart + 1 then
            return (← checkIndents allHaveSymbol indentStart (some n) lines).cons line
          else return ⟨line :: lines, false, none⟩
      | some m =>
          if n = m then return (← checkIndents allHaveSymbol indentStart found lines).cons line
          else return ⟨line :: lines, false, found⟩

def lastNumber (lines : Element) : Option String :=
  ((lines.descendants.filter (·.has "number")).getLast?).bind (·.attribute? "number")

def settleLines (comment lines : Element) : Except Fault (Element × Element) := do
  let some indent := lines.descendants.find? (·.tag == "indent")
    | throw (.noIndent (← comment.xml))
  let indentStart := textLength indent
  let allHaveSymbol := !lines.descendants.any fun e => e.tag == "symbol" && e.joinedText == ""
  let shuffled ← if allHaveSymbol then pure lines.children
    else lines.children.mapM fun line =>
      if isContinued line then shuffleLine indentStart line else .ok line
  let indents ← checkIndents allHaveSymbol indentStart none shuffled
  let lines := { lines with children := indents.lines }
  let comment := comment.set "indentStart" (toString indentStart)
  let comment := comment.set "allHaveSymbol" (isTrue allHaveSymbol)
  let comment := comment.set "allIndentedOK" (isTrue indents.allInPlace)
  let comment := match indents.found with
    | some n => comment.set "indentContinue" (toString n)
    | none => comment
  let last := (lastNumber lines).orElse fun _ => comment.attribute? "lineFirst"
  return (comment.set? "lineLast" last, lines)

def childIndex? (tag : String) (e : Element) : Option Nat := e.children.findIdx? (·.tag == tag)

def settleComment (tagLines : String) (e : Element) : Except Fault Element := do
  match (childIndex? tagLines e).bind fun i => (e.children[i]?).map (i, ·) with
  | none => return e
  | some (i, lines) =>
      let (e, lines) ← settleLines e lines
      return { e with children := e.children.set i lines }

def extracted (name : String) (e : Element) : Except Fault (Option String) :=
  match e.value? name with
  | some (.text "text") => .ok e.text
  | some (.text "tail") => .ok e.tail
  | some (.text "tag") => .ok (some e.tag)
  | some (.text "attrib") => .error (.missing "text")
  | some (.text _) => .error (.unfit "part of element")
  | _ => .error (.missing "part of element")

def extraction (name : String) (e : Element) : Except Fault (Option (List String)) := do
  let givers := e.descendants.filter (·.has name)
  if givers.isEmpty then return none
  let texts ← givers.mapM (extracted name)
  return some (texts.filterMap id)

def extract (name tag : String) (e : Element) : Except Fault Element := do
  match ← extraction name e with
  | none => return e
  | some texts => return e.append { tag, text := some (String.join texts) }

def partText (role tag : String) (e : Element) : Except Fault String :=
  match e.first? [.anyBelow, .keep (.equals "part" role), .child tag] with
  | some found => .ok (found.text.getD "")
  | none => .error (.unfit "part of comment")

def replacement (comment : Element) (path : Option String) (fragment : String) :
    Except Fault String := do
  let indent ← partText "start" "indent" comment
  let symbol ← partText "start" "symbol" comment
  let margin ← partText "start" "margin" comment
  let ending ← partText "start" "eol" comment
  let lastIndent ← partText "finish" "indent" comment
  let lastSymbol ← partText "finish" "symbol" comment
  let some path := path | throw (.missing "path")
  return indent ++ symbol ++ margin ++ "[doc://" ++ path ++ "#" ++ fragment ++ "]" ++ ending
    ++ lastIndent ++ lastSymbol

def dropStage (tag : String) (e : Element) : Element :=
  match childIndex? tag e with
  | some i => e.eraseAt i
  | none => e

def fileElement (tag path : String) (es : List Element) : Element :=
  { tag, attributes := [("path", .text path)], children := es }

end Docweave.Tree
