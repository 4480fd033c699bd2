import Docweave.Comment.Scan
import Docweave.Item.Output
import Docweave.Item.Regroup
import Docweave.Path

namespace Docweave.Comment

open Text

structure Block where
  lines : List Line
  indentStart : Option Int
  indentMiddle : Option Int
  allHaveSymbol : Bool
  allIndented : Bool
  dialect : Dialect
  source : String
  items : Option (List Node) := none

namespace Block

def hasSymbol (l : Line) : Bool := !(l.symbol.getD "").isEmpty

def survey : Option Int → List Line → Except Fault (Option Int × Bool)
  | start, [] => .ok (start, true)
  | start, l :: ls => do
      let start ← match start with
        | some n => Except.ok (some n)
        | none =>
            if l.part = some .start then .ok l.indent
            else .error (.firstLineNotStart l.quoted)
      if hasSymbol l then survey start ls else return (start, false)

def excess (start : Option Int) (l : Line) : Except Fault Int :=
  match l.indent, start with
  | none, _ => .ok 0
  | some _, none => .error (.missing "indent of comment")
  | some n, some m => .ok (if n > m + 1 then n - (m + 1) else 0)

def shuffleLine (start : Option Int) (l : Line) : Except Fault Line :=
  if l.part ≠ some .middle then .ok l
  else do
    let extra ← excess start l
    let l := if extra > 0 then { l with indent := l.indent.map (· - extra) } else l
    if extra = 0 && !hasSymbol l && l.margin.getD 0 == 0 then return l
    else
      return { l with
        text := some (spacesInt extra ++ l.symbol.getD "" ++ spacesInt (l.margin.getD 0)
          ++ l.text.getD "")
        symbol := none
        margin := none }

def isBlankLine (l : Line) : Bool := !hasSymbol l && (l.text.getD "").toList.all (· == ' ')

def indentFits (start indent : Option Int) : Except Fault Bool :=
  if indent = start then .ok true
  else
    match start with
    | none => .error (.missing "indent of comment")
    | some n => .ok (indent == some (n + 1))

def surveyIndents (start : Option Int) (allHaveSymbol : Bool) :
    Option Int → List Line → Except Fault (Option Int × Bool)
  | middle, [] => .ok (middle, true)
  | middle, l :: ls => do
      if l.part = some .start then .error (.unfit "part of comment")
      else if !allHaveSymbol && isBlankLine l then surveyIndents start allHaveSymbol middle ls
      else
        let fits ← if middle.isNone then indentFits start l.indent else .ok true
        let middle' := if middle.isNone then (if fits then l.indent else none) else middle
        if fits && l.indent == middle' then surveyIndents start allHaveSymbol middle' ls
        else return (middle', false)

def dialectOf (source : String) : Dialect :=
  if Path.extension source = ".swift" then .swift else .plain

def make (lines : List Line) (source : Option String) : Except Fault Block := do
  let some source := source | .error (.missing "source path")
  let (start, allHaveSymbol) ← survey none lines
  let lines ← if allHaveSymbol then Except.ok lines else lines.mapM (shuffleLine start)
  let (middle, allIndented) ← surveyIndents start allHaveSymbol none (lines.drop 1)
  return {
    lines
    indentStart := start
    indentMiddle := middle
    allHaveSymbol
    allIndented
    dialect := dialectOf source
    source }

def texts (b : Block) : List String := b.lines.filterMap Line.textEnd

def lineNumbers (b : Block) : Except Fault (Option Int × Option Int) :=
  match b.lines.head?, b.lines.getLast? with
  | some first, some last => .ok (first.number, last.number)
  | _, _ => .error (.tooFew "comment lines")

def attributes (b : Block) : List (String × Datum) :=
  [("indentStart", .ofInt? b.indentStart), ("indentContinue", .ofInt? b.indentMiddle),
    ("allHaveSymbol", .bool b.allHaveSymbol), ("allIndentedOK", .bool b.allIndented),
    ("swiftSource", .bool b.dialect.isSwift), ("sourcePath", .text b.source)]

def datum (b : Block) : Datum :=
  .record (b.attributes ++ [("texts", .tuple (b.texts.map .text))])

def needText (what : String) : Option String → Except Fault String
  | some s => .ok s
  | none => .error (.missing what)

def replacement (b : Block) (path fragment : String) : Except Fault String := do
  let some start := b.lines.head? | .error (.tooFew "comment lines")
  let some finish := b.lines.getLast? | .error (.tooFew "comment lines")
  let indent ← needText "indent" start.indentText
  let symbol ← needText "symbol" start.symbol
  let margin ← needText "margin" start.marginText
  let closing ← needText "symbol" finish.symbol
  return indent ++ symbol ++ margin ++ "[doc://" ++ path ++ "#" ++ fragment ++ "]"
    ++ start.ending.getD "" ++ finish.indentText.getD "" ++ closing ++ finish.ending.getD ""

structure Respelt where
  items : List Node
  printed : String
  fault : Option Fault

def unknownCommand (b : Block) (text : String) : String :=
  if Command.looksUnknown text then
    s!"Warning: Apparent unrecognised at-command on line:\n{text}\nin block {b.datum.quoted}\n"
  else ""

def respellParagraph (b : Block) (filled : Bool) : Node → Node × String × Option Fault
  | .item (some .paragraph) span trait contents =>
      let same : Node := .item (some .paragraph) span trait contents
      match contents with
      | .text s => (same, "", if s.isEmpty then some (.tooFew "contents") else none)
      | .nodes [] => (same, "", some (.tooFew "contents"))
      | .nodes (.item fb (some (.span .text)) ft (.text s) :: rest) =>
          match Command.respell? b.dialect s with
          | none => (same, b.unknownCommand s, none)
          | some (head, after) =>
              if filled && trait != .none then (same, "", some .hangingInUse)
              else
                let trait := if filled then Trait.hanging head.length else trait
                (.item (some .paragraph) span trait
                  (.nodes (.item fb (some (.span .text)) ft (.text (head ++ after)) :: rest)),
                  "", none)
      | .nodes (.item _ (some (.span .text)) _ (.nodes _) :: _) => (same, "", some (.unfit "text"))
      | .nodes _ => (same, "", none)
  | .item block span trait contents => (.item block span trait contents, "", none)
  | other => (other, "", some (.unfit "kind of item"))

def respell (b : Block) (filled : Bool) : List Node → Respelt
  | [] => ⟨[], "", none⟩
  | n :: ns =>
      match b.respellParagraph filled n with
      | (n', printed, some fault) => ⟨n' :: ns, printed, some fault⟩
      | (n', printed, none) =>
          let rest := b.respell filled ns
          ⟨n' :: rest.items, printed ++ rest.printed, rest.fault⟩

def leadLines (b : Block) (leader text : String) : List String :=
  let later (l : DisplayLine) : List String :=
    [leader] ++ (if b.dialect.isSwift then [] else ["* "]) ++ [String.ofList l.whole]
  match displayLines text.toList with
  | [] => []
  | l :: ls =>
      (if b.dialect.isSwift then later l else [String.ofList l.whole]) ++ ls.flatMap later

structure Written where
  texts : Except Fault (List String)
  block : Block
  printed : String

def opened (b : Block) (indent : Int) : List String :=
  [spacesInt indent, "/**", if b.dialect.isSwift then "\n" else " "]

def outputs (b : Block) (width : Option Int) : Written :=
  match b.indentStart with
  | none => ⟨.error (.missing "indent of comment"), b, ""⟩
  | some indent =>
      let leader := spacesInt (indent + 1)
      let closed : List String := ["\n", leader, "*/"]
      match b.items with
      | none => ⟨.ok (b.opened indent ++ closed), b, ""⟩
      | some items =>
          let r := b.respell width.isSome items
          let b' := { b with items := some r.items }
          match r.fault with
          | some fault => ⟨.error fault, b', r.printed⟩
          | none =>
              let room := width.map (· - (indent + if b.dialect.isSwift then 2 else 3))
              let texts := (Node.outputAll room (.nodes r.items)).map fun outputs =>
                b.opened indent ++ b.leadLines leader (String.join outputs) ++ closed
              ⟨texts, b', r.printed⟩

def describe (b : Block) : Except Fault String := do
  let (first, last) ← b.lineNumbers
  let attributes := Datum.record
    (b.attributes ++ [("lineNumber", .tuple [.ofInt? first, .ofInt? last])])
  let indented (s : String) : Except Fault String := (quotedBytes s).map ("    " ++ ·)
  let texts ← b.texts.mapM indented
  let outputs ← (← (b.outputs none).texts).mapM indented
  return String.intercalate "\n"
    ([attributes.quoted, "Block texts:"] ++ texts ++ ["Block outputs:"] ++ outputs)

def tuples (b : Block) : Except Fault (Option (List Datum)) :=
  match b.items with
  | none => .ok none
  | some items => (Node.tuples items).map some

end Block

inductive Piece where
  | code (line : SourceLine)
  | block (block : Block)

def gather (source : Option String) : List Line → List Scanned → Option Fault → Stream Piece
  | [], [], fault => ⟨[], fault⟩
  | pending, [], fault =>
      match fault with
      | some _ => ⟨[], fault⟩
      | none =>
          match Block.make pending source with
          | .ok b => ⟨[.block b], none⟩
          | .error f => .failed f
  | pending, .comment l :: rest, fault =>
      let lines := pending ++ [l]
      if l.part = some .finish then
        match Block.make lines source with
        | .ok b => .cons (.block b) (gather source [] rest fault)
        | .error f => .failed f
      else gather source lines rest fault
  | pending, .code c :: rest, fault =>
      if pending.isEmpty then .cons (.code c) (gather source [] rest fault)
      else
        match Block.make pending source with
        | .ok b => .cons (.block b) (.cons (.code c) (gather source [] rest fault))
        | .error f => .failed f

def blocks (source : Option String) (scanned : Stream Scanned) : Stream Piece :=
  gather source [] scanned.items scanned.fault

end Docweave.Comment
