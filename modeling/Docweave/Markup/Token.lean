import Docweave.Markup.BlockGrammar
import Docweave.Markup.Escape
import Docweave.Text.Tabs

namespace Docweave.Markup

open Text (dropEndWhile isBlank)

inductive Token where
  | newline
  | rule
  | code (text : String) (language : Option String)
  | heading (level : Nat) (text : String)
  | table (header : List String)
  | html
  | paragraph (text : String)
  | text (text : String)
  | listStart (ordered : Bool)
  | listEnd
  | memberStart
  | looseStart
  | memberEnd
  | quoteStart
  | quoteEnd
  | footnoteStart (key : String)
  | footnoteEnd
  deriving DecidableEq, Repr

structure Lexed where
  tokens : List Token := []
  links : List String := []
  footnotes : List (String × Nat) := []
  deriving DecidableEq, Repr

namespace Lexed

def push (l : Lexed) (t : Token) : Lexed := { l with tokens := l.tokens ++ [t] }

def addLink (l : Lexed) (key : String) : Lexed := { l with links := key :: l.links }

def addFootnote (l : Lexed) (key : String) : Lexed :=
  { l with footnotes := l.footnotes ++ [(key, 0)] }

end Lexed

inductive BlockRule where
  | newline
  | rule
  | indentedCode
  | fencedCode
  | heading
  | plainTable
  | underlined
  | quote
  | list
  | html
  | linkDefinition
  | footnoteDefinition
  | table
  | paragraph
  | textLine
  deriving DecidableEq, Repr

namespace BlockRule

def pattern : BlockRule → Pattern
  | newline => Markup.newline
  | rule => horizontalRule
  | indentedCode => Markup.indentedCode
  | fencedCode => Markup.fencedCode
  | heading => Markup.heading
  | plainTable => Markup.plainTable
  | underlined => Markup.underlined
  | quote => blockQuote
  | list => listBlock "listIndent" "bullet"
  | html => blockHtml
  | linkDefinition => Markup.linkDefinition
  | footnoteDefinition => Markup.footnoteDefinition
  | table => Markup.table
  | paragraph => Markup.paragraph
  | textLine => Markup.textLine

def document : List BlockRule :=
  [newline, rule, indentedCode, fencedCode, heading, plainTable, underlined, quote, list, html,
    linkDefinition, footnoteDefinition, table, paragraph, textLine]

def inList : List BlockRule :=
  [newline, indentedCode, fencedCode, underlined, rule, quote, list, html, textLine]

def inFootnote : List BlockRule :=
  [newline, indentedCode, fencedCode, heading, plainTable, underlined, rule, quote, list, html,
    table, paragraph, textLine]

end BlockRule

def firstMatch (cs : List Char) : List BlockRule → Option (BlockRule × Found)
  | [] => none
  | r :: rs =>
      match r.pattern.matchStart cs with
      | some f => some (r, f)
      | none => firstMatch cs rs

def maxDepth : Nat := 6

structure Depth where
  list : Nat := 0
  quote : Nat := 0
  deriving DecidableEq, Repr

def dropEndNewlines (cs : List Char) : List Char := dropEndWhile (· == '\n') cs

def memberText (cs : List Char) : List Char :=
  let body := memberMark.removeAll cs
  if ((Pattern.lit "\n ").search body).isSome then (lineIndent (cs.length - body.length)).removeAll body
  else body

def looseMembers : Bool → List (List Char) → List (Bool × List Char)
  | _, [] => []
  | loose, body :: rest =>
      let inner := loose || (innerBlankLine.search body).isSome
      let spaced := body.getLast? == some '\n'
      if rest.isEmpty then [(inner, body)]
      else if body.isEmpty then (inner, body) :: looseMembers loose rest
      else (inner || spaced, body) :: looseMembers spaced rest

def members (cs : List Char) : List (Bool × List Char) :=
  looseMembers false
    ((listMember.findAll cs).map fun f => memberText ((f.chars? "member").getD []))

def footnoteText (cs : List Char) : List Char :=
  match cs.splitOn '\n' with
  | first :: rest =>
      let indents := (rest.map fun l => (l.takeWhile isBlank).length).filter (· ≠ 0)
      let width := (indents.min?).getD 0
      ['\n'].intercalate (first :: rest.map (·.drop width))
  | [] => []

def headerCells (cs : List Char) : List String :=
  (columnBar.split (headerEdge.removeAll cs)).map String.ofList

def lexFrom : Nat → List BlockRule → Depth → List Char → Lexed → Lexed
  | 0, _, _, _, l => l
  | fuel + 1, rules, depth, cs, l =>
      if cs.isEmpty then l
      else
        match firstMatch cs rules with
        | none => l
        | some (r, f) =>
            let text (label : String) : String := f.textD label
            let inside (rules : List BlockRule) (depth : Depth) (cs : List Char) (l : Lexed) : Lexed :=
              lexFrom fuel rules depth (dropEndNewlines cs) l
            let l := match r with
              | .newline => if f.matched.length > 1 then l.push .newline else l
              | .rule => l.push .rule
              | .indentedCode => l.push (.code (String.ofList (codeIndent.removeAll f.matched)) none)
              | .fencedCode => l.push (.code (text "code") (f.text? "language"))
              | .heading => l.push (.heading (text "marks").length (text "text"))
              | .underlined => l.push (.heading (if text "mark" = "=" then 1 else 2) (text "text"))
              | .quote =>
                  let depth := { depth with quote := depth.quote + 1 }
                  let l := l.push .quoteStart
                  let l :=
                    if depth.quote > maxDepth then l.push (.text f.matchedText)
                    else inside BlockRule.document depth (quoteMark.removeAll f.matched) l
                  l.push .quoteEnd
              | .list =>
                  let depth := { depth with list := depth.list + 1 }
                  let l := l.push (.listStart ((text "marker").toList.contains '.'))
                  let l :=
                    if depth.list > maxDepth then
                      ((l.push .memberStart).push (.text f.matchedText)).push .memberEnd
                    else
                      (members f.matched).foldl (fun l (loose, body) =>
                        (inside BlockRule.inList depth body
                          (l.push (if loose then .looseStart else .memberStart))).push .memberEnd) l
                  l.push .listEnd
              | .html => l.push .html
              | .linkDefinition => l.addLink (keyOf (text "key"))
              | .footnoteDefinition =>
                  let key := keyOf (text "key")
                  if (l.footnotes.lookup key).isSome then l
                  else
                    let l := (l.addFootnote key).push (.footnoteStart key)
                    (inside BlockRule.inFootnote depth (footnoteText ((f.chars? "note").getD [])) l).push
                      .footnoteEnd
              | .table => l.push (.table (headerCells ((f.chars? "header").getD [])))
              | .plainTable => l.push (.table (headerCells ((f.chars? "header").getD [])))
              | .paragraph =>
                  l.push (.paragraph (String.ofList (dropEndNewlines ((f.chars? "text").getD []))))
              | .textLine => l.push (.text f.matchedText)
            lexFrom fuel rules depth f.after l

def Lexed.add (l : Lexed) (cs : List Char) : Lexed :=
  let cs := dropEndNewlines cs
  lexFrom (cs.length + 1) BlockRule.document {} cs l

def prepare (s : String) : List Char :=
  let cs := Text.expandTabsFrom 4 0 (Text.normalizeNewlines s.toList)
  let cs := cs.map fun c => if c.toNat = 9252 then '\n' else c
  (Pattern.lineStart ++ Pattern.many1 Pattern.isSpace
    ++ Pattern.ahead (Pattern.lit "\n" ||| Pattern.textEnd)).removeAll cs

end Docweave.Markup
