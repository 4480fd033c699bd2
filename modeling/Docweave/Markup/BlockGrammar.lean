import Docweave.Pattern.Search

namespace Docweave.Markup

open Pattern
open Text (isBlank isDigit isWord)

def lineEnds : Pattern := many1 (· == '\n') ||| lastLineEnd

def isBullet : Char → Bool := oneOf "*+-"

def isRule : Char → Bool := oneOf "-*_"

def marker : Pattern := one isBullet ||| (many1 isDigit ++ lit ".")

def linkDefinition : Pattern :=
  spaces ++ lit "[" ++ capture "key" (many1 (noneOf "^]")) ++ lit "]:" ++ spaces
    ++ optional (lit "<") ++ many1 (fun c => !isBlank c && c != '>') ++ optional (lit ">")
    ++ optional (many1 isSpace ++ one (oneOf "\"(") ++ many1 notNewline ++ one (oneOf "\")"))
    ++ spaces ++ lineEnds

def footnoteDefinition : Pattern :=
  lit "[^" ++ capture "key" (many1 (noneOf "]")) ++ lit "]:" ++ spaces
    ++ capture "note" (many notNewline ++ lineEnds
      ++ star (many1 isSpace ++ many notNewline ++ lineEnds))

def newline : Pattern := many1 (· == '\n')

def indentedCode : Pattern := plus (lit "    " ++ many1 notNewline ++ many (· == '\n'))

def fencedCode : Pattern :=
  spaces ++ capture "fence" (run true (· == '`') 3 none ||| run true (· == '~') 3 none) ++ spaces
    ++ optional (capture "language" (many1 fun c => !isBlank c && c != '`')) ++ spaces ++ lit "\n"
    ++ capture "code" (fewest anyChar 1) ++ many isBlank ++ again "fence" ++ spaces ++ lineEnds

def horizontalRule : Pattern :=
  run true isSpace 0 (some 3) ++ one isRule ++ times true 2 none (spaces ++ one isRule) ++ spaces
    ++ lineEnds

def heading : Pattern :=
  spaces ++ capture "marks" (run true (· == '#') 1 (some 6)) ++ spaces
    ++ capture "text" (fewest notNewline 1) ++ spaces ++ many (· == '#') ++ spaces ++ lineEnds

def underlined : Pattern :=
  capture "text" (many1 notNewline) ++ lit "\n" ++ spaces
    ++ plus (capture "mark" (one (oneOf "=-"))) ++ spaces ++ lineEnds

def blockQuote : Pattern :=
  plus (spaces ++ lit ">" ++ many1 notNewline ++ star (lit "\n" ++ many1 notNewline)
    ++ many (· == '\n'))

def listBlock (indent bullet : String) : Pattern :=
  capture "listIndent" spaces ++ ahead marker
    ++ capture "marker" (optional (capture "bullet" (one isBullet))
      ++ optional (many1 isDigit ++ lit "."))
    ++ lit " " ++ fewest anyChar 1
    ++ ((many1 (· == '\n') ++ ahead (optional (again indent)
          ++ times true 3 none (one isRule ++ spaces) ++ lineEnds))
      ||| (many1 (· == '\n') ++ ahead linkDefinition)
      ||| (many1 (· == '\n') ++ ahead footnoteDefinition)
      ||| (many1 (· == '\n') ++ ahead (again indent
          ++ given bullet (many1 isDigit ++ lit ".") (one isBullet) ++ lit " "))
      ||| (run true (· == '\n') 2 none ++ notAhead (lit " ")
          ++ notAhead (again indent ++ marker ++ lit " ") ++ many (· == '\n'))
      ||| (many isBlank ++ lastLineEnd))

def listMember : Pattern :=
  lineStart ++ capture "member" (capture "indent" spaces ++ marker ++ lit " " ++ many notNewline
    ++ star (lit "\n" ++ notAhead (again "indent" ++ marker ++ lit " ") ++ many notNewline))

def memberMark : Pattern := textStart ++ spaces ++ marker ++ many1 isSpace

def inlineTags : List String :=
  ["a", "em", "strong", "small", "s", "cite", "q", "dfn", "abbr", "data", "time", "code", "var",
    "samp", "kbd", "sub", "sup", "i", "b", "u", "mark", "ruby", "rt", "rp", "bdi", "bdo", "span",
    "br", "wbr", "ins", "del", "img", "font"]

def tagNameEnd : Pattern :=
  notAhead (lit ":/" ||| (many (fun c => !isWord c && !isBlank c && c != '@') ++ lit "@"))
    ++ wordEdge

def choice : List Pattern → Pattern
  | [] => one fun _ => false
  | [p] => p
  | p :: ps => p ||| choice ps

def blockTag : Pattern :=
  notAhead (choice (inlineTags.map lit) ++ wordEdge) ++ many1 isWord ++ tagNameEnd

def isAsciiLetter (c : Char) : Bool := c.isAlpha

def tagAttribute : Pattern :=
  many isBlank ++ one (fun c => isAsciiLetter c || c == '-')
    ++ optional (many isBlank ++ lit "=" ++ many isBlank
      ++ ((lit "\"" ++ many (noneOf "\"") ++ lit "\"")
        ||| (lit "'" ++ many (noneOf "'") ++ lit "'")
        ||| many1 fun c => !isBlank c && !oneOf "'\">" c))

def htmlComment : Pattern := lit "<!--" ++ fewest anyChar 0 ++ lit "-->"

def blockHtml : Pattern :=
  spaces
    ++ (htmlComment
      ||| (lit "<" ++ capture "tag" blockTag ++ times false 0 none tagAttribute ++ lit ">"
        ++ fewest anyChar 0 ++ lit "</" ++ again "tag" ++ lit ">")
      ||| (lit "<" ++ blockTag ++ times false 0 none tagAttribute ++ many isBlank
        ++ optional (lit "/") ++ lit ">"))
    ++ spaces ++ (run true (· == '\n') 2 none ||| (many isBlank ++ lastLineEnd))

def table : Pattern :=
  spaces ++ lit "|" ++ capture "header" (many1 notNewline) ++ lit "\n" ++ spaces ++ lit "|"
    ++ spaces ++ many1 (oneOf "-:") ++ many (oneOf "-| :") ++ lit "\n"
    ++ star (spaces ++ lit "|" ++ many notNewline ++ (lit "\n" ||| lastLineEnd))
    ++ many (· == '\n')

def plainTable : Pattern :=
  spaces
    ++ capture "header" (one (fun c => !isBlank c) ++ many notNewline ++ lit "|" ++ many notNewline)
    ++ lit "\n" ++ spaces ++ many1 (oneOf "-:") ++ spaces ++ lit "|" ++ many (oneOf "-| :")
    ++ lit "\n"
    ++ star (many notNewline ++ lit "|" ++ many notNewline ++ (lit "\n" ||| lastLineEnd))
    ++ many (· == '\n')

def paragraph : Pattern :=
  capture "text" (plus (many1 notNewline ++ optional (lit "\n")
    ++ notAhead (fencedCode ||| listBlock "language" "language" ||| horizontalRule ||| heading ||| underlined
      ||| blockQuote ||| linkDefinition ||| footnoteDefinition ||| (lit "<" ++ blockTag))))
    ++ many (· == '\n')

def textLine : Pattern := many1 notNewline

def headerEdge : Pattern := (textStart ++ spaces) ||| (spaces ++ lit "|" ++ spaces ++ lastLineEnd)

def columnBar : Pattern := spaces ++ lit "|" ++ spaces

def quoteMark : Pattern := lineStart ++ spaces ++ lit ">" ++ optional (lit " ")

def codeIndent : Pattern := lineStart ++ lit "    "

def lineIndent (width : Nat) : Pattern := lineStart ++ run true isSpace 1 (some width)

def innerBlankLine : Pattern := lit "\n\n" ++ notAhead (many isBlank ++ lastLineEnd)

end Docweave.Markup
