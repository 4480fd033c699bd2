import Docweave.Markup.BlockGrammar

namespace Docweave.Markup

open Pattern
open Text (isBlank isWord)

def reference : Rule where
  pattern := capture "docBare" (lit "doc://" ++ many fun c => !isBlank c)
    ||| (lit "[" ++ many isBlank
      ++ capture "docBrackets" (lit "doc://" ++ many fun c => !isBlank c && c != ']')
      ++ many isBlank ++ lit "]")
  labels := ["docBare", "docBrackets"]

def escaped : Pattern :=
  lit "\\" ++ capture "char" (one (oneOf "\\`*\x7b\x7d[]()#+-.!_>~|"))

def inlineHtml : Pattern :=
  htmlComment
    ||| (lit "<" ++ capture "tag" (many1 isWord ++ tagNameEnd) ++ times false 0 none tagAttribute
      ++ many isBlank ++ lit ">" ++ fewest anyChar 0 ++ lit "</" ++ again "tag" ++ lit ">")
    ||| (lit "<" ++ many1 isWord ++ tagNameEnd ++ times false 0 none tagAttribute ++ many isBlank
      ++ optional (lit "/") ++ lit ">")

def autolink : Pattern :=
  lit "<" ++ capture "link" (many1 (noneOf " >") ++ capture "sign" (one (oneOf "@:"))
    ++ many1 (noneOf " >")) ++ lit ">"

def url : Pattern :=
  capture "link" (lit "http" ++ optional (lit "s") ++ lit "://"
    ++ many1 (fun c => !isBlank c && c != '<')
    ++ one (fun c => !isBlank c && !oneOf "<.,:;\"')]" c))

def footnote : Pattern := lit "[^" ++ capture "key" (many1 (noneOf "]")) ++ lit "]"

def linkText : Pattern :=
  capture "text" (star ((lit "[" ++ many (noneOf "^]") ++ lit "]") ||| one (noneOf "[]")
    ||| (lit "]" ++ ahead (many (noneOf "[") ++ lit "]"))))

def link : Pattern :=
  optional (lit "!") ++ lit "[" ++ linkText ++ lit "](" ++ many isBlank
    ++ optional (capture "angle" (lit "<")) ++ fewest anyChar 0 ++ given "angle" (lit ">") empty
    ++ optional (many1 isBlank ++ one (oneOf "'\"") ++ fewest anyChar 0 ++ one (oneOf "'\""))
    ++ many isBlank ++ lit ")"

def referenceLink : Pattern :=
  optional (lit "!") ++ lit "[" ++ linkText ++ lit "]" ++ many isBlank ++ lit "["
    ++ capture "key" (many (noneOf "^]")) ++ lit "]"

def shortLink : Pattern :=
  optional (lit "!") ++ lit "["
    ++ capture "text" (star ((lit "[" ++ many (noneOf "]") ++ lit "]") ||| one (noneOf "[]")))
    ++ lit "]"

def strong : Pattern :=
  (lit "__" ++ capture "low" (fewest anyChar 1) ++ lit "__" ++ notAhead (lit "_"))
    ||| (lit "**" ++ capture "star" (fewest anyChar 1) ++ lit "**" ++ notAhead (lit "*"))

def emphasis : Pattern :=
  (wordEdge ++ lit "_" ++ capture "low" (times false 1 none (lit "__" ||| one (noneOf "_")))
      ++ lit "_" ++ wordEdge)
    ||| (lit "*" ++ capture "star" (times false 1 none (lit "**" ||| one (noneOf "*")))
      ++ lit "*" ++ notAhead (lit "*"))

def codeSpan : Pattern :=
  capture "ticks" (many1 (· == '`')) ++ many isBlank
    ++ capture "code" (fewest anyChar 0 ++ one (noneOf "`")) ++ many isBlank ++ again "ticks"
    ++ notAhead (lit "`")

def hardBreak : Pattern :=
  run true isSpace 2 none ++ lit "\n" ++ notAhead (many isBlank ++ lastLineEnd)

def strikethrough : Pattern :=
  lit "~~" ++ ahead (one fun c => !isBlank c)
    ++ capture "text" (fewest anyChar 0 ++ one fun c => !isBlank c) ++ lit "~~"

def plainText : Pattern :=
  fewest anyChar 1
    ++ ahead (one (oneOf "\\<![_*`~") ||| (lit "http" ++ optional (lit "s") ++ lit "://")
      ||| (run true isSpace 2 none ++ lit "\n") ||| lastLineEnd)

inductive InlineRule where
  | escaped
  | reference
  | html
  | autolink
  | url
  | footnote
  | link
  | referenceLink
  | shortLink
  | strong
  | emphasis
  | code
  | hardBreak
  | strikethrough
  | text
  deriving DecidableEq, Repr

namespace InlineRule

def pattern : InlineRule → Pattern
  | escaped => Markup.escaped
  | reference => Markup.reference.pattern
  | html => inlineHtml
  | autolink => Markup.autolink
  | url => Markup.url
  | footnote => Markup.footnote
  | link => Markup.link
  | referenceLink => Markup.referenceLink
  | shortLink => Markup.shortLink
  | strong => Markup.strong
  | emphasis => Markup.emphasis
  | code => codeSpan
  | hardBreak => Markup.hardBreak
  | strikethrough => Markup.strikethrough
  | text => plainText

def all : List InlineRule :=
  [escaped, reference, html, autolink, url, footnote, link, referenceLink, shortLink, strong,
    emphasis, code, hardBreak, strikethrough, text]

def inFootnote : List InlineRule := all.filter (· != footnote)

end InlineRule

end Docweave.Markup
