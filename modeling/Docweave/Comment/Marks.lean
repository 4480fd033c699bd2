import Docweave.Pattern.Search

namespace Docweave.Comment

open Pattern

def opening : Rule where
  pattern := textStart ++ capture "indent" (many Text.isBlank) ++ capture "symbol" (lit "/**")
    ++ capture "margin" (.run true isSpace 0 (some 1))
    ++ (lastLineEnd ||| ahead (one (noneOf "/")))
  labels := ["indent", "symbol", "margin"]

def continuation : Rule where
  pattern := textStart ++ capture "indent" spaces
    ++ ((capture "symbolEOL" (lit "*") ++ lastLineEnd)
      ||| (capture "symbolMargin" (lit "*") ++ capture "margin" (lit " "))
      ||| (capture "symbolNonSlash" (lit "*") ++ ahead (one (noneOf "/")))
      ||| (capture "EOL" empty ++ lastLineEnd)
      ||| (capture "nonSymbol" empty ++ ahead (one (noneOf "* "))))
  labels := ["indent", "symbolEOL", "symbolMargin", "margin", "symbolNonSlash", "EOL", "nonSymbol"]

def closing : Rule where
  pattern := optional (capture "indent" (textStart ++ many (oneOf " \t")))
    ++ capture "symbol" (lit "*/")
  labels := ["indent", "symbol"]

def lineEnding : Rule where
  pattern := many Text.isNewline ++ lastLineEnd
  labels := []

end Docweave.Comment
