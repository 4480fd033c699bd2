import Docweave.Pattern.Search
import Docweave.Text.Lowercase

namespace Docweave.Markup

open Pattern
open Text (isBlank isWord)

def bareAmpersand : Pattern :=
  lit "&" ++ notAhead (optional (lit "#") ++ many1 isWord ++ lit ";")

def escapeAngle (c : Char) : List Char :=
  if c = '<' then "&lt;".toList else if c = '>' then "&gt;".toList else [c]

def escapeQuote (c : Char) : List Char :=
  if c = '"' then "&quot;".toList else if c = '\'' then "&#39;".toList else [c]

def escapeChars (cs : List Char) : List Char :=
  (bareAmpersand.replaceAll (fun _ => "&amp;".toList) cs).flatMap escapeAngle

def escape (s : String) : String := String.ofList (escapeChars s.toList)

def keyOf (s : String) : String :=
  let escaped := (escapeChars (Text.lower s).toList).flatMap escapeQuote
  String.ofList ((many1 isBlank).replaceAll (fun _ => [' ']) escaped)

end Docweave.Markup
