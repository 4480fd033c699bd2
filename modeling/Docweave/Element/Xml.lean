import Docweave.Element.Basic

namespace Docweave.Element

open Text

def escapeTextChar (c : Char) : List Char :=
  if c = '&' then "&amp;".toList
  else if c = '<' then "&lt;".toList
  else if c = '>' then "&gt;".toList
  else [c]

def escapeAttributeChar (c : Char) : List Char :=
  if c = '"' then "&quot;".toList
  else if c = '\r' then "&#13;".toList
  else if c = '\n' then "&#10;".toList
  else if c = '\t' then "&#09;".toList
  else escapeTextChar c

def escapeText (s : String) : String := String.ofList (s.toList.flatMap escapeTextChar)

def escapeAttribute (s : String) : String := String.ofList (s.toList.flatMap escapeAttributeChar)

def namesText (ns : List String) : String := "[" ++ ", ".intercalate (ns.map quoted) ++ "]"

def valueXml : Value → Except Fault String
  | .text s => .ok (escapeAttribute s)
  | .names ns => .ok (namesText ns)
  | .missing => .error (.missing "attribute")

def attributesXml : List (String × Value) → Except Fault String
  | [] => .ok ""
  | (name, v) :: rest => do
      let value ← valueXml v
      return s!" {name}=\"{value}\"" ++ (← attributesXml rest)

mutual

def xml : Element → Except Fault String
  | ⟨tag, attributes, text, tail, children⟩ => do
      let opening := "<" ++ tag ++ (← attributesXml attributes)
      let inside := escapeText (text.getD "") ++ (← xmlEach children)
      let body :=
        if (text.getD "").isEmpty && children.isEmpty then opening ++ " />"
        else opening ++ ">" ++ inside ++ "</" ++ tag ++ ">"
      return body ++ escapeText (tail.getD "")

def xmlEach : List Element → Except Fault String
  | [] => .ok ""
  | e :: es => do
      let first ← e.xml
      return first ++ (← xmlEach es)

end

end Docweave.Element
