import Docweave.Text.Class

namespace Docweave.Text

def hexDigits : Nat → Nat → List Char
  | 0, _ => []
  | width + 1, n => hexDigits width (n / 16) ++ [Nat.digitChar (n % 16)]

def quoteFor (cs : List Char) : Char :=
  if cs.contains '\'' && !cs.contains '"' then '"' else '\''

def escapePoint (n : Nat) : List Char :=
  if n < 256 then ['\\', 'x'] ++ hexDigits 2 n
  else if n < 65536 then ['\\', 'u'] ++ hexDigits 4 n
  else ['\\', 'U'] ++ hexDigits 8 n

def quoteChar (printable : Char → Bool) (quote c : Char) : List Char :=
  if c = quote ∨ c = '\\' then ['\\', c]
  else if c = '\t' then ['\\', 't']
  else if c = '\n' then ['\\', 'n']
  else if c = '\r' then ['\\', 'r']
  else if printable c then [c]
  else escapePoint c.toNat

def quotedChars (printable : Char → Bool) (cs : List Char) : List Char :=
  let quote := quoteFor cs
  quote :: cs.flatMap (quoteChar printable quote) ++ [quote]

def quoted (s : String) : String := String.ofList (quotedChars isPrintable s.toList)

def isAscii (c : Char) : Bool := decide (c.toNat < 128)

def quotedBytes? (s : String) : Option String :=
  if s.toList.all isAscii then some ("b" ++ quoted s) else none

theorem quotedBytes?_isSome_iff (s : String) :
    (quotedBytes? s).isSome ↔ ∀ c ∈ s.toList, c.toNat < 128 := by
  simp [quotedBytes?, isAscii]

end Docweave.Text
