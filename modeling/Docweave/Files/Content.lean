import Docweave.Stream
import Docweave.Text.Utf8

namespace Docweave.Files

open Text

inductive Content where
  | text (s : String)
  | bytes (bs : List Nat)
  deriving DecidableEq, Repr

namespace Content

def ofBytes (bs : List Nat) : Content :=
  let decoded := Utf8.decode bs
  match decoded.fault with
  | none => .text (String.ofList decoded.chars)
  | some _ => .bytes bs

def wholeLines (cs : List Char) : List (List Char) :=
  (fileLinesFrom [] cs).filter fun l => l.getLast? == some '\n'

def lines : Content → Stream String
  | .text s => ⟨fileLines (String.ofList (normalizeNewlines s.toList)), none⟩
  | .bytes bs =>
      let decoded := Utf8.decode bs
      let chars := if decoded.chars.getLast? = some '\r' then decoded.chars.dropLast else decoded.chars
      ⟨(wholeLines (normalizeNewlines chars)).map String.ofList, decoded.fault⟩

def append (c : Content) (s : String) : Content :=
  match c with
  | .text t => .text (t ++ s)
  | .bytes bs => .bytes (bs ++ s.toUTF8.toList.map UInt8.toNat)

def size : Content → Nat
  | .text s => s.length
  | .bytes bs => bs.length

end Content

end Docweave.Files
