import Docweave.Number.Binary
import Docweave.Text.Quoted

namespace Docweave

inductive Datum where
  | null
  | bool (b : Bool)
  | int (n : Int)
  | real (x : Float)
  | text (s : String)
  | tuple (xs : List Datum)
  | list (xs : List Datum)
  | record (fields : List (String × Datum))

namespace Datum

open Text

def ofOption {α : Type} (f : α → Datum) : Option α → Datum
  | none => .null
  | some a => f a

def ofText? : Option String → Datum := ofOption .text

def ofInt? : Option Int → Datum := ofOption .int

mutual

def quoted : Datum → String
  | .null => "None"
  | .bool true => "True"
  | .bool false => "False"
  | .int n => toString n
  | .real x => Number.shortest x
  | .text s => Text.quoted s
  | .tuple [x] => "(" ++ x.quoted ++ ",)"
  | .tuple xs => "(" ++ String.intercalate ", " (quotedAll xs) ++ ")"
  | .list xs => "[" ++ String.intercalate ", " (quotedAll xs) ++ "]"
  | .record fields => "\x7b" ++ String.intercalate ", " (quotedFields fields) ++ "\x7d"

def quotedAll : List Datum → List String
  | [] => []
  | x :: xs => x.quoted :: quotedAll xs

def quotedFields : List (String × Datum) → List String
  | [] => []
  | (name, x) :: fields => (Text.quoted name ++ ": " ++ x.quoted) :: quotedFields fields

end

def jsonEscape (c : Char) : List Char :=
  let n := c.toNat
  let unit (k : Nat) : List Char := ['\\', 'u'] ++ hexDigits 4 k
  if c = '"' then ['\\', '"']
  else if c = '\\' then ['\\', '\\']
  else if c = '\n' then ['\\', 'n']
  else if c = '\r' then ['\\', 'r']
  else if c = '\t' then ['\\', 't']
  else if n = 12 then ['\\', 'f']
  else if n = 8 then ['\\', 'b']
  else if 32 ≤ n ∧ n < 127 then [c]
  else if n < 65536 then unit n
  else unit (55296 + (n - 65536) / 1024) ++ unit (56320 + (n - 65536) % 1024)

def jsonText (s : String) : String :=
  String.ofList ('"' :: s.toList.flatMap jsonEscape ++ ['"'])

inductive JsonLayout where
  | line
  | indented (width : Nat)
  deriving DecidableEq, Repr

def JsonLayout.newline : JsonLayout → Nat → String
  | .line, _ => ""
  | .indented width, level => "\n" ++ spacesOf (width * level)
where
  spacesOf (n : Nat) : String := String.ofList (List.replicate n ' ')

def JsonLayout.comma : JsonLayout → String
  | .line => ", "
  | .indented _ => ","

def bracketed (layout : JsonLayout) (level : Nat) (opening closing : String)
    (members : List String) : String :=
  if members.isEmpty then opening ++ closing
  else
    opening ++ layout.newline (level + 1)
      ++ String.intercalate (layout.comma ++ layout.newline (level + 1)) members
      ++ layout.newline level ++ closing

mutual

def jsonAt (layout : JsonLayout) (level : Nat) : Datum → String
  | .null => "null"
  | .bool true => "true"
  | .bool false => "false"
  | .int n => toString n
  | .real x => Number.shortest x
  | .text s => jsonText s
  | .tuple xs => bracketed layout level "[" "]" (jsonAllAt layout (level + 1) xs)
  | .list xs => bracketed layout level "[" "]" (jsonAllAt layout (level + 1) xs)
  | .record fields =>
      bracketed layout level "\x7b" "\x7d" (jsonFieldsAt layout (level + 1) fields)

def jsonAllAt (layout : JsonLayout) (level : Nat) : List Datum → List String
  | [] => []
  | x :: xs => jsonAt layout level x :: jsonAllAt layout level xs

def jsonFieldsAt (layout : JsonLayout) (level : Nat) : List (String × Datum) → List String
  | [] => []
  | (name, x) :: fields =>
      (jsonText name ++ ": " ++ jsonAt layout level x) :: jsonFieldsAt layout level fields

end

def json (layout : JsonLayout) (d : Datum) : String := jsonAt layout 0 d

end Datum

end Docweave
