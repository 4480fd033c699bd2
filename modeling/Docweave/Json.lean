import Docweave.Datum

namespace Docweave.Json

structure Unread where
  expected : String
  rest : List Char

def isSpace (c : Char) : Bool := c == ' ' || c == '\t' || c == '\n' || c == '\r'

def skip (cs : List Char) : List Char := cs.dropWhile isSpace

def placeText (all rest : List Char) : String :=
  let before := all.take (all.length - rest.length)
  let lines := (before.filter (· == '\n')).length + 1
  let column := (before.reverse.takeWhile (· != '\n')).length + 1
  s!"line {lines} column {column} (char {before.length})"

def Unread.message (all : List Char) (u : Unread) : String :=
  u.expected ++ ": " ++ placeText all u.rest

def hexValue? (c : Char) : Option Nat :=
  if '0' ≤ c ∧ c ≤ '9' then some (c.toNat - 48)
  else if 'a' ≤ c ∧ c ≤ 'f' then some (c.toNat - 87)
  else if 'A' ≤ c ∧ c ≤ 'F' then some (c.toNat - 55)
  else none

def unit? : List Char → Option (Nat × List Char)
  | a :: b :: c :: d :: rest => do
      return (((← hexValue? a) * 16 + (← hexValue? b)) * 256 + (← hexValue? c) * 16 + (← hexValue? d), rest)
  | _ => none

def unitChar (n : Nat) (rest : List Char) : Char × List Char :=
  if 55296 ≤ n ∧ n < 56320 then
    match rest with
    | '\\' :: 'u' :: more =>
        match unit? more with
        | some (m, after) =>
            if 56320 ≤ m ∧ m < 57344 then (Char.ofNat (65536 + (n - 55296) * 1024 + (m - 56320)), after)
            else (Char.ofNat 65533, rest)
        | none => (Char.ofNat 65533, rest)
    | _ => (Char.ofNat 65533, rest)
  else if 56320 ≤ n ∧ n < 57344 then (Char.ofNat 65533, rest)
  else (Char.ofNat n, rest)

def escaped? : Char → Option Char
  | '"' => some '"'
  | '\\' => some '\\'
  | '/' => some '/'
  | 'b' => some (Char.ofNat 8)
  | 'f' => some (Char.ofNat 12)
  | 'n' => some '\n'
  | 'r' => some '\r'
  | 't' => some '\t'
  | _ => none

def readText (start : List Char) : Nat → List Char → List Char → Except Unread (String × List Char)
  | 0, _, _ | _, _, [] => .error ⟨"Unterminated string starting at", start⟩
  | fuel + 1, kept, c :: rest =>
      if c = '"' then .ok (String.ofList kept.reverse, rest)
      else if c.toNat < 32 then .error ⟨"Invalid control character at", c :: rest⟩
      else if c = '\\' then
        match rest with
        | [] => .error ⟨"Unterminated string starting at", start⟩
        | 'u' :: more =>
            match unit? more with
            | none => .error ⟨"Invalid \\uXXXX escape", rest⟩
            | some (n, after) =>
                let (k, after) := unitChar n after
                readText start fuel (k :: kept) after
        | d :: more =>
            match escaped? d with
            | some k => readText start fuel (k :: kept) more
            | none => .error ⟨"Invalid \\escape", c :: rest⟩
      else readText start fuel (c :: kept) rest

def isDigit (c : Char) : Bool := '0' ≤ c && c ≤ '9'

def digitsValue (cs : List Char) : Nat := cs.foldl (fun n c => n * 10 + (c.toNat - 48)) 0

def readExponent (cs : List Char) : Option (Int × List Char) :=
  let digits (negative : Bool) (cs : List Char) : Option (Int × List Char) :=
    let ds := cs.takeWhile isDigit
    if ds.isEmpty then none
    else
      let n : Int := digitsValue ds
      some (if negative then -n else n, cs.drop ds.length)
  match cs with
  | 'e' :: rest | 'E' :: rest =>
      match rest with
      | '-' :: more => digits true more
      | '+' :: more => digits false more
      | more => digits false more
  | _ => none

def realOf (negative : Bool) (whole fraction : List Char) (exponent : Int) : Float :=
  let size := Number.ofDigits (digitsValue (whole ++ fraction)) (exponent - fraction.length)
  if negative then -size else size

def readNumber? (cs : List Char) : Option (Datum × List Char) :=
  let (negative, cs) := match cs with
    | '-' :: rest => (true, rest)
    | _ => (false, cs)
  let whole := match cs.takeWhile isDigit with
    | '0' :: _ => ['0']
    | ds => ds
  if whole.isEmpty then none
  else
    let rest := cs.drop whole.length
    let fraction := match rest with
      | '.' :: more => more.takeWhile isDigit
      | _ => []
    let rest := if fraction.isEmpty then rest else rest.drop (fraction.length + 1)
    match fraction, readExponent rest with
    | [], none =>
        let n : Int := digitsValue whole
        some (.int (if negative then -n else n), rest)
    | _, none => some (.real (realOf negative whole fraction 0), rest)
    | _, some (e, rest) => some (.real (realOf negative whole fraction e), rest)

def putField (name : String) (d : Datum) : List (String × Datum) → List (String × Datum)
  | [] => [(name, d)]
  | (k, v) :: rest => if k = name then (k, d) :: rest else (k, v) :: putField name d rest

def word? (word : String) (cs : List Char) : Option (List Char) :=
  if word.toList.isPrefixOf cs then some (cs.drop word.length) else none

def words : List (String × Datum) :=
  [("null", .null), ("true", .bool true), ("false", .bool false), ("NaN", .real (0.0 / 0.0)),
    ("Infinity", .real (1.0 / 0.0)), ("-Infinity", .real (-1.0 / 0.0))]

def readWord? (cs : List Char) : Option (Datum × List Char) :=
  words.findSome? fun (w, d) => (word? w cs).map fun rest => (d, rest)

mutual

def readValue : Nat → List Char → Except Unread (Datum × List Char)
  | 0, cs => .error ⟨"Expecting value", cs⟩
  | fuel + 1, cs =>
      match cs with
      | '"' :: rest => do
          let (s, rest) ← readText cs (rest.length + 1) [] rest
          return (.text s, rest)
      | '[' :: rest =>
          match skip rest with
          | ']' :: rest => .ok (.list [], rest)
          | rest => do
              let (xs, rest) ← readMembers fuel rest
              return (.list xs, rest)
      | '\x7b' :: rest =>
          match skip rest with
          | '\x7d' :: rest => .ok (.record [], rest)
          | rest => do
              let (fields, rest) ← readFields fuel [] rest
              return (.record fields, rest)
      | _ =>
          match (readWord? cs).orElse fun _ => readNumber? cs with
          | some found => .ok found
          | none => .error ⟨"Expecting value", cs⟩

def readMembers : Nat → List Char → Except Unread (List Datum × List Char)
  | 0, cs => .error ⟨"Expecting value", cs⟩
  | fuel + 1, cs => do
      let (x, rest) ← readValue fuel cs
      match skip rest with
      | ']' :: rest => return ([x], rest)
      | ',' :: rest =>
          let (xs, rest) ← readMembers fuel (skip rest)
          return (x :: xs, rest)
      | rest => throw ⟨"Expecting ',' delimiter", rest⟩

def readFields : Nat → List (String × Datum) → List Char →
    Except Unread (List (String × Datum) × List Char)
  | 0, _, cs => .error ⟨"Expecting value", cs⟩
  | fuel + 1, fields, cs =>
      match cs with
      | '"' :: rest => do
          let (name, rest) ← readText cs (rest.length + 1) [] rest
          match skip rest with
          | ':' :: rest =>
              let (x, rest) ← readValue fuel (skip rest)
              let fields := putField name x fields
              match skip rest with
              | '\x7d' :: rest => return (fields, rest)
              | ',' :: rest => readFields fuel fields (skip rest)
              | rest => throw ⟨"Expecting ',' delimiter", rest⟩
          | rest => throw ⟨"Expecting ':' delimiter", rest⟩
      | _ => .error ⟨"Expecting property name enclosed in double quotes", cs⟩

end

def parse (s : String) : Except String Datum :=
  let cs := s.toList
  match readValue (2 * cs.length + 2) (skip cs) with
  | .error u => .error (u.message cs)
  | .ok (d, rest) =>
      match skip rest with
      | [] => .ok d
      | rest => .error (Unread.message cs ⟨"Extra data", rest⟩)

end Docweave.Json
