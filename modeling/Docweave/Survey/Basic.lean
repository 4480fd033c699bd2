import Docweave.Json
import Docweave.Text.Lines

namespace Docweave.Survey

open Text

structure Failure where
  kind : String
  message : String
  deriving DecidableEq, Repr

def Failure.text (f : Failure) : String := f.kind ++ ": " ++ f.message

structure Program where
  code : Int := 0
  out : String := ""
  err : String := ""
  unstarted : Option String := none
  deriving DecidableEq, Repr

def kindOf : Datum → String
  | .null => "NoneType"
  | .bool _ => "bool"
  | .int _ => "int"
  | .real _ => "float"
  | .text _ => "str"
  | .tuple _ => "tuple"
  | .list _ => "list"
  | .record _ => "dict"

def fieldsOf (member : String) : Datum → Except Failure (List (String × Datum))
  | .record fields => .ok fields
  | d => .error ⟨"AttributeError", s!"'{kindOf d}' object has no attribute '{member}'"⟩

def isNothing : Datum → Bool
  | .null | .bool false | .int 0 | .text "" | .list [] | .record [] => true
  | .real x => x == 0.0
  | _ => false

def field? (name : String) (fields : List (String × Datum)) : Option Datum :=
  (fields.lookup name).filter (!isNothing ·)

def recordIn (name : String) (fields : List (String × Datum)) :
    Except Failure (List (String × Datum)) :=
  match field? name fields with
  | some d => fieldsOf "items" d
  | none => .ok []

def listIn (name : String) (fields : List (String × Datum)) : List Datum :=
  match field? name fields with
  | some (.list xs) => xs
  | _ => []

def plainDigits : Bool → List Char → Option (List Char)
  | ready, [] => if ready then some [] else none
  | ready, c :: rest =>
      if Json.isDigit c then (plainDigits true rest).map (c :: ·)
      else if c = '_' ∧ ready then plainDigits false rest
      else none

def real? (s : String) : Option Float :=
  let cs := trim s.toList
  let (negative, cs) := match cs with
    | '-' :: rest => (true, rest)
    | '+' :: rest => (false, rest)
    | _ => (false, cs)
  let signed (x : Float) : Float := if negative then -x else x
  match String.ofList (cs.map Char.toLower) with
  | "inf" | "infinity" => some (signed (1.0 / 0.0))
  | "nan" => some (0.0 / 0.0)
  | _ => do
      let isMark (c : Char) : Bool := c == 'e' || c == 'E'
      let size := cs.takeWhile (!isMark ·)
      let exponent ← match cs.dropWhile (!isMark ·) with
        | [] => some 0
        | tail => match Json.readExponent tail with
          | some (e, []) => some e
          | _ => none
      let whole := size.takeWhile (· ≠ '.')
      let fraction := (size.dropWhile (· ≠ '.')).drop 1
      if whole.isEmpty && fraction.isEmpty then none
      let whole ← if whole.isEmpty then some [] else plainDigits false whole
      let fraction ← if fraction.isEmpty then some [] else plainDigits false fraction
      return Json.realOf negative whole fraction exponent

def toReal : Datum → Except Failure Float
  | .int n => .ok (Float.ofInt n)
  | .real x => .ok x
  | .bool b => .ok (if b then 1.0 else 0.0)
  | .text s =>
      match real? s with
      | some x => .ok x
      | none => .error ⟨"ValueError", "could not convert string to float: " ++ quoted s⟩
  | d => .error ⟨"TypeError", s!"float() argument must be a string or a real number, not '{kindOf d}'"⟩

def shownReal (d : Option Datum) : Float :=
  match d with
  | some d => (toReal d).toOption.getD 0.0
  | none => 0.0

def shownInt (d : Option Datum) : Int :=
  match d with
  | some (.int n) => n
  | _ => 0

def splitLines (s : String) : List String := (displayLines s.toList).map fun l => String.ofList l.body

def Program.data (p : Program) : Except Failure (List (String × Datum)) :=
  match p.unstarted with
  | some reason => .error ⟨"OSError", reason⟩
  | none =>
      match (splitLines (String.ofList (trim p.out.toList))).getLast? with
      | none => .ok []
      | some line =>
          match Json.parse line with
          | .error message => .error ⟨"JSONDecodeError", message⟩
          | .ok d => fieldsOf "get" d

def Program.complaints (p : Program) (name : String) (failure : Option Failure) : String :=
  (if p.unstarted.isSome then "" else p.err)
    ++ match failure with
      | some f => s!"[{name} runner: {f.text}]\n"
      | none => ""

def padRight (width : Nat) (s : String) : String :=
  s ++ String.ofList (List.replicate (width - s.length) ' ')

def padLeft (width : Nat) (s : String) : String :=
  String.ofList (List.replicate (width - s.length) ' ') ++ s

end Docweave.Survey
