import Docweave.Stream

namespace Docweave

structure Section where
  path : String
  name : String
  lines : List String
  deriving DecidableEq, Repr

namespace Section

open Text

def heading? (line : String) : Option String :=
  match line.toList with
  | '#' :: rest =>
      let name := trim rest
      if name.isEmpty || name.head? = some '#' then none else some (String.ofList name)
  | _ => none

def isTop (line : String) : Bool :=
  match line.toList with
  | '#' :: '#' :: _ => false
  | '#' :: _ => true
  | _ => false

def closeLines : List String → List String
  | [] => []
  | [line] => [Text.dropEndNewlines line]
  | line :: lines => line :: closeLines lines

def gather (path : String) : Option (String × List String) → List String → Option Fault →
    Stream Section
  | none, [], fault => ⟨[], fault⟩
  | some (name, lines), [], fault =>
      match fault with
      | none => ⟨[⟨path, name, lines⟩], none⟩
      | some _ => ⟨[], fault⟩
  | none, line :: rest, fault => gather path ((heading? line).map (·, [])) rest fault
  | some (name, lines), line :: rest, fault =>
      if isTop line then
        .cons ⟨path, name, closeLines lines⟩ (gather path ((heading? line).map (·, [])) rest fault)
      else gather path (some (name, lines ++ [line])) rest fault

def read (path : String) (lines : Stream String) : Stream Section :=
  gather path none lines.items lines.fault

end Section

end Docweave
