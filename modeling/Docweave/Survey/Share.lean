import Docweave.Survey.Basic

namespace Docweave.Survey

structure Share where
  name : String
  percent : Float
  outside : List (Float × String)

namespace Share

def bound : Float := 45.0

def isKnown (s : Share) : Bool := 0.0 ≤ s.percent

def isLow (s : Share) : Bool := s.isKnown && s.percent < bound

def outsideOf : Datum → Option (Float × String)
  | .list (x :: .text name :: _) => some (shownReal (some x), name)
  | _ => none

def ofFields (fields : List (String × Datum)) : Except Failure (List Share) := do
  let shares ← recordIn "repo_time_pct" fields
  let outside ← recordIn "hot_ext" fields
  shares.mapM fun (name, d) => do
    return { name, percent := (← toReal d), outside := (listIn name outside).filterMap outsideOf }

def line (s : Share) : String :=
  let mark := if s.isLow then "  * " else "    "
  let shown := if s.isKnown then s.percent else 0.0
  let parts := (s.outside.take 3).map fun (x, name) => name ++ " " ++ Number.fixed 0 x ++ "%"
  let note :=
    if !s.isKnown then "  <error>"
    else if s.isLow && !parts.isEmpty then " (hot: " ++ " ".intercalate parts ++ ")"
    else ""
  mark ++ padRight 32 s.name ++ padLeft 6 (Number.fixed 1 shown) ++ "%" ++ note

def lines (shares : List Share) : List String :=
  if shares.isEmpty then []
  else
    ["", "repo_time (target 50%; * = below 45%):"]
      ++ (shares.mergeSort fun a b => a.percent ≤ b.percent).map line

def lowCount (shares : List Share) : Option Nat :=
  if shares.any isKnown then some (shares.filter isLow).length else none

end Share

end Docweave.Survey
