import Docweave.Path
import Docweave.Survey.Basic

namespace Docweave.Survey

structure FileCoverage where
  name : String
  statements : Int
  missed : Int
  percent : Float
  missing : List String

structure Coverage where
  files : List FileCoverage
  statements : Int
  covered : Int
  percent : Datum
  errors : List (String × String)

def nameWidth : Nat := 60

def nameOf (path : String) : String :=
  let name := if Path.isAbsolute path then (Path.relative "/" path "/repo").toOption.getD path else path
  String.ofList (name.toList.take nameWidth)

def FileCoverage.of (path : String) (d : Datum) : FileCoverage :=
  let fields := (fieldsOf "get" d).toOption.getD []
  let summary := (recordIn "summary" fields).toOption.getD []
  { name := nameOf path
    statements := shownInt (summary.lookup "num_statements")
    missed := shownInt (summary.lookup "missing_lines")
    percent := shownReal (summary.lookup "percent_covered")
    missing := (listIn "missing_lines" fields).map Datum.quoted }

def Coverage.of (fields : List (String × Datum)) : Coverage :=
  let totals := (recordIn "totals" fields).toOption.getD []
  let files := (recordIn "files" fields).toOption.getD []
  let more := (recordIn "meta" fields).toOption.getD []
  let errors := (recordIn "_pti_bench_errors" more).toOption.getD []
  { files := (files.map fun (path, d) => FileCoverage.of path d).mergeSort fun a b => a.percent ≤ b.percent
    statements := shownInt (totals.lookup "num_statements")
    covered := shownInt (totals.lookup "covered_lines")
    percent := (totals.lookup "percent_covered").getD (.real 0.0)
    errors := errors.map fun (name, d) => (name, match d with
      | .text s => s
      | d => d.quoted) }

def Coverage.width (c : Coverage) : Nat :=
  (c.files.map (·.name.length)).foldl max 4

def row (width : Nat) (name : String) (statements missed : Int) (percent : Float) : String :=
  padRight width name ++ " " ++ padLeft 6 (toString statements) ++ " " ++ padLeft 5 (toString missed)
    ++ " " ++ padLeft 5 (Number.fixed 0 percent) ++ "%"

def missingText (numbers : List String) : String :=
  ",".intercalate (numbers.take 12) ++ if 12 < numbers.length then "…" else ""

def Coverage.table (c : Coverage) : List String :=
  let width := c.width
  let rule := String.ofList (List.replicate (width + 42) '-')
  let header := padRight width "Name" ++ " " ++ padLeft 6 "Stmts" ++ " " ++ padLeft 5 "Miss" ++ " "
    ++ padLeft 6 "Cover" ++ "  Missing"
  [header, rule]
    ++ c.files.map (fun f => row width f.name f.statements f.missed f.percent ++ "  " ++ missingText f.missing)
    ++ [rule, row width "TOTAL" c.statements (c.statements - c.covered) (shownReal (some c.percent))]

def Coverage.errorLines (c : Coverage) : List String :=
  if c.errors.isEmpty then []
  else
    ["", s!"{c.errors.length} bench error(s):"]
      ++ (c.errors.take 8).map fun (name, text) => "  " ++ name ++ ": " ++ text

end Docweave.Survey
