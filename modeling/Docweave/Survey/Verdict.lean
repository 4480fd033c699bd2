import Docweave.Survey.Basic

namespace Docweave.Survey

inductive Verdict where
  | error
  | returnsNone
  | unstable
  | returnsInput
  | lowRepoTime
  | tooFast
  | unparam
  | invariant
  | modified
  | ok
  deriving DecidableEq, Repr

namespace Verdict

def name : Verdict → String
  | error => "error"
  | returnsNone => "returns-none"
  | unstable => "unstable"
  | returnsInput => "returns-input"
  | lowRepoTime => "low-repo-time"
  | tooFast => "too-fast"
  | unparam => "ok-unparam"
  | invariant => "param-invariant"
  | modified => "repo-modified"
  | ok => "ok"

def isFine (v : Verdict) : Bool := v == ok || v == unparam

end Verdict

structure Check where
  name : String
  result : Option String
  repeated : List String
  byParameter : List String
  times : List Float
  shares : List Float
  parameters : List String

namespace Check

def reals (name : String) (fields : List (String × Datum)) : Except Failure (List Float) := do
  (← recordIn name fields).mapM fun (_, d) => toReal d

def ofDatum? (name : String) : Datum → Except Failure (Option Check)
  | .record fields => do
      let text? : Option Datum → Option String
        | some (.text s) => some s
        | _ => none
      return some
        { name
          result := text? (field? "ret_type" fields)
          repeated := (listIn "fp_stable" fields).map Datum.quoted
          byParameter := (← recordIn "fp_by_param" fields).map fun (_, d) => d.quoted
          times := ← reals "repo_tt_ms" fields
          shares := ← reals "repo_frac" fields
          parameters := (listIn "param_fps" fields).map Datum.quoted }
  | _ => .ok none

def ofFields (fields : List (String × Datum)) : Except Failure (List Check) := do
  let checks ← recordIn "semcheck" fields
  return (← checks.mapM fun (name, d) => ofDatum? name d).filterMap id

def areSame : List String → Bool
  | [] => true
  | x :: xs => xs.all (· == x)

def median (xs : List Float) : Float :=
  let sorted := xs.mergeSort (· ≤ ·)
  let half := sorted.length / 2
  match sorted.drop (half - 1), sorted.length % 2 with
  | a :: b :: _, 0 => (a + b) / 2.0
  | _, _ => (sorted.drop half).headD 0.0

def time (c : Check) : Float := median c.times

def share (c : Check) : Float :=
  match c.shares with
  | [] => 0.0
  | x :: xs => xs.foldl (fun a b => if b < a then b else a) x

def verdict (changed : Bool) (c : Check) : Verdict :=
  if changed then .modified
  else if (c.result.getD "<").toList.head? = some '<' then .error
  else if c.result = some "NoneType" then .returnsNone
  else if c.repeated.isEmpty || !areSame c.repeated then .unstable
  else if c.parameters.contains (c.repeated.headD "") then .returnsInput
  else if !c.shares.isEmpty && c.share < 0.5 then .lowRepoTime
  else if !c.times.isEmpty && c.time < 1.0 then .tooFast
  else if c.byParameter.length < 2 then .unparam
  else if areSame c.byParameter then .invariant
  else .ok

def line (changed : Bool) (c : Check) : String :=
  let v := c.verdict changed
  (if v.isFine then "    " else "  * ") ++ padRight 32 c.name ++ " " ++ padRight 16 v.name ++ " ("
    ++ c.result.getD "?" ++ ", repo " ++ Number.fixed 0 (c.share * 100.0) ++ "%) "
    ++ Number.fixed 1 c.time ++ "ms"

def advice : List String :=
  ["  returns-none: run() has no return — collect and return the call results",
    "  unstable: seed RNG in setup; avoid time/uuid/id in the return",
    "  returns-input: return repo output, not the parameter value",
    "  low-repo-time: <50% of run() time is in repo code — move glue to setup",
    "  param-invariant: return something derived from run()'s work, not setup",
    "  repo-modified: revert edits to repo files (git checkout -- <path>)"]

def lines (changed : Bool) (checks : List Check) : List String :=
  if checks.isEmpty then []
  else
    let (fine, bad) := checks.partition fun c => (c.verdict changed).isFine
    ["", "self-check (* = fix needed):"] ++ advice ++ (bad ++ fine).map (line changed)

end Check

end Docweave.Survey
