import Docweave.Files.Store
import Docweave.Survey.Coverage
import Docweave.Survey.Share
import Docweave.Survey.Verdict

namespace Docweave.Survey

open Files Text

structure Outside where
  coverage : Program := {}
  shares : Program := {}
  changes : Program := {}
  checks : Program := {}
  started : Float := 0.0
  stopped : Float := 0.0
  now : Float := 0.0

structure Ended where
  exit : Option Int := none
  out : String := ""
  err : String := ""
  failure : Option Failure := none
  store : Store

def coverageFile : String := "_pti_coverage.json"
def roundsFile : String := ".pti_checkpoint.jsonl"
def suiteFile : String := "microbench.py"
def sharesFile : String := "_pti_repotime.py"
def checksFile : String := "_pti_semcheck.py"

def textOf (store : Store) (path : String) : Option String :=
  match store.read path with
  | .ok (.text s) => some s
  | _ => none

def benchmarkCount (source : String) : Nat :=
  ((splitLines source).filter fun l =>
    match l.toList.drop 10 with
    | c :: _ => "def bench_".isPrefixOf l && isWord c
    | [] => false).length

def changedFiles (p : Program) : List String :=
  if p.unstarted.isSome then []
  else
    let names := ((splitLines p.out).filter fun l => !(trim l.toList).isEmpty).map fun l =>
      String.ofList (l.toList.drop 3)
    names.filter fun n =>
      let base := Path.base n
      base ≠ suiteFile && !"_pti_".isPrefixOf base && !".pti_".isPrefixOf base

def changeLines (names : List String) : List String :=
  if names.isEmpty then []
  else
    ["", s!"** repo modified ({names.length} file(s)) — revert these; only {suiteFile} is yours to edit:"]
      ++ (names.take 10).map ("   " ++ ·)

def gather {α : Type} (store : Store) (file name : String) (p : Program)
    (read : List (String × Datum) → Except Failure (List α)) : List α × String :=
  if !store.exists? file then ([], "")
  else
    match p.data >>= read with
    | .ok xs => (xs, p.complaints name none)
    | .error f => ([], p.complaints name (some f))

def rounds (store : Store) : List (List (String × Datum)) :=
  (splitLines ((textOf store roundsFile).getD "")).filterMap fun l =>
    match Json.parse l with
    | .ok (.record fields) => some fields
    | _ => none

def leastPlace : List Nat → Option (Nat × Nat)
  | [] => none
  | x :: xs =>
      match leastPlace xs with
      | some (i, y) => if y < x then some (i + 1, y) else some (0, x)
      | none => some (0, x)

def stopReason (coverage : Float) (history : List Nat) : Option String :=
  if coverage < 60.0 then none
  else
    match history.getLast?, leastPlace history with
    | some 0, _ => some "0 below"
    | some _, some (i, least) =>
        let since := history.length - 1 - i
        if 3 ≤ since then some s!"no improvement in {since} rounds; best {least} below" else none
    | _, _ => none

def ofCount (n : Option Nat) : Datum := Datum.ofOption (fun n => .int n) n

def round (store : Store) (o : Outside) : Ended :=
  match o.coverage.unstarted with
  | some reason => { failure := some ⟨"OSError", reason⟩, store }
  | none =>
  match textOf store coverageFile, o.coverage.code with
  | some text, 0 =>
    match Json.parse text with
    | .error message => { failure := some ⟨"JSONDecodeError", message⟩, store }
    | .ok d =>
      let coverage := Coverage.of ((fieldsOf "get" d).toOption.getD [])
      let count := benchmarkCount ((textOf store suiteFile).getD "")
      let changed := changedFiles o.changes
      let (shares, shareErr) := gather store sharesFile "repotime" o.shares Share.ofFields
      let (checks, checkErr) := gather store checksFile "semcheck" o.checks Check.ofFields
      let isChanged := !changed.isEmpty
      let verdicts := checks.map fun c => (c.name, c.verdict isChanged)
      let bad := (verdicts.filter (!·.2.isFine)).length
      let past := rounds store
      let number := past.length + 1
      let low := Share.lowCount shares
      let wall := match past.getLast? with
        | some fields => Number.roundTo 2 (o.now - shownReal (fields.lookup "ts"))
        | none => 0.0
      let measured := o.stopped - o.started
      let record : Datum := .record
        [("round", .int number), ("ts", .real o.now), ("wall_since_prev_s", .real wall),
          ("coverage_pct", coverage.percent), ("covered_lines", .int coverage.covered),
          ("num_statements", .int coverage.statements), ("n_bench_fns", .int count),
          ("n_bench_errors", .int coverage.errors.length),
          ("cov_measure_s", .real (Number.roundTo 3 measured)),
          ("repo_time_pct", .record (shares.map fun s => (s.name, .real s.percent))),
          ("n_below_repo_time", ofCount low),
          ("semcheck", .record (verdicts.map fun (name, v) => (name, .text v.name))),
          ("n_not_self_checking", .int bad)]
      let percent := shownReal (some coverage.percent)
      let percentText := Number.fixed 1 percent
      let shareNote :=
        if shares.isEmpty then ""
        else
          let known := (shares.filter Share.isKnown).length
          s!", {low.getD 0}/{known} below repo_time 45%"
      let checkNote := if checks.isEmpty then "" else s!", {bad}/{checks.length} not self-checking"
      let seconds := Number.fixed 1 measured
      let history := past.filterMap fun fields =>
        match fields.lookup "n_below_repo_time" with
        | some (.int n) => some n.toNat
        | _ => none
      let reason := low.bind fun n => stopReason percent (history ++ [n])
      let stop := match reason with
        | some r => ["", s!">>> STOP: repo_time converged ({r}). Finalize {suiteFile} now. <<<"]
        | none => []
      let lines := coverage.table ++ coverage.errorLines ++ Share.lines shares ++ changeLines changed
        ++ Check.lines isChanged checks
        ++ ["", s!"[round {number}: {count} benches, {percentText}% covered{shareNote}{checkNote}, measured in {seconds}s]"]
        ++ stop
      { out := String.join (lines.map (· ++ "\n"))
        err := shareErr ++ checkErr
        store := (store.append roundsFile (record.json .line ++ "\n")).toOption.getD store }
  | _, code => { exit := some (if code = 0 then 1 else code), err := o.coverage.err, store }

def lastRound (store : Store) : Option String :=
  (textOf store roundsFile).map fun s => (splitLines s).getLast?.getD ""

end Docweave.Survey
