import Docweave.CommandLine.Options
import Docweave.Job.Run

namespace Docweave.CommandLine

open Files

structure ReaderFolder where
  path : String
  added : Bool
  warning : String := ""
  deriving DecidableEq, Repr

def defaultFolder : String := "/mistune"

def ReaderFolder.find (store : Store) (environment given : Option String) : ReaderFolder :=
  if given = some "" then ⟨"", false, ""⟩
  else
    let path := store.absolute ((given.orElse fun _ => environment).getD defaultFolder)
    let file := Path.join path "mistune.py"
    let warning :=
      if !store.isFolder path then
        "Warning: Path for mistune import isn't a directory \"" ++ path ++ "\".\n"
      else if !store.isFile file then
        "Warning: Directory for mistune import doesn't include expected file \"" ++ file ++ "\".\n"
      else ""
    ⟨path, true, warning⟩

inductive Outcome where
  | returned (code : Nat)
  | exited (code : Nat)
  | failed (fault : Fault)

structure Ran where
  outcome : Outcome
  out : String := ""
  err : String := ""
  store : Store

def Options.job (o : Options) (store : Store) : Job where
  store := store
  settings :=
    { width := o.width.filter (0 < ·)
      adHoc := o.adHoc
      dryRun := !o.overwrite
      markers := o.markers
      extract := o.extract
      extractFolder := o.extractFolder }

def Options.show (o : Options) : Job.Event → String
  | .printed text => text
  | .reported r =>
      (if o.json then r.datum.json .line ++ "\n" else "")
        ++ if o.diffs then String.join (r.diffs.getD []) else ""

def Options.perform (o : Options) : Act Job (Option Complaint) := do
  if let some paths := o.load then Job.load paths
  match o.inputs with
  | none => return some .noInput
  | some paths =>
      Job.run paths
      return none

def complaintText (program : String) (c : Complaint) : String :=
  usage program ++ program ++ ": error: " ++ c.message ++ "\n"

def run (program : String) (environment : Option String) (words : List String) (store : Store) : Ran :=
  match Options.read words with
  | .error .help => { outcome := .exited 0, out := helpText program, store }
  | .error (.complaint c) => { outcome := .exited 2, err := complaintText program c, store }
  | .ok o =>
      let warning := (ReaderFolder.find store environment o.readerFolder).warning
      let (result, job) := o.perform.perform (o.job store)
      let out := String.join (job.events.map o.show)
      match result with
      | .error fault => { outcome := .failed fault, out, err := warning, store := job.store }
      | .ok (some c) =>
          { outcome := .exited 2, out, err := warning ++ complaintText program c, store := job.store }
      | .ok none =>
          let summary := (job.summary.getD {}).datum.json (.indented 4)
          { outcome := .returned 0, out := out ++ summary ++ "\n", err := warning, store := job.store }

def systemNumber : Fault → Nat
  | .noFile _ => 2
  | .fileExists _ => 17
  | .notDirectory _ => 20
  | .isDirectory _ => 21
  | _ => 1

def Ran.told (r : Ran) : Ran :=
  match r.outcome with
  | .failed fault =>
      if fault.category.isValue then
        let cause := (fault.cause.map Fault.message).getD "None"
        { r with outcome := .returned 2, err := r.err ++ fault.message ++ "\n" ++ cause ++ "\n" }
      else if fault.category.isSystem then
        { r with outcome := .returned (systemNumber fault), err := r.err ++ fault.message ++ "\n" }
      else r
  | _ => r

def runTold (environment : Option String) (words : List String) (store : Store) : Ran :=
  (run "doctor" environment words store).told

end Docweave.CommandLine
