import Docweave.Job.Run
import Docweave.Trial.Source

namespace Docweave

inductive Trial where
  | scan (times : Nat)
  | blocks (times : Nat)
  | extract (plain : Nat)
  deriving DecidableEq, Repr

namespace Trial

open Comment Files

def width : Int := 78

def scannedData : Scanned → List Datum
  | .code l => [.tuple [.null, .ofInt? l.number]]
  | .comment l =>
      [.tuple [.ofText? (l.part.map Part.name), .ofInt? l.number], .text l.quoted]

def scannedNumber : Scanned → Datum
  | .code l => .ofInt? l.number
  | .comment l => .ofInt? l.number

def scanData (times : Nat) : List Datum :=
  let lines := Comment.readLines 4 (copies times (ofLines commented))
  (Comment.scan false lines).items.flatMap scannedData
    ++ (Comment.scan false (lines.take 20)).items.map scannedNumber

def readItems (b : Block) : Except Fault Block := do
  let desk : Node.Desk := { store := .empty [], source := some b.source }
  let items ← ((Node.read (String.join b.texts)).perform ⟨{}, desk⟩).1
  return { b with items := some items }

def blockData (b : Block) : Except Fault (List Datum) := do
  let b ← readItems b
  let asIs := b.outputs none
  let filled := asIs.block.outputs (some width)
  let b := filled.block
  let tuples ← (b.outputs none).block.tuples
  let (first, last) ← b.lineNumbers
  return [.text (String.join (← asIs.texts)), .text (String.join (← filled.texts)),
    .text (← b.describe), b.datum, .ofOption .tuple tuples,
    .tuple [.ofInt? first, .ofInt? last], .text (← b.replacement "./d.md" "frag")]

def pieceData : Piece → Except Fault (List Datum)
  | .code _ => .ok []
  | .block b => blockData b

def sourceData (times : Nat) (path : String) (lines : List String) : Except Fault (List Datum) := do
  let lines := Comment.readLines 4 (copies times (ofLines lines))
  let pieces ← (Comment.blocks (some path) (Comment.scan false lines).stream).toExcept
  return (← pieces.mapM pieceData).flatten

def extractData (plain : Nat) : Except Fault (List Datum) := do
  let path := "data/ext.h"
  let store := (Store.empty []).provide path (.text (ofLines (header plain 4)))
  let settings : Job.Settings :=
    { width := some width, adHoc := true, dryRun := true, extract := true }
  let (result, job) := (Job.run [path]).perform ({ store, settings } : Job)
  result
  let edited := (job.summary.map Job.Summary.edited).getD 0
  return job.reports.flatMap (fun r =>
    [.ofText? (r.extractPath.getD none), .int (r.diffs.getD []).length]) ++ [.int edited]

def run : Trial → Except Fault Datum
  | scan times => .ok (.list (scanData times))
  | blocks times => do
      let plain ← sourceData times "source.h" extractable
      let swift ← sourceData times "source.swift" swift
      return .list (plain ++ swift)
  | extract plain => (extractData plain).map .list

end Trial

end Docweave
