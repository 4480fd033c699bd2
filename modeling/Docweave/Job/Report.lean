import Docweave.Tree.Extract

namespace Docweave.Job

structure Report where
  path : String
  extension : Option String
  overwrote : Bool
  extract : Bool
  lineTypes : Option (List (String × Nat)) := none
  extractPath : Option (Option String) := none
  diffs : Option (List String) := none
  deriving DecidableEq, Repr

namespace Report

def counts (cs : List (String × Nat)) : Datum :=
  .record (cs.map fun (k, n) => (k, .int n))

def datum (r : Report) : Datum :=
  .record ([("path", .text r.path), ("extension", .ofText? r.extension),
    ("overwrote", .bool r.overwrote), ("extract", .bool r.extract),
    ("lineTypes", .ofOption counts r.lineTypes)]
    ++ (r.extractPath.map fun p => ("extractPath", Datum.ofText? p)).toList)

def finished (r : Report) : Report :=
  { r with extension := some (r.extension.getD "not checked") }

def wasEdited (r : Report) : Bool := !(r.diffs.getD []).isEmpty

def extensionKey (r : Report) : String :=
  match r.extension with
  | none => "not checked"
  | some e => String.ofList (e.toList.drop 1)

end Report

structure Summary where
  totalFiles : Nat := 0
  overwrites : Nat := 0
  edited : Nat := 0
  extensionCounts : List (String × Nat) := []
  deriving DecidableEq, Repr

namespace Summary

def add (s : Summary) (r : Report) : Summary where
  totalFiles := s.totalFiles + 1
  overwrites := s.overwrites + if r.overwrote then 1 else 0
  edited := s.edited + if r.wasEdited then 1 else 0
  extensionCounts := Tree.countKey r.extensionKey s.extensionCounts

def datum (s : Summary) : Datum :=
  .record [("totalFiles", .int s.totalFiles), ("overwrites", .int s.overwrites),
    ("edited", .int s.edited), ("extensionCounts", Report.counts s.extensionCounts)]

end Summary

end Docweave.Job
