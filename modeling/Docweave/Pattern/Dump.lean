import Docweave.Datum
import Docweave.Fault
import Docweave.Pattern.Search

namespace Docweave

namespace Rule

def takenDatum (r : Rule) (f : Found) : Datum :=
  .record ((r.taken f).map fun (label, text) => (label, .text text))

def dumpPart (cs : List Char) : Except Fault String :=
  if cs.isEmpty then .ok "''" else quotedBytes (String.ofList cs)

def dump (r : Rule) (f : Found) : Except Fault String := do
  let before ← dumpPart f.before
  let matched ← dumpPart f.matched
  let after ← dumpPart f.after
  let whole ← quotedBytes (String.ofList f.subject)
  return s!"{whole}\n    ({f.start}, {f.stop}, {before}, {matched}, {after})\n    "
    ++ (r.takenDatum f).quoted

end Rule

inductive Groups where
  | found (rule : Rule) (found : Found)
  | given (groups : List (String × Option String))

namespace Groups

def entries : Groups → List (String × Option String)
  | .found rule f => rule.groups f
  | .given groups => groups

def first (g : Groups) (head : String) : Option (String × String) := firstGroup g.entries head

def dump : Groups → Except Fault String
  | .found rule f => rule.dump f
  | .given _ => .error (.unfit "text of groups")

end Groups

end Docweave
