import Docweave.Diff
import Docweave.Job.Extract
import Docweave.Job.Staged

namespace Docweave.Job

open Files

def writeSource (r : Report) (reference : Option String) : Act Job Sheet := do
  let settings := (← get).settings
  let target := r.extractPath.getD none
  match r.extract, settings.adHoc with
  | true, true => extractAdHoc r.path target reference
  | true, false => extractStaged r.path target reference
  | false, true => do
      modify fun j => { j with shelf := some (j.shelf.getD {}) }
      injectAdHoc r.path
  | false, false => do
      modify fun j => { j with shelf := some (j.shelf.getD {}) }
      injectStaged r.path

/-- Acts with a temporary file made for a source. Only an act that succeeds comes to its removal. -/
def withScratch {α : Type} (source : String) (a : Act Job α) : Act Job α := do
  modify (scratched source)
  let x ← a
  modify cleared
  return x

def overwriteOne (r : Report) : Act Job Report := do
  let (r, reference) ← startExtract { r with lineTypes := some [] }
  withScratch r.path do
    let sheet ← writeSource r reference
    let old ← Act.ofExcept ((← get).store.lines r.path).toExcept
    let new := (Content.text sheet.text).lines.items
    let diffs := Diff.context 1 r.path "Edited by the Doctor." old new
    if !(← get).settings.dryRun then changeStore (·.write r.path sheet.text)
    return { r with lineTypes := some sheet.counts, diffs := some diffs }

def report (s : Summary) (r : Report) : Act Job Summary := do
  modify fun j => { j with events := j.events ++ [.reported r.finished] }
  return s.add r

def visitFile (s : Summary) (path : String) : Act Job Summary := do
  let settings := (← get).settings
  let extension := Path.extension (Path.base path)
  let wanted := settings.extensions.contains extension
  let r : Report := { path, extension := some extension, overwrote := wanted, extract := settings.extract }
  report s (← if wanted then overwriteOne r else pure r)

def visitFolder : Nat → Summary → Place → String → Act Job Summary
  | 0, s, _, _ => return s
  | fuel + 1, s, place, path => do
      let store := (← get).store
      let files := (store.fileNames place).filter (· ≠ ".DS_Store")
      let folders := store.folderNames place
      let s ← files.foldlM (fun s name => visitFile s (Path.join path name)) s
      folders.foldlM (fun s name => visitFolder fuel s (place ++ [name]) (Path.join path name)) s

def visit (s : Summary) (path : String) : Act Job Summary := do
  let j ← get
  match j.store.locate path with
  | .ok place =>
      if j.store.isFolderAt place then visitFolder (2 * j.store.folders.length + 2) s place path
      else visitOne s path
  | .error _ => visitOne s path
where
  visitOne (s : Summary) (path : String) : Act Job Summary := do
    let extract := (← get).settings.extract
    report s (← overwriteOne { path, extension := none, overwrote := true, extract })

def run (paths : List String) : Act Job Unit := do
  modify fun j => { j with events := [] }
  let summary ← paths.foldlM visit {}
  modify fun j => { j with summary := some summary }

def reports (j : Job) : List Report :=
  j.events.filterMap fun
    | .reported r => some r
    | .printed _ => none

def printed (j : Job) : String :=
  String.join (j.events.filterMap fun
    | .reported _ => none
    | .printed text => some text)

end Docweave.Job
