import Docweave.Job.Basic

namespace Docweave.Job

open Files

def extractPath (store : Store) (folder : Option String) (path : String) : Except Fault String := do
  let beside := (Path.splitExtension path).1 ++ ".md"
  match folder with
  | none => return beside
  | some folder =>
      let common ← Path.common beside folder
      return Path.join folder (← store.relative beside common)

def extractHeader (r : Report) : String :=
  "Automatic extraction by the Doctor.\n"
    ++ "Extract time (ISO 8601): 1970-01-01T00:00:00+0000\n"
    ++ r.datum.json (.indented 2) ++ "\n\n"

def referencePath (store : Store) (folder : Option String) (path target : String) :
    Except Fault String := do
  match folder with
  | some _ =>
      let rel ← store.relative target (Path.join path "..")
      return if "../".isPrefixOf rel || "./".isPrefixOf rel then rel else "./" ++ rel
  | none =>
      let up ← store.relative (Path.parent path) (Path.parent target)
      return Path.join up (Path.base target)

def startExtract (r : Report) : Act Job (Report × Option String) := do
  let settings := (← get).settings
  if settings.dryRun || !r.extract then return ({ r with extractPath := some none }, none)
  let folder := settings.extractFolder
  let target ← ofStore (extractPath · folder r.path)
  let r := { r with extractPath := some (some target) }
  if folder.isSome then
    changeStore fun store => store.makeFolders (store.absolute (Path.join target ".."))
  if (← get).store.exists? target then Act.fail (.extractExists r.datum.quoted)
  changeStore (·.write target (extractHeader r))
  return (r, some (← ofStore (referencePath · folder r.path target)))

end Docweave.Job
