import Docweave.Job.Report
import Docweave.Section.Shelf

namespace Docweave

namespace Job

structure Settings where
  width : Option Int := none
  adHoc : Bool := false
  dryRun : Bool := false
  markers : Bool := false
  extract : Bool := false
  extractFolder : Option String := none
  extensions : List String := [".h", ".swift"]
  deriving DecidableEq, Repr

inductive Event where
  | printed (text : String)
  | reported (report : Report)

end Job

structure Job where
  settings : Job.Settings := {}
  store : Files.Store
  shelf : Option Shelf := none
  summary : Option Job.Summary := none
  events : List Job.Event := []
  /-- The sources whose temporary file stands. Such files lie in a folder apart from the store. -/
  scratch : List String := []

namespace Job

open Files

def scratched (source : String) (j : Job) : Job := { j with scratch := j.scratch ++ [source] }

def cleared (j : Job) : Job := { j with scratch := j.scratch.dropLast }

def ofStore {α : Type} (f : Store → Except Fault α) : Act Job α := do
  Act.ofExcept (f (← get).store)

def changeStore (f : Store → Except Fault Store) : Act Job Unit := do
  let store ← ofStore f
  modify fun j => { j with store }

def withShelf {α : Type} (f : Store → Act Shelf α) : Act Job α := do
  let j ← get
  (f j.store).within (fun j => j.shelf.getD {}) fun shelf j => { j with shelf := some shelf }

def load (paths : List String) : Act Job Unit := withShelf (Shelf.load · paths)

def print (text : String) : Act Job Unit :=
  if text.isEmpty then return
  else modify fun j => { j with events := j.events ++ [.printed text] }

def numberText : Option Int → String
  | some n => toString n
  | none => "None"

def addFragment (path : Option String) (first last : Option Int) (texts : List String) :
    Act Job String := do
  let name := s!"line-{numberText first}-{numberText last}"
  match path with
  | none => return name
  | some path =>
      if (← get).settings.dryRun then return name
      changeStore (·.append path ("# " ++ name ++ "\n" ++ String.join texts ++ "\n"))
      return name

end Job

end Docweave
