import Docweave.Job.AdHoc
import Docweave.Tree.Output
import Docweave.Tree.Resolve

namespace Docweave.Job

open Docweave.Tree

def writeXml (path : Path.Simple) (stage : String) (es : List Element) : Act Job Unit := do
  let xml ← Act.ofExcept (path.withSuffix ".xml")
  let target ← Act.ofExcept (xml.withName (xml.stem ++ stage ++ xml.suffix))
  let text ← Act.ofExcept (fileElement "file" path.text es).xml
  changeStore (·.write target.text text)

def stage (path : Path.Simple) (name : String) (f : Element → Act Job Element)
    (es : List Element) : Act Job (List Element) := do
  let es ← es.mapM f
  writeXml path name es
  return es

def plainStage (path : Path.Simple) (name : String) (f : Element → Except Fault Element)
    (es : List Element) : Act Job (List Element) :=
  stage path name (fun e => Act.ofExcept (f e)) es

def readComments (path : Path.Simple) : Act Job (List Element) := do
  let lines := (← get).store.lines path.text
  let marked ← Act.ofExcept (Tree.readLines 4 path.text lines)
  let es := gatherComments {} marked
  writeXml path "_lines" es
  plainStage path "_comments" (fun e => do
    extract "extract" "extract" (← settleComment "lines" e)) es

def renderStaged (source : String) : Act Job (List (Element × String) × List (String × Nat)) := do
  let path := Path.Simple.of source
  let settings := (← get).settings
  let es ← readComments path
  let counts := countTags [] es
  let es ← plainStage path "_md" (fun e => do
    return dropStage "lines" (← parseExtract "extract" "markdown" e)) es
  let es ← stage path "_resolved" (fun e => withShelf (resolveAll .final · e)) es
  let es ← plainStage path "_single" (liftSingles "paragraph" "contentLines") es
  let es ← plainStage path "_trees" (liftTrees .final settings.markers) es
  let es ← plainStage path "_manipulated" (fun e => do
    stripNewlines (← joinTexts (← resolveSplitters (← setNewlines e)))) es
  let written ← es.mapM fun e => Act.ofExcept (do
    writeElement settings.width (← layOut (← addPieces 4 e)))
  writeXml path "_output" (written.map Prod.fst)
  return (written, counts)

def injectStaged (source : String) : Act Job Sheet := do
  let (written, counts) ← renderStaged source
  return ⟨String.join (written.map Prod.snd), counts⟩

def extractStaged (source : String) (target reference : Option String) : Act Job Sheet := do
  let es ← readComments (Path.Simple.of source)
  let add (x : Extracted) : Act (Job × String) String := do
    let add := do
      match x.text with
      | some text => addFragment target (some x.first) (some x.last) [text]
      | none => Act.fail (.missing "text")
    add.within Prod.fst fun j s => (j, s.2)
  let write (text : String) : Act (Job × String) Unit := modify fun s => (s.1, s.2 ++ text)
  let job ← get
  let (result, job, text) := (extractEach add write job.settings.dryRun reference es).perform (job, "")
  set job
  Act.ofExcept result
  return { text }

end Docweave.Job
