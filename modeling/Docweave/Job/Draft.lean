import Docweave.Job.Staged

namespace Docweave.Job

open Docweave.Tree

def writeDraftFile (path : Path.Simple) (name : String) (text : Except Fault String) :
    Act Job Unit := do
  let target ← Act.ofExcept (path.withName name)
  print ("Writing \"" ++ target.text ++ "\".\n")
  let text ← Act.ofExcept text
  changeStore (·.write target.text text)

def draftTexts (width : Option Int) : List Element → List Element × Stream String
  | [] => ([], .ofList [])
  | e :: es =>
      let (e, first) := writeDraft width e
      match first.fault with
      | some _ => (e :: es, first)
      | none =>
          let (es, rest) := draftTexts width es
          (e :: es, ⟨first.items ++ rest.items, rest.fault⟩)

def draftOne (tabSize : Int) (width : Option Int) (source : String) : Act Job Unit := do
  let path := Path.Simple.of source
  let xml ← Act.ofExcept (path.withSuffix ".xml")
  let lines := (← get).store.lines path.text
  let marked ← Act.ofExcept (Tree.readLines tabSize path.text lines)
  let es := gatherComments { mark := none } marked
  let document (es : List Element) : Except Fault String := (fileElement "file" path.text es).xml
  writeDraftFile xml (xml.stem ++ "_md" ++ xml.suffix) (document es)
  let (es, texts) := draftTexts width es
  writeDraftFile path (path.stem ++ "_beta" ++ path.suffix) (.ok (String.join texts.items))
  if let some fault := texts.fault then Act.fail fault
  writeDraftFile xml (xml.stem ++ "_output" ++ xml.suffix) (document es)

def draft (tabSize : Int) (width : Option Int) (paths : List String) : Act Job Unit := do
  for path in paths do draftOne tabSize width path

end Docweave.Job
