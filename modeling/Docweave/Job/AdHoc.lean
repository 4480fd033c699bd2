import Docweave.Comment.Block
import Docweave.Item.Render
import Docweave.Job.Basic

namespace Docweave.Job

open Comment

def pieces (path : String) : Act Job (Stream Piece) := do
  let lines := (← get).store.lines path
  let scan := scan false (lines.items.map (Text.expandTabs 4))
  return blocks (some path) ⟨scan.items, scan.fault.orElse fun _ => lines.fault⟩

def blockFault (b : Block) (fault : Fault) : Fault :=
  match b.describe with
  | .error f => f
  | .ok shown =>
      if fault.category = .notUtf8 ∨ fault.category = .notAscii then .missing "fault of block"
      else .blockFailed shown fault

def readBlock (path : String) (b : Block) : Act Job Block := do
  let read (store : Files.Store) : Act Shelf (List Node) :=
    (Node.read (String.join b.texts)).within
      (fun shelf => ⟨{}, { store, shelf, source := some path }⟩) fun s _ => s.env.shelf
  let items ← tryCatch (withShelf read) fun fault => Act.fail (blockFault b fault)
  return { b with items := some items }

structure Sheet where
  text : String := ""
  counts : List (String × Nat) := []

def Sheet.add (s : Sheet) (kind : String) (texts : List String) : Sheet :=
  ⟨s.text ++ String.join texts, Tree.countKey kind s.counts⟩

def injectPiece (path : String) (s : Sheet) : Piece → Act Job Sheet
  | .code line => return s.add "SourceLine" (line.outputs.filterMap id)
  | .block b => do
      let b ← readBlock path b
      let written := b.outputs (← get).settings.width
      print written.printed
      return s.add "CommentBlock" (← Act.ofExcept written.texts)

def injectAdHoc (path : String) : Act Job Sheet := do
  let stream ← pieces path
  let sheet ← stream.items.foldlM (injectPiece path) {}
  match stream.fault with
  | some fault => Act.fail fault
  | none => return sheet

def extractPieces (target : Option String) : Option String → List Piece → Act Job String
  | _, [] => return ""
  | path, .code line :: rest => do
      return String.join (line.outputs.filterMap id) ++ (← extractPieces target path rest)
  | path, .block b :: rest => do
      let (first, last) ← Act.ofExcept b.lineNumbers
      let name ← addFragment target first last b.texts
      let text ←
        if (← get).settings.dryRun then pure ""
        else do
          let some path := path | Act.fail (.missing "path")
          Act.ofExcept (b.replacement path name)
      return text ++ (← extractPieces target (some "") rest)

def extractAdHoc (path : String) (target reference : Option String) : Act Job Sheet := do
  let stream ← pieces path
  let text ← extractPieces target reference stream.items
  match stream.fault with
  | some fault => Act.fail fault
  | none => return { text }

end Docweave.Job
