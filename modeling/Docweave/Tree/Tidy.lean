import Docweave.Datum
import Docweave.Tree.Lift

namespace Docweave.Tree

open Element Text

def setNewline (e : Element) : Except Fault Element := do
  match e.value? "setNewlines" with
  | none => return e
  | some v =>
      let path := match v with
        | .text s => s
        | .names ns => namesText ns
        | .missing => "None"
      let steps ← Step.parse s!"./{path}"
      return e.set "newlines" (if (e.first? steps).isSome then "2" else "1")

def setNewlines (e : Element) : Except Fault Element := do
  return { e with children := ← mapHeadsEach setNewline e.children }

def isSplitter (e : Element) : Bool := e.value? "splitter" == some (.text (isTrue true))

def splitBefore (parentIndex index : Nat) (grandparent : Element) : Except Fault Element := do
  let some parent := grandparent.children[parentIndex]? | return grandparent
  let some splitter := parent.children[index]? | return grandparent
  let done := splitter.set "splitter" (isTrue false)
  let parent := { parent with children := parent.children.set index done }
  let shown := (parent.children[index - 1]?).getD done
  let parent := parent.set "split" s!"{index} {← shown.xml}"
  let split := copyAttributes ["newlines"] parent
    ({ tag := parent.tag, children := parent.children.drop index } : Element)
  let split := { split with attributes := ("split", .text "new") :: split.attributes }
  let parents :=
    if index = 0 then [parent]
    else [{ parent with children := parent.children.take index }, split]
  return { grandparent with
    children := grandparent.children.take parentIndex ++ parents
      ++ grandparent.children.drop (parentIndex + 1) }

def resolveSplitters (e : Element) : Except Fault Element :=
  onGrandchildren isSplitter splitBefore (e.size + 1) e

structure Joining where
  kept : List Element := []
  removed : List (Nat × String) := []
  index : Nat := 0
  inText : Bool := false

def joinChild (j : Joining) (child : Element) : Except Fault Joining := do
  if child.tag ≠ "text" then
    return { j with kept := j.kept ++ [child], index := j.index + 1, inText := false }
  match j.inText, j.kept.getLast? with
  | true, some last =>
      match last.text, child.text with
      | some a, some b =>
          return { j with
            kept := j.kept.dropLast ++ [{ last with text := some (a ++ b) }]
            removed := (j.index, b) :: j.removed
            index := j.index + 1 }
      | _, _ => throw (.missing "text")
  | _, _ => return { j with kept := j.kept ++ [child], index := j.index + 1, inText := true }

def joinIn (e : Element) : Except Fault Element := do
  let j ← e.children.foldlM joinChild {}
  if j.removed.isEmpty then return e
  let note := Datum.list (j.removed.map fun (i, s) => .list [.int i, .text s])
  return { e.set "consolidated" note.quoted with children := j.kept }

def joinTexts (e : Element) : Except Fault Element := mapUp joinIn e

def stripIn (e : Element) : Except Fault Element := do
  if e.tag ≠ "paragraph" then return e
  match e.children.findIdx? (·.tag == "text") with
  | none => return e
  | some i =>
      return { e with children := e.children.modify i fun c =>
        match c.text with
        | none => c
        | some text =>
            let stripped := dropNewlines text
            if stripped = text then c
            else { c.set "stripped" (toString (text.length - stripped.length)) with
              text := some stripped } }

def stripNewlines (e : Element) : Except Fault Element := do
  return { e with children := ← mapUpEach stripIn e.children }

end Docweave.Tree
