import Docweave.Element.Path

namespace Docweave.Tree

open Element

inductive Edition where
  | final
  | draft
  deriving DecidableEq, Repr

namespace Edition

def isReference (d : Edition) (e : Element) : Bool :=
  match d with
  | final => e.has "resolved"
  | draft => e.tag == "doc_uri"

end Edition

def canContain (d : Edition) (parent child : Element) : Except Fault Bool :=
  let layout := child.attribute? "layout"
  if layout = some "span" ∨ layout = some "marker" ∨ (d = .final ∧ child.has "resolved") then .ok true
  else if parent.tag = "paragraph" ∨ parent.tag = "header" then .ok false
  else if parent.tag = "list_item" ∧ (child.tag = "paragraph" ∨ child.tag = "list") then .ok true
  else if parent.tag = "list_item" ∧ child.tag = "list_item" then .ok false
  else if parent.tag = "list" then .ok (child.tag == "list_item")
  else .error (.cannotPlace parent.tag child.tag)

def markers (d : Edition) (reference : Element) : Except Fault (Element × Element) := do
  let doc : Element := { tag := "doc" }
  let names := ["source", "uri"]
  let marked := copyAttributes names reference (doc.set "layout" "marker")
  let opening ← match d with
    | .final => pure marked
    | .draft => pure (copyAttributes names reference doc)
  let text := (← opening.xml).toList
  let text := String.ofList (text.take (text.length - 3) ++ ['>'])
  return ({ opening.set "layout" "marker" with text := some text },
    { marked with text := some "</doc>" })

def spanContained (d : Edition) (parent : Element) :
    List Element → Except Fault (List Element × List Element)
  | [] => .ok ([], [])
  | child :: rest => do
      if ← canContain d parent child then
        let (inside, outside) ← spanContained d parent rest
        return (child :: inside, outside)
      else return ([], child :: rest)

def noteLift (d : Edition) (place : String) (e : Element) : Element :=
  match d with
  | .final => e.set "liftedTree" place
  | .draft => e

def liftReference (d : Edition) (leaveMarkers : Bool) (parentIndex index : Nat)
    (grandparent : Element) : Except Fault Element := do
  let some parent := grandparent.children[parentIndex]? | return grandparent
  let some reference := parent.children[index]? | return grandparent
  let before := parent.children.take index
  let after := parent.children.drop (index + 1)
  let (opening, closing) ←
    if leaveMarkers then do
      let (a, b) ← markers d reference
      pure ([a], [b])
    else pure ([], [])
  let (stay, go) ← spanContained d parent reference.children
  let stay := stay.map (noteLift d "parent")
  let go := go.map (noteLift d "grandparent")
  let tail : Element := noteLift d "tailParent"
    (copyAttributes parent.attributeNames parent { tag := parent.tag })
  let (kept, lifted) : List Element × List Element :=
    if go.isEmpty then (before ++ opening ++ stay ++ closing ++ after, [])
    else
      let (inside, first) := if stay.isEmpty then ([], opening) else (opening ++ stay, [])
      let moved := inside ++ after
      (before, first ++ go ++ closing
        ++ if moved.isEmpty then [] else [{ tail with children := moved }])
  let parents := if index = 0 ∧ kept.isEmpty then [] else [{ parent with children := kept }]
  return { grandparent with
    children := grandparent.children.take parentIndex ++ parents ++ lifted
      ++ grandparent.children.drop (parentIndex + 1) }

def firstGrandchild? (test : Element → Bool) (e : Element) : Option (Address × Nat × Nat) :=
  (forest [] 0 e.children).findSome? fun (address, found) =>
    match address.reverse with
    | index :: parentIndex :: up => if test found then some (up.reverse, parentIndex, index) else none
    | _ => none

def changeAt (f : Element → Except Fault Element) (address : Address) (e : Element) :
    Except Fault Element := do
  match e.at? address with
  | none => return e
  | some found =>
      let changed ← f found
      return e.modifyAt (fun _ => changed) address

def onGrandchildren (test : Element → Bool)
    (step : Nat → Nat → Element → Except Fault Element) : Nat → Element → Except Fault Element
  | 0, e => .ok e
  | fuel + 1, e =>
      match firstGrandchild? test e with
      | none => .ok e
      | some (address, parentIndex, index) => do
          onGrandchildren test step fuel (← changeAt (step parentIndex index) address e)

def liftTrees (d : Edition) (leaveMarkers : Bool) (e : Element) : Except Fault Element := do
  let e ← onGrandchildren d.isReference (liftReference d leaveMarkers) (e.size + 1) e
  match e.first? [.below "paragraph", .below "paragraph"] with
  | some found => throw (.nestedParagraph (← found.xml) (← e.xml))
  | none => return e

def liftSingle (tagRemove countName : String) (e : Element) : Except Fault Element := do
  if e.value? countName ≠ some (.text "1") then return e
  match e.children with
  | [] => return e.set countName "zero"
  | [child] =>
      if child.tag ≠ tagRemove then throw (.wrongChild tagRemove (← e.xml))
      match child.children with
      | [] => throw (.tooFew "children")
      | first :: rest =>
          return { e.set countName "lifted" with
            children := first.set "liftedSingle" (isTrue true) :: rest }
  | _ => throw (.manyChildren (← e.xml))

def liftSingleDraft (e : Element) : Except Fault Element := do
  if e.tag ≠ "doc_uri" ∨ e.value? "contentLines" ≠ some (.text "1") then return e
  match e.children with
  | [] => return e
  | [child] =>
      if child.tag ≠ "paragraph" then throw (.soleChildNotParagraph (← e.xml))
      return { e with children := child.children }
  | _ => throw (.manyChildren (← e.xml))

def changeDown (f : Element → Except Fault Element) : Nat → Element → Except Fault Element
  | 0, e => .ok e
  | fuel + 1, e => do
      let e ← f e
      return { e with children := ← e.children.mapM (changeDown f fuel) }

def liftSinglesWith (f : Element → Except Fault Element) (e : Element) : Except Fault Element := do
  return { e with children := ← e.children.mapM (changeDown f e.size) }

def liftSingles (tagRemove countName : String) : Element → Except Fault Element :=
  liftSinglesWith (liftSingle tagRemove countName)

def liftSinglesDraft : Element → Except Fault Element := liftSinglesWith liftSingleDraft

end Docweave.Tree
