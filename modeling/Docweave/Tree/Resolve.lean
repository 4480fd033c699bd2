import Docweave.Markup.Elements
import Docweave.Section.Shelf
import Docweave.Tree.Comments
import Docweave.Tree.Tidy

namespace Docweave.Tree

open Element Files

def readMarkdown (tag text : String) : Except Fault Element :=
  ((Markup.readElement tag text).perform {}).1

def setSource (source : Value) (e : Element) : Except Fault Element := do
  let mark (e : Element) : Except Fault Element :=
    .ok (if e.tag = "doc_uri" then e.setValue "source" source else e)
  return { e with children := ← mapHeadsEach mark e.children }

def parseExtract (tagExtract tagMarkdown : String) (e : Element) : Except Fault Element := do
  match e.first? (← Step.parse tagExtract) with
  | none => return e
  | some extract =>
      let some text := extract.text | throw (.missing "text")
      let markdown ← readMarkdown tagMarkdown text
      return e.append (← setSource ((e.value? "source").getD .missing) markdown)

def resolveReference (store : Store) (e : Element) : Act Shelf Element := do
  let (path, e) ← Shelf.resolve store e
  let inner ← Act.ofExcept (readMarkdown "markdown" ((e.attribute? "content").getD ""))
  let inner ← Act.ofExcept (setSource (.text path) inner)
  return { e with children := e.children ++ inner.children }.set "resolved" (isTrue true)

def waiting (d : Edition) (e : Element) : List Address :=
  let base := match d with
    | .final => Step.anyBelow
    | .draft => Step.below "doc_uri"
  (e.select [base, .keep (.equals "resolved" (isTrue false))]).map Prod.fst

def resolveAt (store : Store) (e : Element) (address : Address) : Act Shelf Element := do
  match e.at? address with
  | none => return e
  | some found =>
      let resolved ← resolveReference store found
      return e.modifyAt (fun _ => resolved) address

def resolveRounds (d : Edition) (store : Store) : Nat → Element → Act Shelf Element
  | 0, e => return e
  | fuel + 1, e => do
      let addresses := waiting d e
      if addresses.isEmpty then return e
      resolveRounds d store fuel (← addresses.foldlM (resolveAt store) e)

def resolveAll (d : Edition) (store : Store) (e : Element) : Act Shelf Element := do
  resolveRounds d store (2 * store.size + (← get).sections.length + 2) e

def insertExtraction (store : Store) (comment : Element) : Act Shelf (Element × List String) := do
  let texts := (← Act.ofExcept (extraction "extract" comment)).getD []
  let text := String.join texts
  let markdown ← Act.ofExcept (readMarkdown "markdown" text)
  let markdown := copyAttributes comment.attributeNames comment markdown
  let markdown ← match comment.value? "source" with
    | some source => Act.ofExcept (setSource source markdown)
    | none => pure markdown
  let markdown ← resolveAll .draft store markdown
  let markdown ← Act.ofExcept (do
    let e ← liftSinglesDraft markdown
    let e ← liftTrees .draft false e
    let e ← setNewlines e
    let e ← resolveSplitters e
    let e ← joinTexts e
    stripNewlines e)
  let extract : Element := { tag := "extract", text := some text }
  return ({ comment with children := markdown :: extract :: comment.children }, texts)

end Docweave.Tree
