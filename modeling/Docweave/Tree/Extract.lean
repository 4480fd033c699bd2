import Docweave.Act
import Docweave.Text.Number
import Docweave.Tree.Comments

namespace Docweave.Tree

open Element Text

structure Extracted where
  first : Int
  last : Int
  text : Option String
  deriving DecidableEq

def extracted? (e : Element) : Except Fault (Option Extracted) := do
  match e.children.find? (·.tag == "extract") with
  | none => return none
  | some extract =>
      let first ← wholeOf "line" (e.attribute? "lineFirst")
      let last ← wholeOf "line" (e.attribute? "lineLast")
      return some ⟨first, last, extract.text⟩

def extractEach {σ : Type} (add : Extracted → Act σ String) (write : String → Act σ Unit)
    (dryRun : Bool) : Option String → List Element → Act σ Unit
  | _, [] => return
  | path, e :: es => do
      match ← Act.ofExcept (extracted? e) with
      | none =>
          let some text := e.text | Act.fail (.missing "text")
          write text
          extractEach add write dryRun path es
      | some x =>
          let name ← add x
          if !dryRun then write (← Act.ofExcept (replacement e path name))
          extractEach add write dryRun (some "") es

def countKey (key : String) : List (String × Nat) → List (String × Nat)
  | [] => [(key, 1)]
  | (k, n) :: rest => if k = key then (k, n + 1) :: rest else (k, n) :: countKey key rest

def countTags (counts : List (String × Nat)) (es : List Element) : List (String × Nat) :=
  es.foldl (fun counts e => countKey e.tag counts) counts

end Docweave.Tree
