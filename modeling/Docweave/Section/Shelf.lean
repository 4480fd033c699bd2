import Docweave.Act
import Docweave.Element.Basic
import Docweave.Files.Store
import Docweave.Section.Basic
import Docweave.Uri

namespace Docweave

structure Shelf where
  sections : List Section := []
  files : List String := []
  deriving DecidableEq, Repr

namespace Shelf

open Files

def addAll (path : String) : List String → List Section → Option Fault → Act Shelf Unit
  | _, [], none => return
  | _, [], some fault => Act.fail fault
  | names, s :: rest, fault => do
      modify fun shelf => { shelf with sections := s :: shelf.sections }
      if names.contains s.name then Act.fail (.repeatedSection s.name path)
      modify fun shelf => { shelf with files := shelf.files ++ [path] }
      addAll path (names ++ [s.name]) rest fault

def loadFile (store : Store) (path : String) : Act Shelf Unit := do
  if (← get).files.contains path then return
  let sections := Section.read path (store.lines path)
  addAll path [] sections.items sections.fault

def filesBelow (store : Store) : Nat → Place → String → List String
  | 0, _, _ => []
  | fuel + 1, place, path =>
      (store.fileNames place).map (Path.join path)
        ++ (store.folderNames place).flatMap fun name =>
          filesBelow store fuel (place ++ [name]) (Path.join path name)

def filesAt (store : Store) (path : String) : List String :=
  if store.isFile path || Path.hasNull path then [path]
  else
    match store.locate path with
    | .ok place =>
        if store.isFolderAt place then filesBelow store (store.folders.length + 1) place path else []
    | .error _ => []

def load (store : Store) (paths : List String) : Act Shelf Unit :=
  paths.forM fun path => (filesAt store (store.absolute path)).forM (loadFile store)

def fileOf (store : Store) (uri : Uri) (base : Option String) : Except Fault (Option String) :=
  if uri.authority = "" then .ok none
  else if uri.authority = "." ∨ uri.authority = ".." then
    match base with
    | none => .error (.missing "path")
    | some base =>
        let folder := Path.parent (store.absolute base)
        let folder := if uri.authority = ".." then Path.join folder ".." else folder
        .ok (some (store.absolute (folder ++ uri.path)))
  else .error (.unknownHost uri.quoted (base.getD "None"))

def explain (uri : String) (base : Option String) (fault : Fault) : Fault :=
  if fault.category.isSystem then .unreadable uri (base.getD "None") fault else fault

def slashed (uri : String) : String :=
  String.ofList (uri.toList.map fun c => if c = '\\' then '/' else c)

def fits (parts : Uri) (file : Option String) (s : Section) : Bool :=
  s.name == parts.fragment && (file.map (· == s.path)).getD true

def fetch (store : Store) (uri : String) (base : Option String) : Option String → Act Shelf Unit
  | none => return
  | some path => tryCatch (loadFile store path) fun fault => Act.fail (explain uri base fault)

def pick (uri : String) (parts : Uri) (file : Option String) : Act Shelf Section := do
  match ((← get).sections.filter (fits parts file)).getLast? with
  | some s => return s
  | none =>
      Act.fail (.noSection uri parts.quoted ((file.map fun path => s!"file \"{path}\"").getD "cache"))

def find (store : Store) (uri base : Option String) : Act Shelf Section := do
  let some uri := uri | Act.fail (.unfit "URI")
  let parts ← Act.ofExcept (Uri.parse (slashed uri))
  let file ← Act.ofExcept (fileOf store parts base)
  fetch store uri base file
  pick uri parts file

def resolve (store : Store) (e : Element) : Act Shelf (String × Element) := do
  let s ← find store (e.attribute? "uri") (e.attribute? "source")
  let e := (e.set "contentLines" (toString s.lines.length)).set "content" (String.join s.lines)
  return (← Act.ofExcept (store.relative s.path "."), e)

end Shelf

end Docweave
