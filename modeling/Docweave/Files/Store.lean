import Docweave.Files.Content
import Docweave.Path

namespace Docweave.Files

abbrev Place : Type := List String

structure Store where
  home : Place
  files : List (Place × Content) := []
  folders : List Place := []

namespace Store

def inits : Place → List Place
  | [] => [[]]
  | n :: ns => [] :: (inits ns).map (n :: ·)

def empty (home : Place) : Store := { home, folders := inits home }

def isFolderAt (s : Store) (place : Place) : Bool := s.folders.contains place

def content? (s : Store) (place : Place) : Option Content := s.files.lookup place

inductive Dead where
  | missing
  | notFolder
  deriving DecidableEq, Repr

def refusal (path : String) (fault : Fault) : Fault :=
  if Path.hasNull path then .nullInPath else fault

def Dead.fault (path : String) : Dead → Fault
  | missing => refusal path (.noFile path)
  | notFolder => refusal path (.notDirectory path)

def follow (s : Store) : Place → List String → Except Dead Place
  | place, [] => .ok place
  | place, c :: cs =>
      if !s.isFolderAt place then
        .error (if (s.content? place).isSome then .notFolder else .missing)
      else if c = "" ∨ c = "." then s.follow place cs
      else if c = ".." then s.follow place.dropLast cs
      else s.follow (place ++ [c]) cs

def locate (s : Store) (path : String) : Except Dead Place :=
  if path.isEmpty then .error .missing
  else s.follow (if Path.isAbsolute path then [] else s.home) (Path.components path)

def isFolder (s : Store) (path : String) : Bool :=
  match s.locate path with
  | .ok place => s.isFolderAt place
  | .error _ => false

def isFile (s : Store) (path : String) : Bool :=
  match s.locate path with
  | .ok place => (s.content? place).isSome
  | .error _ => false

def exists? (s : Store) (path : String) : Bool := s.isFolder path || s.isFile path

def read (s : Store) (path : String) : Except Fault Content :=
  match s.locate path with
  | .error dead => .error (dead.fault path)
  | .ok place =>
      if s.isFolderAt place then .error (refusal path (.isDirectory path))
      else
        match s.content? place with
        | some c => .ok c
        | none => .error (refusal path (.noFile path))

def lines (s : Store) (path : String) : Stream String :=
  match s.read path with
  | .ok c => c.lines
  | .error fault => .failed fault

def put (place : Place) (c : Content) : List (Place × Content) → List (Place × Content)
  | [] => [(place, c)]
  | (p, d) :: rest => if p = place then (p, c) :: rest else (p, d) :: put place c rest

theorem lookup_put (place : Place) (c : Content) (l : List (Place × Content)) :
    (put place c l).lookup place = some c := by
  induction l with
  | nil => simp [put]
  | cons p rest ih =>
      obtain ⟨q, d⟩ := p
      by_cases h : q = place
      · simp [put, h]
      · have h' : (place == q) = false := by simp [Ne.symm h]
        simp [put, h, List.lookup_cons, h', ih]

def target (s : Store) (path : String) : Except Fault Place :=
  match s.locate path with
  | .error dead => .error (dead.fault path)
  | .ok place => if s.isFolderAt place then .error (.isDirectory path) else .ok place

def writeContent (s : Store) (path : String) (c : Content) : Except Fault Store := do
  let place ← s.target path
  return { s with files := put place c s.files }

def write (s : Store) (path text : String) : Except Fault Store := s.writeContent path (.text text)

def append (s : Store) (path text : String) : Except Fault Store := do
  let place ← s.target path
  let old := (s.content? place).getD (.text "")
  return { s with files := put place (old.append text) s.files }

def addFolder (s : Store) (place : Place) : Store :=
  if s.isFolderAt place then s else { s with folders := s.folders ++ [place] }

def makeFoldersFrom (s : Store) : Place → List String → Except Fault Store
  | _, [] => .ok s
  | place, n :: ns =>
      let next := place ++ [n]
      if s.isFolderAt next then s.makeFoldersFrom next ns
      else if (s.content? next).isSome then
        match ns with
        | [] => .error (.fileExists ("/" ++ String.intercalate "/" next))
        | m :: _ => .error (.notDirectory ("/" ++ String.intercalate "/" (next ++ [m])))
      else (s.addFolder next).makeFoldersFrom next ns

def makeFolders (s : Store) (path : String) : Except Fault Store :=
  s.makeFoldersFrom [] (Path.namesOf path)

def provide (s : Store) (path : String) (c : Content) : Store :=
  let place := Path.namesOf (Path.absolute ("/" ++ String.intercalate "/" s.home) path)
  let s := (inits place.dropLast).foldl addFolder s
  { s with files := put place c s.files }

def remove (s : Store) (path : String) : Store :=
  match s.locate path with
  | .ok place => { s with files := s.files.filter (·.1 ≠ place) }
  | .error _ => s

def cwd (s : Store) : String := "/" ++ String.intercalate "/" s.home

def absolute (s : Store) (path : String) : String := Path.absolute s.cwd path

def relative (s : Store) (path start : String) : Except Fault String :=
  Path.relative s.cwd path start

def namesIn (folder : Place) (places : List Place) : List String :=
  (places.filterMap fun p =>
    if p.dropLast = folder ∧ p ≠ [] then p.getLast? else none).mergeSort fun a b => !decide (b < a)

def fileNames (s : Store) (folder : Place) : List String := namesIn folder (s.files.map Prod.fst)

def folderNames (s : Store) (folder : Place) : List String := namesIn folder s.folders

def size (s : Store) : Nat := s.files.foldr (fun f n => f.2.size + 1 + n) 0

def changed (old new : Store) : List (String × Content) :=
  new.files.filterMap fun (place, c) =>
    if old.content? place = some c then none
    else
      match new.relative ("/" ++ String.intercalate "/" place) "." with
      | .ok path => some (path, c)
      | .error _ => none

def removed (old new : Store) : List String :=
  old.files.filterMap fun (place, _) =>
    if (new.content? place).isSome then none
    else
      match new.relative ("/" ++ String.intercalate "/" place) "." with
      | .ok path => some path
      | .error _ => none

end Store

end Docweave.Files
