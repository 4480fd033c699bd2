import Docweave.Fault

namespace Docweave.Path

def components (p : String) : List String := (p.toList.splitOn '/').map String.ofList

def isAbsolute (p : String) : Bool := p.toList.head? == some '/'

def hasNull (p : String) : Bool := p.toList.contains '\x00'

def cut (p : String) : List Char × List Char :=
  let base := (p.toList.reverse.takeWhile (· != '/')).reverse
  (p.toList.take (p.length - base.length), base)

def base (p : String) : String := String.ofList (cut p).2

def parent (p : String) : String :=
  let head := (cut p).1
  let trimmed := Text.dropEndWhile (· == '/') head
  String.ofList (if trimmed.isEmpty then head else trimmed)

def cutExtension (name : List Char) : List Char × List Char :=
  let ext := (name.reverse.takeWhile (· != '.')).reverse
  let stem := name.take (name.length - ext.length - 1)
  if ext.length < name.length && stem.any (· != '.') then (stem, '.' :: ext) else (name, [])

def splitExtension (p : String) : String × String :=
  let (head, name) := cut p
  let (stem, ext) := cutExtension name
  (String.ofList (head ++ stem), String.ofList ext)

def extension (p : String) : String := (splitExtension p).2

def join (p q : String) : String :=
  if isAbsolute q then q
  else if p.isEmpty || p.toList.getLast? == some '/' then p ++ q
  else p ++ "/" ++ q

def normalizeStep (rooted : Bool) (kept : List String) (component : String) : List String :=
  if component = "" ∨ component = "." then kept
  else if component ≠ ".." then component :: kept
  else
    match kept with
    | [] => if rooted then [] else [".."]
    | ".." :: _ => ".." :: kept
    | _ :: rest => rest

def rootOf (p : String) : String :=
  match (p.toList.takeWhile (· == '/')).length with
  | 0 => ""
  | 2 => "//"
  | _ => "/"

def normalize (p : String) : String :=
  let root := rootOf p
  let kept := ((components p).foldl (normalizeStep (root ≠ "")) []).reverse
  let path := root ++ String.intercalate "/" kept
  if path.isEmpty then "." else path

def absolute (cwd p : String) : String :=
  normalize (if isAbsolute p then p else join cwd p)

def namesOf (p : String) : List String := (components p).filter (· ≠ "")

def dropCommon : List String → List String → List String × List String
  | x :: xs, y :: ys => if x = y then dropCommon xs ys else (x :: xs, y :: ys)
  | xs, ys => (xs, ys)

def relative (cwd p start : String) : Except Fault String :=
  if p.isEmpty then .error .noPath
  else
    let (up, down) := dropCommon (namesOf (absolute cwd start)) (namesOf (absolute cwd p))
    let names := up.map (fun _ => "..") ++ down
    .ok (if names.isEmpty then "." else String.intercalate "/" names)

def commonStart : List String → List String → List String
  | x :: xs, y :: ys => if x = y then x :: commonStart xs ys else []
  | _, _ => []

def common (p q : String) : Except Fault String :=
  if isAbsolute p ≠ isAbsolute q then .error .mixedPaths
  else
    let names (r : String) := (components r).filter fun c => c ≠ "" ∧ c ≠ "."
    .ok ((if isAbsolute p then "/" else "") ++ String.intercalate "/" (commonStart (names p) (names q)))

structure Simple where
  root : String
  names : List String
  deriving DecidableEq, Repr

namespace Simple

def of (p : String) : Simple := ⟨rootOf p, (components p).filter fun c => c ≠ "" ∧ c ≠ "."⟩

def text (p : Simple) : String :=
  let s := p.root ++ String.intercalate "/" p.names
  if s.isEmpty then "." else s

def name (p : Simple) : String := p.names.getLast?.getD ""

def cutName (name : String) : String × String :=
  let cs := name.toList
  let ext := (cs.reverse.takeWhile (· != '.')).reverse
  let stem := cs.take (cs.length - ext.length - 1)
  if ext.isEmpty || stem.isEmpty || ext.length == cs.length then (name, "")
  else (String.ofList stem, "." ++ String.ofList ext)

def stem (p : Simple) : String := (cutName p.name).1

def suffix (p : Simple) : String := (cutName p.name).2

def quoted (p : Simple) : String := "PosixPath(" ++ Text.quoted p.text ++ ")"

def withName (p : Simple) (name : String) : Except Fault Simple :=
  if p.name.isEmpty then .error (.emptyName p.quoted)
  else if name.isEmpty || name.toList.contains '/' || name == "." then .error (.badName name)
  else .ok { p with names := p.names.dropLast ++ [name] }

def withSuffix (p : Simple) (suffix : String) : Except Fault Simple :=
  if p.name.isEmpty then .error (.emptyName p.quoted)
  else .ok { p with names := p.names.dropLast ++ [p.stem ++ suffix] }

end Simple

end Docweave.Path
