import Docweave.Fault
import Docweave.Pattern.Search
import Docweave.Text.Tabs

namespace Docweave.Text

open Pattern

def isBreakable (c : Char) : Bool := inRanges c.toNat false [9, 14, 32, 33]

def isWordEnd (c : Char) : Bool := isWord c || oneOf "!\"'&.,?" c

def isLetter (c : Char) : Bool := isWord c && !isDigit c

def isHyphen (c : Char) : Bool := c == '-'

def dash : Pattern := .run true isHyphen 2 none ++ one isWord

def chunkPattern : Pattern :=
  many1 isBreakable
    ||| (behind [isWordEnd] ++ .run true isHyphen 2 none ++ ahead (one isWord))
    ||| (fewest (fun c => !isBreakable c) 1
      ++ ((lit "-" ++ (behind [isLetter, isLetter, isHyphen]
            ||| behind [isLetter, isHyphen, isLetter, isHyphen])
          ++ ahead (one isLetter ++ optional (lit "-") ++ one isLetter))
        ||| ahead (one isBreakable ||| textEnd)
        ||| (behind [isWordEnd] ++ ahead dash)))

def interleave : List (List Char) → List (List Char) → List (List Char)
  | gap :: gaps, found :: founds => gap :: found :: interleave gaps founds
  | gaps, _ => gaps

def chunks (cs : List Char) : List (List Char) :=
  let founds := chunkPattern.findAll cs
  (interleave (gaps cs 0 founds) (founds.map Found.matched)).filter (!·.isEmpty)

def isBlankChunk (cs : List Char) : Bool := cs.all isBlank

def fitting (width : Int) : Nat → List (List Char) → List (List Char) × Nat × List (List Char)
  | used, [] => ([], used, [])
  | used, chunk :: rest =>
      if (used + chunk.length : Int) ≤ width then
        let (line, used', rest') := fitting width (used + chunk.length) rest
        (chunk :: line, used', rest')
      else ([], used, chunk :: rest)

def hyphenBreak? (chunk : List Char) (room : Nat) : Option Nat :=
  let head := chunk.take room
  let tail := head.reverse.takeWhile (!isHyphen ·)
  let cut := head.length - tail.length
  if cut ≤ 1 || (head.take (cut - 1)).all isHyphen then none else some cut

def breakAt (width : Int) (used : Nat) (chunk : List Char) : Nat :=
  let room := if width < 1 then 1 else (width - used).toNat
  if chunk.length ≤ room then room else (hyphenBreak? chunk room).getD room

def fillLine (width : Int) (list : List (List Char)) : List (List Char) × List (List Char) :=
  match fitting width 0 list with
  | (line, used, chunk :: rest) =>
      if (chunk.length : Int) > width then
        let cut := breakAt width used chunk
        (line ++ [chunk.take cut], chunk.drop cut :: rest)
      else (line, chunk :: rest)
  | (line, _, []) => (line, [])

def dropBlankEnd (line : List (List Char)) : List (List Char) :=
  match line.getLast? with
  | some chunk => if isBlankChunk chunk then line.dropLast else line
  | none => line

def dropBlankStart : List (List Char) → List (List Char)
  | chunk :: rest => if isBlankChunk chunk then rest else chunk :: rest
  | [] => []

def fillFrom (width : Int) (indent : List Char) :
    Nat → Bool → List (List Char) → List (List Char)
  | 0, _, _ => []
  | _ + 1, _, [] => []
  | fuel + 1, isFirst, list =>
      let list := if isFirst then list else dropBlankStart list
      let lead := if isFirst then [] else indent
      let (line, rest) := fillLine (width - lead.length) list
      let line := dropBlankEnd line
      if line.isEmpty then fillFrom width indent fuel isFirst rest
      else (lead ++ line.flatten) :: fillFrom width indent fuel false rest

def smooth (cs : List Char) : List Char :=
  (expandTabsFrom 8 0 cs).map fun c => if isBreakable c then ' ' else c

def fill (width : Int) (indent text : String) : Except Fault (List String) :=
  if width ≤ 0 then .error (.wrongWidth width)
  else
    let list := chunks (smooth text.toList)
    let fuel := list.foldl (fun n c => n + c.length + 1) 1
    .ok ((fillFrom width indent.toList fuel true list).map String.ofList)

end Docweave.Text
