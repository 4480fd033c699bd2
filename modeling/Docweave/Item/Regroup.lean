import Docweave.Command
import Docweave.Item.Basic
import Docweave.Stream

namespace Docweave

namespace Node

open Text

def canHold (block : BlockKind) (kind : ItemKind) : Option (Option Bool) :=
  match block, kind with
  | .paragraph, .span _ => some (some true)
  | .paragraph, .block _ => some (some false)
  | .header, .span _ => some (some true)
  | .header, .block _ => some (some false)
  | .listItem, .span _ => some (some true)
  | .listItem, .block .list => some (some true)
  | .listItem, .block .paragraph => some (some true)
  | .listItem, .block .listItem => some (some false)
  | .listItem, .block _ => some none
  | _, _ => none

def isContainer (block : BlockKind) : Bool :=
  block == .paragraph || block == .header || block == .listItem

def canContain (block : BlockKind) (n : Node) : Except Fault Bool := do
  match ← n.kind? with
  | none =>
      if isContainer block then .error (.containUndecided block.name (← n.quoted))
      else .error (.unfit "kind of item")
  | some kind =>
      match canHold block kind with
      | some (some b) => .ok b
      | some none => .error (.containUndecided block.name (← n.quoted))
      | none => .error (.containUnknown block.name kind.name)

def membersOf : Contents → List Node
  | .text s => s.toList.map fun c => .text (String.singleton c)
  | .nodes ns => ns

structure Merged where
  blocks : List Node
  pending : List Node

namespace Merged

def flush (kind : BlockKind) (trait : Trait) (m : Merged) : List Node :=
  if m.pending.isEmpty then m.blocks else m.blocks ++ [Node.block kind trait m.pending]

def member (kind : BlockKind) (trait : Trait) (m : Merged) (n : Node) : Except Fault Merged := do
  if ← canContain kind n then return { m with pending := m.pending ++ [n] }
  else return ⟨m.flush kind trait ++ [n], []⟩

def child (kind : BlockKind) (trait : Trait) (m : Merged) : Node → Except Fault Merged
  | .item (some .included) _ _ contents => (membersOf contents).foldlM (member kind trait) m
  | .item block span t contents =>
      .ok { m with pending := m.pending ++ [.item block span t contents] }
  | _ => .error (.unfit "kind of item")

end Merged

def mergeIncluded (kind : BlockKind) (trait : Trait) (ns : List Node) :
    Except Fault (List Node) := do
  let m ← ns.foldlM (Merged.child kind trait) ⟨[], []⟩
  return m.flush kind trait

def joinTexts : List Contents → Except Fault (List Node)
  | [] => .ok []
  | [contents] => .ok [.span .text contents]
  | many => do
      let texts ← many.mapM fun
        | .text s => Except.ok s
        | .nodes _ => .error (.missing "text")
      return [ofText (String.join texts)]

inductive Run where
  | none
  | one (n : Node) (contents : Contents)
  | several (contents : List Contents)

namespace Run

def add (n : Node) (contents : Contents) : Run → Run
  | .none => .one n contents
  | .one _ first => .several [first, contents]
  | .several cs => .several (cs ++ [contents])

def close : Run → Stream Node
  | .none => .nil
  | .one n _ => ⟨[n], Option.none⟩
  | .several cs =>
      match joinTexts cs with
      | .ok ns => ⟨ns, Option.none⟩
      | .error fault => .failed fault

end Run

def consolidateFrom : Run → List Node → Stream Node
  | run, [] => run.close
  | run, n :: ns =>
      if !n.isItem then .failed (.notItem n.className)
      else
        match n.textContents? with
        | some contents => consolidateFrom (run.add n contents) ns
        | none => run.close.append (.cons n (consolidateFrom .none ns))

def consolidate (ns : List Node) : Stream Node := consolidateFrom .none ns

def trimLines (s : String) : List Char :=
  match displayLines s.toList with
  | [] => []
  | l :: ls => l.whole ++ (ls.map fun l => l.whole.dropWhile isBlank).flatten

def commandPieces (s : String) : List String :=
  let cs := trimLines s
  let founds := Command.lineBreak.pattern.findAll cs
  match Pattern.gaps cs 0 founds with
  | [] => []
  | gap :: gaps =>
      String.ofList gap
        :: List.zipWith (fun f gap => f.textD "command" ++ String.ofList gap) founds gaps

structure Cut where
  done : List Node
  current : List Node

namespace Cut

def pieces (make : List Node → Node) : Bool → Cut → List String → Cut
  | _, c, [] => c
  | _, c, [last] => { c with current := c.current ++ [ofText last] }
  | isFirst, c, piece :: rest =>
      let members := if isFirst && piece.isEmpty then c.current else c.current ++ [ofText piece]
      pieces make false ⟨c.done ++ [make members], []⟩ rest

def step (make : List Node → Node) (c : Cut) (n : Node) : Except Fault Cut :=
  match n.textContents? with
  | none => .ok { c with current := c.current ++ [n] }
  | some (.text s) => .ok (pieces make true c (commandPieces s))
  | some (.nodes _) => .error .notText

end Cut

def cutCommands : Node → Except Fault (List Node)
  | .item (some .code) span trait contents => .ok [.item (some .code) span trait contents]
  | .item block _ trait contents => do
      let make (members : List Node) : Node := .item block none trait (.nodes members)
      let spans := consolidate (membersOf contents)
      let c ← spans.items.foldlM (Cut.step make) ⟨[], []⟩
      match spans.fault with
      | some fault => .error fault
      | none => return c.done ++ [make c.current]
  | _ => .error (.unfit "kind of item")

def cutAllCommands : List Node → Except Fault (List Node)
  | [] => .ok []
  | n :: ns => do
      let first ← n.cutCommands
      return first ++ (← cutAllCommands ns)

end Node

end Docweave
