import Docweave.Item.Basic
import Docweave.Text.Fill

namespace Docweave

namespace Node

open Text

def atLeastOne (width : Option Int) : Option Int := width.map (max 1)

def joinSpans (width : Option Int) (trait : Trait) (texts : List String) :
    Except Fault String := do
  let joined := String.join (match texts with
    | [] => []
    | t :: ts => dropNewlines t :: ts)
  match width with
  | none => return joined
  | some w =>
      let oneLine := String.intercalate " "
        ((displayLines joined.toList).map fun l => String.ofList l.body)
      let indent ← match trait with
        | .none => Except.ok ""
        | .hanging n => .ok (spacesInt n)
        | .fields _ _ => .error (.missing "hanging indent")
      return String.intercalate "\n" (← fill (max 1 w) indent oneLine)

def marked (kind : ItemKind) (text : String) : Option String :=
  match kind with
  | .span .emphasis => some ("*" ++ text ++ "*")
  | .span .strong => some ("**" ++ text ++ "**")
  | .span .code => some ("`" ++ text ++ "`")
  | .span .text => some text
  | .span .html => some text
  | .span .autolink => some text
  | .block _ => none

def hangLines (text : String) : String :=
  match displayLines text.toList with
  | [] => ""
  | l :: ls => String.ofList (l.whole ++ (ls.map fun l => "    ".toList ++ l.whole).flatten)

def indentLines (text : String) : String :=
  String.ofList (((displayLines text.toList).map fun l => "    ".toList ++ l.whole).flatten)

def levelOf : Trait → Except Fault Int
  | .fields (some n) _ => .ok n
  | .fields none _ => .error (.noField "level")
  | _ => .error (.missing "level of header")

def orderedOf : Trait → Except Fault Bool
  | .fields _ (some b) => .ok b
  | .fields _ none => .error (.noField "ordered")
  | _ => .error (.missing "order of list")

def listMark (ordered : Bool) (index : Nat) : String :=
  let mark := if ordered then s!"{index + 1}." else "-"
  mark ++ spaces (4 - mark.length)

def markMembers (trait : Trait) : Nat → List String → Except Fault (List String)
  | _, [] => .ok []
  | index, t :: ts => do
      let ordered ← orderedOf trait
      return (listMark ordered index ++ t) :: (← markMembers trait (index + 1) ts)

def endsInParagraph : Contents → Except Fault Bool
  | .text s => if s.isEmpty then .error (.tooFew "contents") else .error (.unfit "kind of item")
  | .nodes ns =>
      match ns.getLast? with
      | none => .error (.tooFew "contents")
      | some n => do
          let kind ← n.kind?
          return kind == some (.block .paragraph)

def bareText? : Node → Option String
  | .text s => some s
  | _ => none

def newlines (n : Nat) : String := String.ofList (List.replicate n '\n')

mutual

def output (isLast : Bool) (width : Option Int) : Node → Except Fault String
  | .text _ => .error (.unfit "output")
  | .number _ => .error (.unfit "output")
  | .item block span trait contents => do
      let width := atLeastOne width
      let finish (text : String) (ends : Nat) : String :=
        text ++ (if isLast then "" else newlines ends)
      match span with
      | some kind =>
          let text ← outputSpans none .none contents
          match marked kind text with
          | some t => return t
          | none => .error (.unsupportedItem (← quoted (.item block span trait contents)))
      | none =>
        match block with
        | some .header =>
            let level ← levelOf trait
            let text ← outputSpans none .none contents
            return finish (String.ofList (List.replicate level.toNat '#') ++ " " ++ text) 1
        | some .paragraph => return finish (← outputSpans width trait contents) 2
        | some .list =>
            let members ← markMembers trait 0 (← outputAll width contents)
            return finish (String.join members) 2
        | some .listItem =>
            let text := hangLines (String.join (← outputAll (width.map (· - 4)) contents))
            return finish text (if ← endsInParagraph contents then 2 else 1)
        | some .code =>
            return finish (indentLines (String.join (← outputAll none contents))) 0
        | _ => .error (.unsupportedItem (← quoted (.item block span trait contents)))

def outputSpans (width : Option Int) (trait : Trait) : Contents → Except Fault String
  | .text s => joinSpans width trait [s]
  | .nodes ns => do joinSpans width trait (← spanTexts ns)

def spanTexts : List Node → Except Fault (List String)
  | [] => .ok []
  | n :: ns => do
      let t ← match n.bareText? with
        | some s => Except.ok s
        | none => output false none n
      return t :: (← spanTexts ns)

def outputAll (width : Option Int) : Contents → Except Fault (List String)
  | .text s => do return [← joinSpans (atLeastOne width) .none [s]]
  | .nodes ns => outputNodes (atLeastOne width) none ns

def outputNodes (width : Option Int) : Option (List String) → List Node → Except Fault (List String)
  | none, [] => .ok []
  | some texts, [] => do return [← joinSpans width .none texts]
  | pending, n :: ns => do
      if n.blockKind?.isSome then
        let before ← match pending with
          | none => Except.ok []
          | some texts => do pure [(← joinSpans width .none texts) ++ "\n"]
        let text ← output ns.isEmpty width n
        return before ++ text :: (← outputNodes width none ns)
      else
        let t ← match n.bareText? with
          | some s => Except.ok s
          | none => output false none n
        outputNodes width (some (pending.getD [] ++ [t])) ns

end

end Node

end Docweave
