import Docweave.Act
import Docweave.Markup.InlineGrammar
import Docweave.Markup.Token

namespace Docweave.Markup

structure Renderer (ρ α : Type) where
  stray : Char → α
  reference : Found → Act ρ (List α)
  blockCode : String → Option String → Act ρ (List α)
  header : List α → Nat → String → Act ρ (List α)
  list : List α → Bool → Act ρ (List α)
  member : List α → Act ρ (List α)
  paragraph : List α → Act ρ (List α)
  newline : Act ρ (List α)
  autolink : String → Bool → Act ρ (List α)
  codeSpan : String → Act ρ (List α)
  strong : List α → Act ρ (List α)
  emphasis : List α → Act ρ (List α)
  text : String → Act ρ (List α)
  html : String → Act ρ (List α)

structure Reader where
  todo : List Token := []
  links : List String := []
  footnotes : List (String × Nat) := []
  notes : List String := []
  footnoteCount : Nat := 0
  inLink : Bool := false
  inFootnote : Bool := false
  deriving DecidableEq, Repr

structure Session (ρ : Type) where
  reader : Reader
  env : ρ

section

variable {ρ α : Type}

def hook (a : Act ρ (List α)) : Act (Session ρ) (List α) :=
  a.within Session.env fun env s => { s with env }

def getReader : Act (Session ρ) Reader := do return (← get).reader

def changeReader (f : Reader → Reader) : Act (Session ρ) Unit :=
  modify fun s => { s with reader := f s.reader }

def footnoteMark (key : String) (index : Nat) : String :=
  let k := escape key
  s!"<sup class=\"footnote-ref\" id=\"fnref-{k}\"><a href=\"#fn-{k}\">{index}</a></sup>"

def footnoteEntry (key text : String) : String :=
  let k := escape key
  let back := s!"<a href=\"#fnref-{k}\" class=\"footnote\">&#8617;</a>"
  let cs := Text.dropEndWhile Text.isBlank text.toList
  let ending := "</p>".toList
  let front :=
    if ending.isSuffixOf cs then String.ofList (cs.take (cs.length - ending.length))
    else String.ofList cs ++ "<p>"
  s!"<li id=\"fn-{k}\">{front}{back}</p></li>\n"

def takeFootnote (key : String) : Act (Session ρ) (Option Nat) := do
  let reader ← getReader
  match reader.footnotes.lookup key with
  | some 0 =>
      let index := reader.footnoteCount + 1
      changeReader fun r => { r with
        footnoteCount := index
        footnotes := r.footnotes.map fun (k, n) => (k, if k = key then index else n) }
      return some index
  | _ => return none

def refuseLink (inner : List Char → Act (Session ρ) (List α)) (f : Found) :
    Act (Session ρ) (List α) := do
  if f.matched.head? = some '!' then Act.fail .unsupported
  else
    changeReader fun r => { r with inLink := true }
    let _ ← inner ((f.chars? "text").getD [])
    changeReader fun r => { r with inLink := false }
    Act.fail (.missing "link")

def eitherText (f : Found) (first second : String) : List Char :=
  match f.chars? first with
  | some (c :: cs) => c :: cs
  | _ => (f.chars? second).getD []

def applyRule (r : Renderer ρ α) (inner : List Char → Act (Session ρ) (List α))
    (rule : InlineRule) (f : Found) : Act (Session ρ) (Option (List α)) := do
  let stray (s : String) : Option (List α) := some (s.toList.map r.stray)
  match rule with
  | .escaped => return stray (escape (f.textD "char"))
  | .reference => return some (← hook (r.reference f))
  | .html => return some (← hook (r.html f.matchedText))
  | .autolink => return some (← hook (r.autolink (f.textD "link") (f.textD "sign" == "@")))
  | .url =>
      if (← getReader).inLink then return some (← hook (r.text (f.textD "link")))
      else return some (← hook (r.autolink (f.textD "link") false))
  | .footnote =>
      let key := keyOf (f.textD "key")
      match ← takeFootnote key with
      | some index => return stray (footnoteMark key index)
      | none => return none
  | .link => return some (← refuseLink inner f)
  | .referenceLink =>
      let key := keyOf (String.ofList (eitherText f "key" "text"))
      if (← getReader).links.contains key then return some (← refuseLink inner f) else return none
  | .shortLink =>
      if (← getReader).links.contains (keyOf (f.textD "text")) then
        return some (← refuseLink inner f)
      else return none
  | .strong => return some (← hook (r.strong (← inner (eitherText f "star" "low"))))
  | .emphasis => return some (← hook (r.emphasis (← inner (eitherText f "star" "low"))))
  | .code => return some (← hook (r.codeSpan (f.textD "code")))
  | .hardBreak => Act.fail .unsupported
  | .strikethrough =>
      let _ ← inner ((f.chars? "text").getD [])
      Act.fail .unsupported
  | .text => return some (← hook (r.text f.matchedText))

def firstRule (r : Renderer ρ α) (inner : List Char → Act (Session ρ) (List α)) (cs : List Char) :
    List InlineRule → Act (Session ρ) (Option (List α × List Char))
  | [] => return none
  | rule :: rules => do
      match rule.pattern.matchStart cs with
      | none => firstRule r inner cs rules
      | some f =>
          match ← applyRule r inner rule f with
          | some out => return some (out, f.after)
          | none => firstRule r inner cs rules

def spansFrom (r : Renderer ρ α) : Nat → List InlineRule → List Char → Act (Session ρ) (List α)
  | 0, _, _ => return []
  | _ + 1, _, [] => return []
  | fuel + 1, rules, cs => do
      let inner (cs : List Char) : Act (Session ρ) (List α) := do
        let rules := if (← getReader).inFootnote then InlineRule.inFootnote else InlineRule.all
        spansFrom r fuel rules (dropEndNewlines cs)
      match ← firstRule r inner cs rules with
      | none => return []
      | some (out, rest) => return out ++ (← spansFrom r fuel rules rest)

def spans (r : Renderer ρ α) (s : String) : Act (Session ρ) (List α) := do
  let cs := dropEndNewlines s.toList
  let rules := if (← getReader).inFootnote then InlineRule.inFootnote else InlineRule.all
  spansFrom r (cs.length + 1) rules cs

def pop? : Act (Session ρ) (Option Token) := do
  match (← getReader).todo with
  | [] => return none
  | t :: ts =>
      changeReader fun r => { r with todo := ts }
      return some t

def pop : Act (Session ρ) Token := do
  match ← pop? with
  | some t => return t
  | none => Act.fail (.missing "token")

def gatherText : Nat → String → Act (Session ρ) String
  | 0, s => return s
  | fuel + 1, s => do
      match (← getReader).todo with
      | [] => Act.fail (.missing "token")
      | .text t :: _ =>
          let _ ← pop
          gatherText fuel (s ++ "\n" ++ t)
      | _ => return s

def textSpans (r : Renderer ρ α) (s : String) : Act (Session ρ) (List α) := do
  let text ← gatherText ((← getReader).todo.length + 1) s
  spans r text

mutual

def renderToken (r : Renderer ρ α) : Nat → Token → Act (Session ρ) (List α)
  | 0, _ => return []
  | fuel + 1, t =>
      match t with
      | .newline => hook r.newline
      | .rule => Act.fail .unsupported
      | .code text language => hook (r.blockCode text language)
      | .heading level text => do hook (r.header (← spans r text) level text)
      | .table header => do
          let _ ← spans r (header.head?.getD "")
          Act.fail .unsupported
      | .html => Act.fail .unsupported
      | .paragraph text => do hook (r.paragraph (← spans r text))
      | .text text => do hook (r.paragraph (← textSpans r text))
      | .listStart ordered => do
          hook (r.list (← renderUntil r .listEnd false fuel) ordered)
      | .memberStart => do hook (r.member (← renderUntil r .memberEnd true fuel))
      | .looseStart => do hook (r.member (← renderUntil r .memberEnd false fuel))
      | .quoteStart => do
          let _ ← renderUntil r .quoteEnd false fuel
          Act.fail .unsupported
      | .footnoteStart key => do
          changeReader fun s => { s with inFootnote := true }
          let _ ← renderUntil r .footnoteEnd false fuel
          changeReader fun s => { s with notes := s.notes ++ [key], inFootnote := false }
          return []
      | .listEnd => Act.fail (.unfit "token")
      | .memberEnd => Act.fail (.unfit "token")
      | .quoteEnd => Act.fail (.unfit "token")
      | .footnoteEnd => Act.fail (.unfit "token")

def renderUntil (r : Renderer ρ α) (stop : Token) (tight : Bool) :
    Nat → Act (Session ρ) (List α)
  | 0 => return []
  | fuel + 1 => do
      let t ← pop
      if t = stop then return []
      else
        let out ← match tight, t with
          | true, .text s => textSpans r s
          | _, _ => renderToken r fuel t
        return out ++ (← renderUntil r stop tight fuel)

end

def renderAll (r : Renderer ρ α) : Nat → Act (Session ρ) (List α)
  | 0 => return []
  | fuel + 1 => do
      match ← pop? with
      | none => return []
      | some t =>
          let out ← renderToken r (2 * fuel + 2) t
          return out ++ (← renderAll r fuel)

def takeText (s : String) (reader : Reader) : Reader :=
  let lexed := ({ links := reader.links, footnotes := reader.footnotes } : Lexed).add (prepare s)
  { reader with
    todo := reader.todo.reverse ++ lexed.tokens
    links := lexed.links
    footnotes := lexed.footnotes
    footnoteCount := 0 }

def refuseNotes (keys : List (String × Nat)) : Act (Session ρ) Unit := do
  let notes := (← getReader).notes
  if notes.isEmpty then return
  let index (key : String) : Nat := (keys.lookup key).getD 0
  let used := (notes.filter (index · ≠ 0)).mergeSort fun a b => decide (index b ≤ index a)
  changeReader fun r => { r with notes := used.dropLast }
  Act.fail (if used.isEmpty then .unsupported else .unfit "footnote")

def render (r : Renderer ρ α) (s : String) : Act (Session ρ) (List α) := do
  changeReader (takeText s)
  let out ← renderAll r ((← getReader).todo.length + 1)
  let keys := (← getReader).footnotes
  changeReader fun reader => { reader with links := [], footnotes := [] }
  refuseNotes keys
  return out

end

end Docweave.Markup
