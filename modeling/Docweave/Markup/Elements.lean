import Docweave.Command
import Docweave.Element.Path
import Docweave.Markup.Render

namespace Docweave

namespace Element

def tagOf (tags : List String) (label : String) : Option String :=
  tags.find? fun tag => tag.isPrefixOf label

structure Cutting where
  head : String := ""
  made : List Element := []
  cursor : Nat := 0

def Cutting.between (c : Cutting) (firstTag text : String) (tailing : Bool) : Cutting :=
  match c.made.getLast? with
  | none => { c with head := c.head ++ text }
  | some last =>
      if tailing then { c with made := c.made.dropLast ++ [{ last with tail := some text }] }
      else { c with made := c.made ++ [{ tag := firstTag, text := some text }] }

def Cutting.capture (firstTag : String) (tags : List String) (tailing : Bool) (cs : List Char)
    (c : Cutting) (label : String) (span : Span) : Except Fault Cutting :=
  match tagOf tags label with
  | none => .ok c
  | some tag =>
      if span.start < c.cursor then .error .overlap
      else
        let gap := Found.slice cs ⟨c.cursor, span.start⟩
        let inside := Found.slice cs span
        let c := c.between firstTag (String.ofList gap) tailing
        let e : Element :=
          { tag, text := if inside.isEmpty then none else some (String.ofList inside) }
        .ok { c with made := c.made ++ [e], cursor := span.stop }

def transcript (cs : List Char) (spans : List (String × Span)) : String :=
  " ".intercalate (["text:'" ++ String.ofList cs ++ "'",
    "groups:" ++ ",".intercalate (spans.map Prod.fst)]
    ++ spans.map fun (label, s) => s!"{label}:{s.start},{s.stop}")

def cutFrom (firstTag : String) (rule : Rule) (tags : List String) (tailing : Bool) :
    Nat → List Char → Except Fault (List Element)
  | 0, _ => .ok []
  | fuel + 1, cs => do
      let spans := ((rule.pattern.search cs).map rule.inOrder).getD []
      let c ← spans.foldlM (fun (c : Cutting) p => c.capture firstTag tags tailing cs p.1 p.2)
        ({} : Cutting)
      let asSpan (e : Element) : Element := e.set "layout" "span"
      let rest := cs.drop c.cursor
      let (head, made) ←
        if c.made.isEmpty then pure (c.head ++ String.ofList rest, [])
        else do
          let more ← cutFrom firstTag rule tags tailing fuel rest
          pure (c.head, c.made.map asSpan ++ more)
      let elements :=
        if head.isEmpty then made
        else asSpan { tag := firstTag, text := some head } :: made
      match rule.pattern.search cs, elements with
      | none, _ => return elements
      | some _, [] => .error (.tooFew "elements")
      | some _, e :: es => return e.set "transcript" (transcript cs spans) :: es

def cut (firstTag : String) (rule : Rule) (tags : List String) (tailing : Bool) (s : String) :
    Except Fault (List Element) :=
  cutFrom firstTag rule tags tailing (s.length + 1) s.toList

end Element

namespace Markup

open Element

inductive Shoot where
  | element (e : Element)
  | stray (c : Char)

def Shoot.elements : List Shoot → Except Fault (List Element)
  | [] => .ok []
  | .element e :: rest => return e :: (← elements rest)
  | .stray _ :: _ => .error (.missing "element")

def make (tag : String) (attributes : List (String × String)) (text : Option String := none)
    (children : List Element := []) : Element :=
  { tag, attributes := attributes.map fun (k, v) => (k, .text v), text, children }

def wrapShoots (tag : String) (attributes : List (String × String)) (body : List Shoot) :
    Act Unit (List Shoot) := do
  let children ← Act.ofExcept (Shoot.elements body)
  return [.element (make tag attributes none children)]

def referenceElement (f : Found) : Act Unit (List Shoot) :=
  let labels := (reference.inOrder f).map Prod.fst
  return [.element (make "doc_uri"
    [("transcript", "groups:" ++ ",".intercalate labels),
      ("uri", ((labels.head?).map f.textD).getD ""),
      ("resolved", isTrue false)])]

def elementRenderer : Renderer Unit Shoot where
  stray := .stray
  reference := referenceElement
  blockCode text _ := return [.element (make "block_code" [("verbatim", "block")] (some text))]
  header body level _ := wrapShoots "header" [("level", toString level), ("newlines", "1")] body
  list body ordered := wrapShoots "list" [("ordered", isTrue ordered), ("newlines", "2")] body
  member body := wrapShoots "list_item" [("setNewlines", "paragraph")] body
  paragraph body := wrapShoots "paragraph" [("newlines", "2")] body
  newline := return []
  autolink _ _ := Act.fail .unsupported
  codeSpan text := return [.element (make "codespan" [("wrap", "`"), ("layout", "span")] none
    [make "text" [("layout", "span")] (some text)])]
  strong body := wrapShoots "double_emphasis" [("wrap", "**"), ("layout", "span")] body
  emphasis body := wrapShoots "emphasis" [("wrap", "*"), ("layout", "span")] body
  text s := do
    let elements ← Act.ofExcept (cut "text" Command.word ["at_command"] false s)
    return elements.map .element
  html _ := Act.fail .unsupported

def markSplitter (e : Element) : Element :=
  if e.tag = "at_command" then { e.set "splitter" (isTrue true) with tag := "text" } else e

def readElement (tag text : String) : Act Reader Element := do
  let shoots ← (render elementRenderer text).within (Session.mk · ()) fun s _ => s.reader
  let children ← Act.ofExcept (Shoot.elements shoots)
  let children ← Act.ofExcept (mapHeadsEach (fun e => .ok (markSplitter e)) children)
  return { tag, children }

end Markup

end Docweave
