import Docweave.Item.Regroup
import Docweave.Markup.Render
import Docweave.Section.Shelf

namespace Docweave

namespace Node

open Markup Files

structure Desk where
  store : Store
  shelf : Shelf := {}
  source : Option String := none
  verbose : Bool := false
  printed : String := ""

namespace Desk

def tell (line : Except Fault String) : Act Desk Unit := do
  if (← get).verbose then
    let line ← Act.ofExcept line
    modify fun d => { d with printed := d.printed ++ line ++ "\n" }

def find (uri : Option String) : Act Desk Section := do
  let d ← get
  (Shelf.find d.store uri d.source).within Desk.shelf fun shelf d => { d with shelf }

end Desk

def listQuoted (ns : List Node) : Except Fault String := do
  let members ← ns.mapM fun
    | .text s => Except.ok (Text.quoted s)
    | .number n => .ok (toString n)
    | n => n.quoted
  return "[" ++ ", ".intercalate members ++ "]"

def listJson (ns : List Node) : Except Fault String := do
  return (Datum.tuple (← tuples ns)).json (.indented 4)

def groupsQuoted (groups : List (String × Option String)) : String :=
  (Datum.record (groups.map fun (label, s) => (label, .ofText? s))).quoted

def orNone (s : Option String) : String := s.getD "None"

def trueOrFalse (b : Bool) : String := if b then "True" else "False"

def tellList (ns : List Node) (line : String → String) : Act Desk Unit :=
  Desk.tell ((listQuoted ns).map line)

def unwrap (ns : List Node) : Except Fault Contents := do
  match ns with
  | [] => .error (.tooFew "items")
  | n :: _ =>
      match ← n.kind?, n with
      | some (.block .paragraph), .item _ _ _ contents => return contents
      | _, _ => .error .unsupported

def inclusion (inner : String → Act Desk (List Node)) (groups : List (String × Option String)) :
    Act Desk (List Node) := do
  let group := firstGroup groups "doc"
  let label := orNone (group.map (·.1))
  Desk.tell (.ok s!"DocRenderer doc_uri {groupsQuoted groups} {label}")
  let found ← Desk.find (group.map (·.2))
  let content := String.join found.lines
  if content.isEmpty then return []
  let ns ← inner content
  let contents ← if found.lines.length = 1 then Act.ofExcept (unwrap ns) else pure (.nodes ns)
  return [.item (some .included) none .none contents]

def wrapBlock (kind : BlockKind) (trait : Trait) (ns : List Node) : Act Desk (List Node) :=
  Act.ofExcept (mergeIncluded kind trait ns)

def paragraphs (ns : List Node) : Act Desk (List Node) := do
  let merged ← wrapBlock .paragraph .none ns
  let cut ← Act.ofExcept (cutAllCommands merged)
  Desk.tell (do
    let shown ← listQuoted ns
    let before ← listJson merged
    let after ← listJson cut
    return s!"DocRenderer paragraph(,\n{shown})\nresolved{before}\noutputs{after}")
  return cut

def renderer (inner : String → Act Desk (List Node)) : Renderer Desk Node where
  stray c := .text (String.singleton c)
  reference f := inclusion inner (Markup.reference.groups f)
  blockCode text language := do
    Desk.tell (.ok s!"DocRenderer block_code(,{text},{orNone language})")
    return [.item (some .code) none .none (.text text)]
  header ns level raw := do
    tellList ns fun shown => s!"DocRenderer header(,{shown},{level},{raw})"
    wrapBlock .header (.level level) ns
  list ns ordered := do
    tellList ns fun shown => s!"DocRenderer list(,\n{shown}\n,{trueOrFalse ordered})"
    wrapBlock .list (.ordered ordered) ns
  member ns := do
    tellList ns fun shown => s!"DocRenderer list_item(,{shown})"
    wrapBlock .listItem .none ns
  paragraph := paragraphs
  newline := do
    Desk.tell (.ok "DocRenderer newline(,)")
    return []
  autolink link isMail := do
    Desk.tell (.ok s!"DocRenderer autolink(,{link},{trueOrFalse isMail})")
    return [.span .autolink (.text link)]
  codeSpan text := do
    Desk.tell (.ok s!"DocRenderer codespan(,\n{text})")
    return [.span .code (.text text)]
  strong ns := do
    tellList ns fun shown => s!"DocRenderer double_emphasis(,\n{shown})"
    return [.span .strong (.nodes ns)]
  emphasis ns := do
    tellList ns fun shown => s!"DocRenderer emphasis(,\n{shown})"
    return [.span .emphasis (.nodes ns)]
  text s := do
    Desk.tell (.ok s!"DocRenderer text(,{s.length}\n{s})")
    return [.ofText s]
  html s := do
    Desk.tell (.ok s!"DocRenderer inline_html(,\n{s})")
    return [.span .html (.text s)]

def readInner : Nat → String → Act Desk (List Node)
  | 0, _ => return []
  | depth + 1, s =>
      (render (renderer (readInner depth)) s).within
        (fun d => ⟨{}, { d with verbose := false }⟩)
        fun session d => { session.env with verbose := d.verbose }

def Desk.depth (d : Desk) : Nat := d.store.size + d.shelf.sections.length + 1

def read (s : String) : Act (Session Desk) (List Node) := do
  let depth := (← get).env.depth
  render (renderer (readInner depth)) s

def Desk.renderer (d : Desk) : Renderer Desk Node := Node.renderer (readInner d.depth)

end Node

end Docweave
