import Docweave.Datum
import Docweave.Fault

namespace Docweave

inductive BlockKind where
  | code
  | header
  | list
  | listItem
  | paragraph
  | included
  deriving DecidableEq, Repr

inductive SpanKind where
  | autolink
  | code
  | strong
  | emphasis
  | text
  | html
  deriving DecidableEq, Repr

namespace BlockKind

def all : List BlockKind := [code, header, list, listItem, paragraph, included]

def name : BlockKind → String
  | code => "BLOCK_CODE"
  | header => "HEADER"
  | list => "LIST"
  | listItem => "LIST_ITEM"
  | paragraph => "PARAGRAPH"
  | included => "DOC_URI"

def ofName? (s : String) : Option BlockKind := all.find? (·.name == s)

end BlockKind

namespace SpanKind

def all : List SpanKind := [autolink, code, strong, emphasis, text, html]

def name : SpanKind → String
  | autolink => "AUTOLINK"
  | code => "CODESPAN"
  | strong => "DOUBLE_EMPHASIS"
  | emphasis => "EMPHASIS"
  | text => "TEXT"
  | html => "INLINE_HTML"

def ofName? (s : String) : Option SpanKind := all.find? (·.name == s)

end SpanKind

inductive ItemKind where
  | block (k : BlockKind)
  | span (k : SpanKind)
  deriving DecidableEq, Repr

def ItemKind.name : ItemKind → String
  | .block k => k.name
  | .span k => k.name

inductive Trait where
  | none
  | fields (level : Option Int) (ordered : Option Bool)
  | hanging (width : Int)
  deriving DecidableEq, Repr

namespace Trait

def level (n : Int) : Trait := .fields (some n) .none

def ordered (b : Bool) : Trait := .fields .none (some b)

def datum? : Trait → Option Datum
  | .none => Option.none
  | .hanging n => some (.int n)
  | .fields level ordered =>
      some (.record ((level.map fun n => ("level", Datum.int n)).toList
        ++ (ordered.map fun b => ("ordered", Datum.bool b)).toList))

end Trait

mutual

inductive Node where
  | text (s : String)
  | number (n : Int)
  | item (block : Option BlockKind) (span : Option ItemKind) (trait : Trait) (contents : Contents)

inductive Contents where
  | text (s : String)
  | nodes (ns : List Node)

end

instance : Inhabited Node := ⟨.text ""⟩

instance : Inhabited Contents := ⟨.text ""⟩

namespace Node

def block (k : BlockKind) (trait : Trait) (contents : List Node) : Node :=
  .item (some k) none trait (.nodes contents)

def span (k : SpanKind) (contents : Contents) : Node := .item none (some (.span k)) .none contents

def ofText (s : String) : Node := span .text (.text s)

def kindOf (block : Option BlockKind) (span : Option ItemKind) : Option ItemKind :=
  match block with
  | some k => some (.block k)
  | none => span

def blockKind? : Node → Option BlockKind
  | .item block _ _ _ => block
  | _ => none

def kind? : Node → Except Fault (Option ItemKind)
  | .item block span _ _ => .ok (kindOf block span)
  | _ => .error (.unfit "kind of item")

def isItem : Node → Bool
  | .item .. => true
  | _ => false

def textContents? : Node → Option Contents
  | .item _ (some (.span .text)) _ contents => some contents
  | _ => none

def className : Node → String
  | .text _ => "str"
  | .number _ => "int"
  | .item .. => "MarkdownItem"

mutual

def tuple : Node → Except Fault Datum
  | .text s => .ok (.tuple [.text s])
  | .number n => .ok (.tuple [.int n])
  | .item block span trait contents => do
      let some kind := kindOf block span | .error (.unfit "kind of item")
      let members ← contentTuples contents
      return .tuple ([.text kind.name] ++ trait.datum?.toList ++ members)

def contentTuples : Contents → Except Fault (List Datum)
  | .text s => .ok [.text s]
  | .nodes ns => tuples ns

def tuples : List Node → Except Fault (List Datum)
  | [] => .ok []
  | n :: ns => do
      let d ← n.tuple
      let ds ← tuples ns
      return d :: ds

end

def quoted (n : Node) : Except Fault String := (n.tuple).map Datum.quoted

end Node

end Docweave
