import Docweave.Pattern.Basic

namespace Docweave

structure Found where
  before : List Char
  matched : List Char
  after : List Char
  captures : List (String × Span)

namespace Found

def start (f : Found) : Nat := f.before.length

def stop (f : Found) : Nat := f.before.length + f.matched.length

def subject (f : Found) : List Char := f.before ++ f.matched ++ f.after

def span? (f : Found) (label : String) : Option Span := f.captures.lookup label

def slice (cs : List Char) (s : Span) : List Char := (cs.drop s.start).take (s.stop - s.start)

def chars? (f : Found) (label : String) : Option (List Char) :=
  (f.span? label).map (slice f.subject)

def text? (f : Found) (label : String) : Option String :=
  (f.chars? label).map String.ofList

def textD (f : Found) (label : String) : String := (f.text? label).getD ""

def matchedText (f : Found) : String := String.ofList f.matched

def afterText (f : Found) : String := String.ofList f.after

def beforeText (f : Found) : String := String.ofList f.before

def between (origin stop : Cursor) : Found where
  before := origin.before.reverse
  matched := (stop.before.take (stop.offset - origin.offset)).reverse
  after := stop.rest
  captures := stop.captures

end Found

namespace Pattern

def foundAt (p : Pattern) (moving : Bool) (c : Cursor) : Option Found :=
  (p.meet c fun c' => if moving && c'.offset == c.offset then none else some c').map
    (Found.between c)

def matchStart (p : Pattern) (cs : List Char) : Option Found :=
  p.foundAt false (Cursor.start cs)

def searchFrom (p : Pattern) (moving : Bool) : List Char → Cursor → Option Found
  | rest, c =>
      match p.foundAt moving c with
      | some f => some f
      | none =>
          match rest with
          | ch :: rest' => searchFrom p false rest' (c.advance ch rest')
          | [] => none

def search (p : Pattern) (cs : List Char) : Option Found :=
  p.searchFrom false cs (Cursor.start cs)

def resume (f : Found) : Cursor :=
  ⟨f.matched.reverse ++ f.before.reverse, f.after, f.stop, []⟩

def findFrom (p : Pattern) : Nat → Bool → Cursor → List Found
  | 0, _, _ => []
  | fuel + 1, moving, c =>
      match p.searchFrom moving c.rest c with
      | none => []
      | some f => f :: findFrom p fuel f.matched.isEmpty (resume f)

def findAll (p : Pattern) (cs : List Char) : List Found :=
  p.findFrom (2 * cs.length + 2) false (Cursor.start cs)

def gaps (cs : List Char) : Nat → List Found → List (List Char)
  | origin, [] => [cs.drop origin]
  | origin, f :: fs => (f.before.drop origin) :: gaps cs f.stop fs

def split (p : Pattern) (cs : List Char) : List (List Char) :=
  gaps cs 0 (p.findAll cs)

def replaceAll (p : Pattern) (f : Found → List Char) (cs : List Char) : List Char :=
  let founds := p.findAll cs
  weave (gaps cs 0 founds) (founds.map f)
where
  weave : List (List Char) → List (List Char) → List Char
    | gap :: gaps, new :: news => gap ++ new ++ weave gaps news
    | gaps, _ => gaps.flatten

def removeAll (p : Pattern) (cs : List Char) : List Char := p.replaceAll (fun _ => []) cs

end Pattern

structure Rule where
  pattern : Pattern
  labels : List String

namespace Rule

def search (r : Rule) (s : String) : Option Found := r.pattern.search s.toList

def matchStart (r : Rule) (s : String) : Option Found := r.pattern.matchStart s.toList

def groups (r : Rule) (f : Found) : List (String × Option String) :=
  r.labels.map fun label => (label, f.text? label)

def taken (r : Rule) (f : Found) : List (String × String) :=
  (r.groups f).filterMap fun (label, text) => text.map (label, ·)

def place (a : String × Span) : List (String × Span) → List (String × Span)
  | [] => [a]
  | b :: bs => if a.2.start ≤ b.2.start then a :: b :: bs else b :: place a bs

def inOrder (r : Rule) (f : Found) : List (String × Span) :=
  (r.labels.filterMap fun label => (f.span? label).map (label, ·)).foldr place []

end Rule

def firstGroup (groups : List (String × Option String)) (head : String) : Option (String × String) :=
  groups.findSome? fun (label, text) =>
    if head.isPrefixOf label then text.map (label, ·) else none

end Docweave
