import Docweave.Fault

namespace Docweave

inductive Value where
  | text (s : String)
  | names (ns : List String)
  | missing
  deriving DecidableEq, Repr, Inhabited

structure Element where
  tag : String
  attributes : List (String × Value) := []
  text : Option String := none
  tail : Option String := none
  children : List Element := []
  deriving Inhabited

abbrev Address : Type := List Nat

def setKey (key : String) (v : Value) : List (String × Value) → List (String × Value)
  | [] => [(key, v)]
  | (k, w) :: rest => if k = key then (k, v) :: rest else (k, w) :: setKey key v rest

theorem lookup_setKey (key : String) (v : Value) (l : List (String × Value)) :
    (setKey key v l).lookup key = some v := by
  induction l with
  | nil => simp [setKey]
  | cons p rest ih =>
      obtain ⟨k, w⟩ := p
      by_cases h : k = key
      · simp [setKey, h]
      · have h' : (key == k) = false := by simp [Ne.symm h]
        simp [setKey, h, List.lookup_cons, h', ih]

namespace Element

def value? (e : Element) (name : String) : Option Value :=
  match e.attributes.lookup name with
  | some .missing => none
  | v => v

def has (e : Element) (name : String) : Bool := (e.value? name).isSome

def attribute? (e : Element) (name : String) : Option String :=
  match e.value? name with
  | some (.text s) => some s
  | _ => none

def setValue (e : Element) (name : String) (v : Value) : Element :=
  { e with attributes := setKey name v e.attributes }

def set (e : Element) (name text : String) : Element := e.setValue name (.text text)

def set? (e : Element) (name : String) (text : Option String) : Element :=
  e.setValue name ((text.map .text).getD .missing)

def copyAttributes (names : List String) (source target : Element) : Element :=
  names.foldl (fun t name =>
    match source.value? name with
    | some v => t.setValue name v
    | none => t) target

def attributeNames (e : Element) : List String := e.attributes.map Prod.fst

def isTrue (b : Bool) : String := if b then "True" else "False"

mutual

def size : Element → Nat
  | ⟨_, _, _, _, children⟩ => 1 + sizes children

def sizes : List Element → Nat
  | [] => 0
  | e :: es => e.size + sizes es

end

mutual

def nodes (address : Address) : Element → List (Address × Element)
  | ⟨tag, attributes, text, tail, children⟩ =>
      (address, ⟨tag, attributes, text, tail, children⟩) :: forest address 0 children

def forest (address : Address) (i : Nat) : List Element → List (Address × Element)
  | [] => []
  | e :: es => e.nodes (address ++ [i]) ++ forest address (i + 1) es

end

def descendants (e : Element) : List Element := (forest [] 0 e.children).map Prod.snd

def at? : Element → Address → Option Element
  | e, [] => some e
  | e, i :: rest =>
      match e.children[i]? with
      | some c => c.at? rest
      | none => none

def modifyAt (f : Element → Element) : Address → Element → Element
  | [], e => f e
  | i :: rest, e => { e with children := e.children.modify i (modifyAt f rest) }

mutual

def mapHeads (f : Element → Except Fault Element) : Element → Except Fault Element
  | ⟨tag, attributes, text, tail, children⟩ => do
      let head ← f ⟨tag, attributes, text, tail, children⟩
      return { head with children := ← mapHeadsEach f children }

def mapHeadsEach (f : Element → Except Fault Element) : List Element → Except Fault (List Element)
  | [] => return []
  | e :: es => do
      let first ← mapHeads f e
      return first :: (← mapHeadsEach f es)

end

mutual

def mapUp (f : Element → Except Fault Element) : Element → Except Fault Element
  | ⟨tag, attributes, text, tail, children⟩ => do
      f ⟨tag, attributes, text, tail, ← mapUpEach f children⟩

def mapUpEach (f : Element → Except Fault Element) : List Element → Except Fault (List Element)
  | [] => return []
  | e :: es => do
      let first ← mapUp f e
      return first :: (← mapUpEach f es)

end

mutual

def joinedText : Element → String
  | ⟨_, _, text, _, children⟩ => text.getD "" ++ childrenText children

def childrenText : List Element → String
  | [] => ""
  | e :: es => e.joinedText ++ e.tail.getD "" ++ childrenText es

end

def insertAt {α : Type} (i : Nat) (a : α) (l : List α) : List α := l.take i ++ a :: l.drop i

def insert (e : Element) (i : Nat) (child : Element) : Element :=
  { e with children := insertAt i child e.children }

def append (e : Element) (child : Element) : Element :=
  { e with children := e.children ++ [child] }

def eraseAt (e : Element) (i : Nat) : Element := { e with children := e.children.eraseIdx i }

end Element

end Docweave
