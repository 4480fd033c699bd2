import Docweave.Element.Xml
import Docweave.Pattern.Search

namespace Docweave

namespace Element

inductive Test where
  | has (name : String)
  | equals (name value : String)
  | differs (name value : String)
  | hasChild (tag : String)
  | textEquals (value : String)
  | textDiffers (value : String)
  | childEquals (tag value : String)
  | childDiffers (tag value : String)
  | position (index : Int)
  deriving DecidableEq, Repr

inductive Step where
  | child (tag : String)
  | anyChild
  | self
  | parent
  | below (tag : String)
  | anyBelow
  | keep (test : Test)
  deriving DecidableEq, Repr

def childrenOf (tag : String) (e : Element) : List Element := e.children.filter (·.tag == tag)

def hasPosition (root : Element) (address : Address) (index : Int) : Bool :=
  match address.getLast?, root.at? address.dropLast, root.at? address with
  | some i, some parent, some e =>
      let earlier := ((parent.children.take i).filter (·.tag == e.tag)).length
      let all := (parent.childrenOf e.tag).length
      (earlier : Int) == if index < 0 then (all : Int) + index else index
  | _, _, _ => false

def Test.holds (root : Element) (address : Address) (e : Element) : Test → Bool
  | has name => e.has name
  | equals name value => e.value? name == some (.text value)
  | differs name value => e.has name && e.value? name != some (.text value)
  | hasChild tag => !(e.childrenOf tag).isEmpty
  | textEquals value => e.joinedText == value
  | textDiffers value => e.joinedText != value
  | childEquals tag value => (e.childrenOf tag).any (·.joinedText == value)
  | childDiffers tag value => (e.childrenOf tag).any (·.joinedText != value)
  | position index => hasPosition root address index

def nodesBelow (address : Address) (e : Element) : List (Address × Element) :=
  forest address 0 e.children

def childNodes (address : Address) (e : Element) : List (Address × Element) :=
  e.children.mapIdx fun i c => (address ++ [i], c)

def parents (root : Element) (places : List (Address × Element)) : List (Address × Element) :=
  let addresses := (places.filter fun p => !p.1.isEmpty).map fun p => p.1.dropLast
  addresses.eraseDups.filterMap fun a => (root.at? a).map (a, ·)

def Step.take (root : Element) (places : List (Address × Element)) :
    Step → List (Address × Element)
  | child tag => places.flatMap fun p => (childNodes p.1 p.2).filter (·.2.tag == tag)
  | anyChild => places.flatMap fun p => childNodes p.1 p.2
  | self => places
  | parent => parents root places
  | below tag => places.flatMap fun p => (nodesBelow p.1 p.2).filter (·.2.tag == tag)
  | anyBelow => places.flatMap fun p => nodesBelow p.1 p.2
  | keep test => places.filter fun p => test.holds root p.1 p.2

def select (root : Element) (path : List Step) : List (Address × Element) :=
  path.foldl (fun places step => step.take root places) [([], root)]

def first? (root : Element) (path : List Step) : Option Element :=
  (root.select path).head?.map Prod.snd

end Element

namespace Element.Step

open Pattern
open Text (isBlank isDigit)

inductive Token where
  | sign (s : String)
  | value (s : String)
  | name (s : String)
  | blank
  deriving DecidableEq, Repr

def nameChar (c : Char) : Bool := !isBlank c && noneOf "/[]()@!=" c

def token : Pattern :=
  capture "single" (lit "'" ++ many (noneOf "'") ++ lit "'")
    ||| capture "double" (lit "\"" ++ many (noneOf "\"") ++ lit "\"")
    ||| capture "sign" (lit "::" ||| (lit "/" ++ optional (lit "/")) ||| lit ".." ||| lit "()"
      ||| lit "!=" ||| one (oneOf "/.*:[]()@="))
    ||| capture "name" (many1 nameChar)
    ||| many1 isBlank

def tokenOf (f : Found) : Token :=
  let inside (cs : List Char) : String := String.ofList (cs.drop 1).dropLast
  match f.chars? "single", f.chars? "double", f.text? "sign", f.text? "name" with
  | some cs, _, _, _ => .value (inside cs)
  | _, some cs, _, _ => .value (inside cs)
  | _, _, some s, _ => .sign s
  | _, _, _, some s => .name s
  | _, _, _, _ => .blank

def checkName (s : String) : Except Fault Unit :=
  let first := String.ofList (s.toList.takeWhile (· != ':'))
  if s.toList.contains ':' then
    .error (.badStep s!"prefix {Text.quoted first} not found in prefix map")
  else .ok ()

def number? (s : String) : Option Int :=
  let (negative, digits) :=
    match s.toList with
    | '-' :: ds => (true, ds)
    | ds => (false, ds)
  if digits.isEmpty || !digits.all isDigit then none
  else
    let n : Int := digits.foldl (fun n c => n * 10 + (Text.digitValue c).getD 0) 0
    some (if negative then -n else n)

def testOf (tokens : List Token) : Except Fault Test :=
  match tokens with
  | [.sign "@", .name key] => .ok (.has key)
  | [.sign "@", .name key, .sign "=", .value v] => .ok (.equals key v)
  | [.sign "@", .name key, .sign "!=", .value v] => .ok (.differs key v)
  | [.name tag] =>
      match number? tag with
      | none => .ok (.hasChild tag)
      | some n =>
          if n < 1 then .error (.badStep "XPath position >= 1 expected") else .ok (.position (n - 1))
  | [.sign ".", .sign "=", .value v] => .ok (.textEquals v)
  | [.sign ".", .sign "!=", .value v] => .ok (.textDiffers v)
  | [.name tag, .sign "=", .value v] =>
      if (number? tag).isSome then .error (.badStep "invalid predicate") else .ok (.childEquals tag v)
  | [.name tag, .sign "!=", .value v] =>
      if (number? tag).isSome then .error (.badStep "invalid predicate") else .ok (.childDiffers tag v)
  | [.name f, .sign "()"] =>
      if f = "last" then .ok (.position (-1)) else .error (.badStep "unsupported function")
  | [.name f, .sign "()", .name offset] =>
      if f ≠ "last" then .error (.badStep "unsupported function")
      else
        match number? offset with
        | none => .error (.badStep "unsupported expression")
        | some n =>
            if n - 1 > -2 then .error (.badStep "XPath offset from last() must be negative")
            else .ok (.position (n - 1))
  | _ => .error (.badStep "invalid predicate")

def untilBracket : List Token → Option (List Token × List Token)
  | [] => none
  | .sign "]" :: rest => some ([], rest)
  | .blank :: rest => untilBracket rest
  | t :: rest => (untilBracket rest).map fun (inside, after) => (t :: inside, after)

def stepsFrom : Nat → List Token → Except Fault (List Step)
  | 0, _ => .ok []
  | _ + 1, [] => .ok []
  | fuel + 1, t :: rest => do
      let (step, rest) ← match t with
        | .name tag => do
            checkName tag
            pure (child tag, rest)
        | .blank => pure (child "", rest)
        | .sign "*" => pure (anyChild, rest)
        | .sign "." => pure (self, rest)
        | .sign ".." => pure (parent, rest)
        | .sign "//" =>
            match rest with
            | .sign "*" :: rest => pure (anyBelow, rest)
            | .name tag :: rest => do
                checkName tag
                pure (below tag, rest)
            | .blank :: rest => pure (below "", rest)
            | [] => .error (.missing "path")
            | _ => .error (.badStep "invalid descendant")
        | .sign "[" =>
            match untilBracket rest with
            | none => .error (.missing "path")
            | some (inside, rest) => do
                let test ← testOf inside
                pure (keep test, rest)
        | .sign s => .error (.noField s)
        | .value s => .error (.noField s)
      match rest with
      | .sign "/" :: more => return step :: (← stepsFrom fuel more)
      | _ => return step :: (← stepsFrom fuel rest)

def parse (s : String) : Except Fault (List Step) :=
  let s := if s.toList.getLast? = some '/' then s ++ "*" else s
  if s.toList.head? = some '/' then .error (.badStep "cannot use absolute path on element")
  else
    let tokens := (token.findAll s.toList).map tokenOf
    if tokens.isEmpty then .ok [child ""] else stepsFrom (tokens.length + 1) tokens

end Element.Step

namespace Element

structure Family where
  grandparent : Element
  parent : Element
  child : Element

def family? (e : Element) (path : String) : Except Fault (Option Family) := do
  let steps ← Step.parse s!".//{path}/../.."
  match e.first? steps with
  | none => return none
  | some grandparent =>
      match grandparent.first? (← Step.parse s!"./*/{path}/..") with
      | none => .error (.noParent (← grandparent.xml) path)
      | some parent =>
          match parent.first? (← Step.parse s!"./{path}") with
          | none => .error (.noChild (← parent.xml) path)
          | some child => return some ⟨grandparent, parent, child⟩

def placeOf (e : Element) (address : Option Address) (other : Option Element)
    (orNone : Bool) : Except Fault (Option Int) := do
  match address with
  | some [i] => if i < e.children.length then return some i
  | _ => pure ()
  if orNone then return none
  let child := (address.bind e.at?).orElse fun _ => other
  throw (.noIndex (← e.xml) (← (child.getD e).xml))

end Element

end Docweave
