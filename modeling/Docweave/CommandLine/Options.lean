import Docweave.CommandLine.Switch
import Docweave.Text.Number

namespace Docweave.CommandLine

open Text

structure Options where
  adHoc : Bool := false
  readerFolder : Option String := none
  extract : Bool := false
  extractFolder : Option String := none
  markers : Bool := false
  overwrite : Bool := false
  width : Option Int := none
  diffs : Bool := false
  json : Bool := false
  load : Option (List String) := none
  inputs : Option (List String) := none
  deriving DecidableEq, Repr

inductive Complaint where
  | ambiguous (word : String) (names : List String)
  | ignored (switch : Switch) (text : String)
  | wordExpected (switch : Switch)
  | notNumber (switch : Switch) (text : String)
  | unrecognized (words : List String)
  | noInput
  deriving DecidableEq, Repr

def Complaint.message : Complaint → String
  | ambiguous word names => "ambiguous option: " ++ word ++ " could match " ++ ", ".intercalate names
  | ignored s text => "argument " ++ s.title ++ ": ignored explicit argument " ++ quoted text
  | wordExpected s => "argument " ++ s.title ++ ": "
      ++ if s.taking = .one then "expected one argument" else "expected at least one argument"
  | notNumber s text => "argument " ++ s.title ++ ": invalid int value: " ++ quoted text
  | unrecognized words => "unrecognized arguments: " ++ " ".intercalate words
  | noInput => "At least one input must be specified."

inductive Stop where
  | help
  | complaint (c : Complaint)
  deriving DecidableEq, Repr

structure Joined where
  equals : Bool
  text : List Char
  deriving DecidableEq, Repr

inductive Word where
  | plain (text : String)
  | dashes
  | unknown (text : String)
  | switch (s : Switch) (short : Bool) (joined : Option Joined)
  deriving DecidableEq, Repr

def isLong : List Char → Bool
  | '-' :: '-' :: _ => true
  | _ => false

def isNegativeNumber (cs : List Char) : Bool :=
  match cs with
  | '-' :: rest =>
      let rest := if rest.getLast? = some '\n' then rest.dropLast else rest
      let (before, after) := (rest.takeWhile isDigit, rest.dropWhile isDigit)
      match after with
      | [] => !before.isEmpty
      | '.' :: more => !more.isEmpty && more.all isDigit
      | _ => false
  | _ => false

def cutEquals (cs : List Char) : List Char × Option Joined :=
  match cs.dropWhile (· ≠ '=') with
  | [] => (cs, none)
  | _ :: after => (cs.takeWhile (· ≠ '='), some ⟨true, after⟩)

def meanings (cs : List Char) : List (String × Word) :=
  if isLong cs then
    let (start, joined) := cutEquals cs
    (Switch.named.filter fun (n, _) => start.isPrefixOf n.toList).map fun (n, s) =>
      (n, .switch s false joined)
  else
    let start := String.ofList (cs.take 2)
    (Switch.named.filter fun (n, _) => n = start).map fun (n, s) =>
      (n, .switch s true (some ⟨false, cs.drop 2⟩))

def classify (word : String) : Except Complaint Word :=
  let cs := word.toList
  if cs.head? ≠ some '-' then .ok (.plain word)
  else
    match Switch.ofName? word with
    | some s => .ok (.switch s (!isLong cs) none)
    | none =>
        if cs.length = 1 then .ok (.plain word)
        else
          let (name, joined) := cutEquals cs
          match joined, Switch.ofName? (String.ofList name) with
          | some _, some s => .ok (.switch s (!isLong cs) joined)
          | _, _ =>
              match meanings cs with
              | [(_, w)] => .ok w
              | [] => .ok (if isNegativeNumber cs || cs.contains ' ' then .plain word else .unknown word)
              | several => .error (.ambiguous word (several.map Prod.fst))

def classifyAll : List String → Except Complaint (List Word)
  | [] => .ok []
  | word :: rest =>
      if word = "--" then .ok (.dashes :: rest.map .plain)
      else do
        let w ← classify word
        return w :: (← classifyAll rest)

structure Group where
  head : Word
  plain : List String

def group : List Word → List String × List Group
  | [] => ([], [])
  | .plain text :: rest =>
      let (plain, groups) := group rest
      (text :: plain, groups)
  | head :: rest =>
      let (plain, groups) := group rest
      ([], ⟨head, plain⟩ :: groups)

inductive Ending where
  | following (s : Switch)
  | given (s : Switch) (text : String)
  | stray (s : Switch) (text : String)
  deriving DecidableEq, Repr

def cluster (s : Switch) (short equals : Bool) : List Char → Except Complaint (List Switch × Ending)
  | [] => if s.taking = .nothing then .error (.ignored s "") else .ok ([], .given s "")
  | c :: rest =>
      let text := String.ofList (c :: rest)
      if s.taking ≠ .nothing then .ok ([], .given s text)
      else if !short || equals || c = '-' then .error (.ignored s text)
      else
        match Switch.ofName? (String.ofList ['-', c]) with
        | none => .ok ([], .stray s ("-" ++ text))
        | some next =>
            match rest with
            | [] => .ok ([s], .following next)
            | '=' :: after => do
                let (ss, e) ← cluster next true true after
                return (s :: ss, e)
            | d :: after => do
                let (ss, e) ← cluster next true false (d :: after)
                return (s :: ss, e)

def take (s : Switch) (words : List String) : Except Complaint (List String × List String) :=
  match s.taking, words with
  | .nothing, ws => .ok ([], ws)
  | .any, ws => .ok (ws, [])
  | _, [] => .error (.wordExpected s)
  | .one, w :: ws => .ok ([w], ws)
  | .some, ws => .ok (ws, [])

def Options.apply (o : Options) (s : Switch) (words : List String) : Except Stop Options :=
  match s with
  | .help => .error .help
  | .adHoc => .ok { o with adHoc := true }
  | .readerFolder => .ok { o with readerFolder := words.head? }
  | .extract => .ok { o with extract := true }
  | .extractFolder => .ok { o with extractFolder := words.head? }
  | .markers => .ok { o with markers := true }
  | .overwrite => .ok { o with overwrite := true }
  | .width =>
      let word := words.headD ""
      match whole? word with
      | some n => .ok { o with width := some n }
      | none => .error (.complaint (.notNumber s word))
  | .diffs => .ok { o with diffs := true }
  | .json => .ok { o with json := true }
  | .load => .ok { o with load := some words }
  | .input => .ok { o with inputs := some words }

structure Reading where
  options : Options := {}
  extra : List String := []

def Reading.apply (r : Reading) (s : Switch) (words : List String) : Except Stop Reading := do
  return { r with options := (← r.options.apply s words) }

def complain {α : Type} (r : Except Complaint α) : Except Stop α := r.mapError .complaint

def Reading.add (r : Reading) (g : Group) : Except Stop Reading := do
  match g.head with
  | .plain text | .unknown text => return { r with extra := r.extra ++ text :: g.plain }
  | .dashes => return { r with extra := r.extra ++ "--" :: g.plain }
  | .switch s short joined =>
      let (before, ending) ← match joined with
        | none => pure ([], .following s)
        | some j => complain (cluster s short j.equals j.text)
      match ending with
      | .following s =>
          let (words, others) ← complain (take s g.plain)
          let r ← before.foldlM (fun (r : Reading) s => r.apply s []) r
          let r ← r.apply s words
          return { r with extra := r.extra ++ others }
      | .given s text =>
          let r ← before.foldlM (fun (r : Reading) s => r.apply s []) r
          let r ← r.apply s [text]
          return { r with extra := r.extra ++ g.plain }
      | .stray s text =>
          let r ← before.foldlM (fun (r : Reading) s => r.apply s []) r
          let r ← r.apply s []
          return { r with extra := r.extra ++ text :: g.plain }

def Options.read (words : List String) : Except Stop Options := do
  let (plain, groups) := group (← complain (classifyAll words))
  let r ← groups.foldlM Reading.add { extra := plain }
  if r.extra.isEmpty then return r.options
  else throw (.complaint (.unrecognized r.extra))

end Docweave.CommandLine
