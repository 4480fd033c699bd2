import Docweave.Pattern.Search

namespace Docweave

namespace Command

open Pattern

def keywords : Pattern :=
  (lit "return" ++ optional (lit "s")) ||| lit "param" ||| lit "brief" ||| lit "description"
    ||| lit "details" ||| lit "version"

def word : Rule where
  pattern := capture "at_command" (lit "@" ++ keywords)
  labels := ["at_command"]

def lineBreak : Rule where
  pattern := many1 Text.isBlank ++ capture "command" (lineStart ++ lit "@" ++ keywords)
  labels := []

def leading : Rule where
  pattern := lit "@"
    ++ ((capture "commandDrop" (lit "brief" ||| lit "description" ||| lit "details")
        ++ many1 isSpace)
      ||| (capture "commandReturn" (lit "return") ++ optional (lit "s") ++ many1 isSpace)
      ||| (capture "commandCapitalise" (lit "version") ++ many1 isSpace)
      ||| (capture "commandParameter" (lit "param") ++ optional (lit "eter") ++ many1 isSpace
        ++ capture "name" (many1 Text.isWord) ++ spaces)
      ||| (capture "commandIgnore" (lit "file") ++ many1 isSpace))
  labels := ["commandDrop", "commandReturn", "commandCapitalise", "commandParameter", "name",
    "commandIgnore"]

end Command

inductive Dialect where
  | plain
  | swift
  deriving DecidableEq, Repr

def Dialect.isSwift (d : Dialect) : Bool := d == .swift

inductive Command where
  | drop (word : String)
  | result
  | version
  | parameter (name : String)
  | file
  deriving DecidableEq, Repr

namespace Command

def ofLabel (name : String) : String × String → Option Command
  | ("commandDrop", word) => some (.drop word)
  | ("commandReturn", _) => some .result
  | ("commandCapitalise", _) => some .version
  | ("commandParameter", _) => some (.parameter name)
  | ("commandIgnore", _) => some .file
  | _ => none

def lead (d : Dialect) : Command → Option String
  | .drop word => some (if d.isSwift then "" else "@" ++ word ++ " ")
  | .result => some (if d.isSwift then "- Returns: " else "@return ")
  | .version => some (if d.isSwift then "- Version: " else "@version ")
  | .parameter name =>
      some (if d.isSwift then "- Parameter " ++ name ++ ": " else "@param " ++ name ++ " ")
  | .file => none

structure Leading where
  command : Command
  found : Found

def parse? (s : String) : Option Leading :=
  (leading.matchStart s).bind fun f =>
    (firstGroup (leading.groups f) "command").bind fun group =>
      (ofLabel (f.textD "name") group).map fun command => ⟨command, f⟩

def respell? (d : Dialect) (s : String) : Option (String × String) :=
  (parse? s).bind fun l => (l.command.lead d).map fun head => (head, l.found.afterText)

def looksUnknown (s : String) : Bool := (parse? s).isNone && s.toList.head? == some '@'

end Command

end Docweave
