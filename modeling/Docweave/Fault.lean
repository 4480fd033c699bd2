import Docweave.Pattern.Basic
import Docweave.Text.Quoted

namespace Docweave

inductive Category where
  | value
  | notAscii
  | notUtf8
  | system
  | noFile
  | directory
  | noDirectory
  | fileExists
  | runtime
  | assertion
  | unsupported
  | wrongType
  | noAttribute
  | outOfRange
  | noKey
  | noName
  | badPath
  deriving DecidableEq, Repr

def Category.isValue (c : Category) : Bool :=
  c == .value || c == .notAscii || c == .notUtf8

def Category.isSystem (c : Category) : Bool :=
  c == .system || c == .noFile || c == .directory || c == .noDirectory || c == .fileExists

inductive Fault where
  | missing (what : String)
  | unfit (what : String)
  | tooFew (what : String)
  | noField (name : String)
  | undefined (what : String)
  | notAscii (text : String) (span : Span)
  | notUtf8 (bytes : List Nat) (start : Nat) (reason : String)
  | notSpaces (field text : String)
  | wrongGroups (dump : String) (cause : Fault)
  | partExpected
  | unmatchedLine (line : String)
  | firstLineNotStart (line : String)
  | hangingInUse
  | unsupportedItem (item : String)
  | unsupported
  | containUnknown (block item : String)
  | containUndecided (block item : String)
  | notItem (kind : String)
  | notText
  | noSection (uri parts place : String)
  | unknownHost (parts base : String)
  | unreadable (uri base : String) (cause : Fault)
  | repeatedSection (name path : String)
  | badAuthority (message : String)
  | noFile (path : String)
  | isDirectory (path : String)
  | notDirectory (path : String)
  | fileExists (path : String)
  | nullInPath
  | noPath
  | mixedPaths
  | emptySequence
  | extractExists (report : String)
  | blockFailed (block : String) (cause : Fault)
  | wrongWidth (width : Int)
  | negativeIndent
  | notNumber (text : String)
  | badName (text : String)
  | emptyName (path : String)
  | badStep (message : String)
  | noIndex (parent child : String)
  | noParent (grandparent path : String)
  | noChild (parent path : String)
  | tailInUse (element tail : String)
  | emptyLine (element : String)
  | unmatchedElement (element : String)
  | leftover (message : String)
  | noIndent (comment : String)
  | overlap
  | manyChildren (element : String)
  | wrongChild (tag element : String)
  | soleChildNotParagraph (element : String)
  | nestedParagraph (found element : String)
  | cannotPlace (parent child : String)
  | verbatimInLine (buffer element : String)
  deriving Inhabited

namespace Fault

open Text

def category : Fault → Category
  | missing _ => .wrongType
  | unfit _ => .noAttribute
  | tooFew _ => .outOfRange
  | noField _ => .noKey
  | undefined _ => .noName
  | notAscii _ _ => .notAscii
  | notUtf8 _ _ _ => .notUtf8
  | notSpaces _ _ => .value
  | wrongGroups _ _ => .value
  | partExpected => .wrongType
  | unmatchedLine _ => .runtime
  | firstLineNotStart _ => .value
  | hangingInUse => .assertion
  | unsupportedItem _ => .unsupported
  | unsupported => .unsupported
  | containUnknown _ _ => .noKey
  | containUndecided _ _ => .assertion
  | notItem _ => .assertion
  | notText => .assertion
  | noSection _ _ _ => .value
  | unknownHost _ _ => .value
  | unreadable _ _ _ => .system
  | repeatedSection _ _ => .runtime
  | badAuthority _ => .value
  | noFile _ => .noFile
  | isDirectory _ => .directory
  | notDirectory _ => .noDirectory
  | fileExists _ => .fileExists
  | nullInPath => .value
  | noPath => .value
  | mixedPaths => .value
  | emptySequence => .value
  | extractExists _ => .runtime
  | blockFailed _ cause => cause.category
  | wrongWidth _ => .value
  | negativeIndent => .value
  | notNumber _ => .value
  | badName _ => .value
  | emptyName _ => .value
  | badStep _ => .badPath
  | noIndex _ _ => .value
  | noParent _ _ => .assertion
  | noChild _ _ => .assertion
  | tailInUse _ _ => .assertion
  | emptyLine _ => .assertion
  | unmatchedElement _ => .assertion
  | leftover _ => .assertion
  | noIndent _ => .assertion
  | overlap => .assertion
  | manyChildren _ => .unsupported
  | wrongChild _ _ => .unsupported
  | soleChildNotParagraph _ => .unsupported
  | nestedParagraph _ _ => .assertion
  | cannotPlace _ _ => .unsupported
  | verbatimInLine _ _ => .assertion

def cause : Fault → Option Fault
  | wrongGroups _ cause => some cause
  | unreadable _ _ cause => some cause
  | blockFailed _ cause => some cause
  | containUnknown block _ => some (noField block)
  | _ => none

def positions (start stop : Nat) : String :=
  if stop = start + 1 then s!"in position {start}" else s!"in position {start}-{stop - 1}"

def notAsciiMessage (text : String) (span : Span) : String :=
  let bad := (text.toList.drop span.start).take (span.stop - span.start)
  match bad with
  | [c] => s!"'ascii' codec can't encode character '" ++ String.ofList (escapePoint c.toNat) ++ "' "
      ++ positions span.start span.stop ++ ": ordinal not in range(128)"
  | _ => "'ascii' codec can't encode characters " ++ positions span.start span.stop
      ++ ": ordinal not in range(128)"

def notUtf8Message (bytes : List Nat) (start : Nat) (reason : String) : String :=
  match bytes with
  | [b] => "'utf-8' codec can't decode byte 0x" ++ String.ofList (hexDigits 2 b) ++ " "
      ++ positions start (start + 1) ++ ": " ++ reason
  | _ => "'utf-8' codec can't decode bytes " ++ positions start (start + bytes.length) ++ ": "
      ++ reason

def shown (c : Category) (message : String) : String :=
  if c = .noKey then quoted message else message

def message : Fault → String
  | missing what => what
  | unfit what => what
  | tooFew what => what
  | noField name => quoted name
  | undefined what => what
  | notAscii text span => notAsciiMessage text span
  | notUtf8 bytes start reason => notUtf8Message bytes start reason
  | notSpaces field text =>
      s!"Value for {field} must be all spaces but was passed {(quotedBytes? text).getD text}."
  | wrongGroups dump _ => s!"Wrong value in match {dump}."
  | partExpected => "Line type must be a CommentLineType value."
  | unmatchedLine line => s!"Line didn't match start, finish, nor continue. {line}"
  | firstLineNotStart line => s!"First line should have lineType START {line}."
  | hangingInUse => "Paragraph custom property in use."
  | unsupportedItem item => item
  | unsupported => ""
  | containUnknown block item =>
      quoted s!"Block contain configuration incomplete for {block} and {item}."
  | containUndecided block item => s!"Don't know if {block} can or cannot contain {item}."
  | notItem kind => s!"Item in text consolidation isn't MarkdownItem: <class '{kind}'>"
  | notText => "Text in paragraph contents aren't str."
  | noSection uri parts place => s!"Content for URI \"{uri}\" {parts} not found in {place}."
  | unknownHost parts base => s!"Don't know how to get_content for{parts} \"{base}\"."
  | unreadable uri base _ => s!"Error getting content for \"{uri}\" relative to:\"{base}\""
  | repeatedSection name path => s!"Repeated fragment \"{name}\" in file \"{path}\"."
  | badAuthority message => message
  | noFile path => s!"[Errno 2] No such file or directory: {quoted path}"
  | isDirectory path => s!"[Errno 21] Is a directory: {quoted path}"
  | notDirectory path => s!"[Errno 20] Not a directory: {quoted path}"
  | fileExists path => s!"[Errno 17] File exists: {quoted path}"
  | nullInPath => "embedded null byte"
  | noPath => "no path specified"
  | mixedPaths => "Can't mix absolute and relative paths"
  | emptySequence => "commonpath() arg is an empty sequence"
  | extractExists report => s!"Extract path exists already \"{report}\"."
  | blockFailed block cause =>
      shown cause.category s!"Error getting Markdown items. Block:{block}."
  | wrongWidth width => s!"invalid width {width} (must be > 0)"
  | negativeIndent => "Sign not allowed in string format specifier"
  | notNumber text => s!"invalid literal for int() with base 10: {quoted text}"
  | badName text => s!"Invalid name {quoted text}"
  | emptyName path => path ++ " has an empty name"
  | badStep message => message
  | noIndex parent child =>
      s!"Child wasn't found by index.\nparent:{parent}\nchild:{child}"
  | noParent grandparent path =>
      s!"Grandparent but no parent\ngrandparent:{grandparent}\nxpath:\"{path}"
  | noChild parent path => s!"Parent but no child\nparent:{parent}\nxpath:\"{path}"
  | tailInUse element tail => s!"Overwriting tail {element} with \"{tail}\"."
  | emptyLine element => s!"Empty text in {element}."
  | unmatchedElement element => s!"Failed to match line: {element}."
  | leftover message => message
  | noIndent comment => s!"No <indent> in comment: {comment}."
  | overlap => ""
  | manyChildren element => s!"Single content line but multiple child elements {element}."
  | wrongChild tag element =>
      s!"Single content line doesn't have expected tag \"{tag}\"\n{element}."
  | soleChildNotParagraph element => s!"Single content line isn't paragraph {element}."
  | nestedParagraph found element => s!"Nested paragraph: {found}\nunder:{element}"
  | cannotPlace parent child => s!"Don't know if {parent} can or cannot contain {child}."
  | verbatimInLine buffer element =>
      s!"Verbatim print but buffer isn't empty\n{buffer}\n{element}"

end Fault

def nonAsciiSpan (cs : List Char) : Span :=
  let ok := cs.takeWhile Text.isAscii
  let bad := (cs.drop ok.length).takeWhile fun c => !Text.isAscii c
  ⟨ok.length, ok.length + bad.length⟩

def quotedBytes (s : String) : Except Fault String :=
  match Text.quotedBytes? s with
  | some q => .ok q
  | none => .error (.notAscii s (nonAsciiSpan s.toList))

end Docweave
