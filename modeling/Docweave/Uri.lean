import Docweave.Fault
import Docweave.Text.Lowercase

namespace Docweave

structure Uri where
  scheme : String := ""
  authority : String := ""
  path : String := ""
  parameters : String := ""
  query : String := ""
  fragment : String := ""
  deriving DecidableEq, Repr

namespace Uri

open Text

def quoted (u : Uri) : String :=
  "ParseResult(" ++ ", ".intercalate
    [s!"scheme={Text.quoted u.scheme}", s!"netloc={Text.quoted u.authority}",
      s!"path={Text.quoted u.path}", s!"params={Text.quoted u.parameters}",
      s!"query={Text.quoted u.query}", s!"fragment={Text.quoted u.fragment}"] ++ ")"

def schemesWithParameters : List String :=
  ["", "ftp", "hdl", "prospero", "http", "imap", "https", "shttp", "rtsp", "rtsps", "rtspu", "sip",
    "sips", "mms", "sftp", "tel"]

def cutAt (c : Char) (cs : List Char) : Option (List Char × List Char) :=
  match cs.dropWhile (· != c) with
  | [] => none
  | _ :: rest => some (cs.takeWhile (· != c), rest)

def isSchemeChar (c : Char) : Bool :=
  c.isAlphanum || c == '+' || c == '-' || c == '.'

def cutScheme (cs : List Char) : List Char × List Char :=
  match cutAt ':' cs with
  | some (c :: before, rest) =>
      if c.isAlpha && before.all isSchemeChar then ((c :: before).map Char.toLower, rest) else ([], cs)
  | _ => ([], cs)

def cutAuthority : List Char → List Char × List Char
  | '/' :: '/' :: rest =>
      let stop (c : Char) : Bool := c == '/' || c == '?' || c == '#'
      (rest.takeWhile (!stop ·), rest.dropWhile (!stop ·))
  | cs => ([], cs)

def isHex (c : Char) : Bool :=
  c.isDigit || (decide ('a' ≤ c) && decide (c ≤ 'f')) || (decide ('A' ≤ c) && decide (c ≤ 'F'))

def isOctet (cs : List Char) : Bool :=
  !cs.isEmpty && cs.all Char.isDigit && cs.length ≤ 3 && (cs == ['0'] || cs.head? != some '0')
    && cs.foldl (fun n c => n * 10 + (c.toNat - 48)) 0 ≤ 255

def isDotted (cs : List Char) : Bool :=
  let parts := cs.splitOn '.'
  parts.length == 4 && parts.all isOctet

def isGroup (cs : List Char) : Bool := !cs.isEmpty && cs.all isHex && cs.length ≤ 4

def areGroups (parts : List (List Char)) : Bool :=
  let inner := (List.range parts.length).filter fun i =>
    0 < i && i + 1 < parts.length && (parts.getD i []).isEmpty
  match inner with
  | [] => parts.length == 8 && parts.all isGroup
  | [i] =>
      let front := parts.take i
      let back := parts.drop (i + 1)
      let front := if front == [[]] then [] else front
      let back := if back == [[]] then [] else back
      front.all isGroup && back.all isGroup && front.length + back.length ≤ 7
  | _ => false

def isColoned (cs : List Char) : Bool :=
  let (address, zoneOk) :=
    match cutAt '%' cs with
    | none => (cs, true)
    | some (address, zone) => (address, !zone.isEmpty && !zone.contains '%')
  let parts := address.splitOn ':'
  let last := parts.getLast?.getD []
  let parts? :=
    if !last.contains '.' then some parts
    else if isDotted last then some (parts.dropLast ++ [['0'], ['0']])
    else none
  zoneOk && !cs.contains '/' && decide (3 ≤ parts.length)
    && (parts?.map fun parts => decide (parts.length ≤ 9) && areGroups parts).getD false

def isFutureHost (cs : List Char) : Bool :=
  match cutAt '.' (cs.drop 1) with
  | some (version, rest) => !version.isEmpty && version.all isHex && !rest.isEmpty
  | none => false

def checkBracketed (host : List Char) : Except Fault Unit :=
  if host.head? = some 'v' then
    if isFutureHost host then .ok () else .error (.badAuthority "IPvFuture address is invalid")
  else if isDotted host then .error (.badAuthority "An IPv4 address cannot be in brackets")
  else if isColoned host then .ok ()
  else
    .error (.badAuthority
      (Text.quoted (String.ofList host) ++ " does not appear to be an IPv4 or IPv6 address"))

def signLike : List Nat :=
  [0x2047, 0x2048, 0x2049, 0x2100, 0x2101, 0x2105, 0x2106, 0x2A74, 0xFE13, 0xFE16, 0xFE55, 0xFE56,
    0xFE5F, 0xFE6B, 0xFF03, 0xFF0F, 0xFF1A, 0xFF1F, 0xFF20]

def checkAuthority (cs : List Char) : Except Fault Unit := do
  let opened := cs.contains '['
  let closed := cs.contains ']'
  if opened != closed then throw (.badAuthority "Invalid IPv6 URL")
  if opened then
    let inside := ((cs.dropWhile (· != '[')).drop 1).takeWhile (· != ']')
    checkBracketed inside
  if cs.any fun c => signLike.contains c.toNat then
    throw (.badAuthority ("netloc '" ++ String.ofList cs
      ++ "' contains invalid characters under NFKC normalization"))

def cutParameters (cs : List Char) : List Char × List Char :=
  let last := (cs.reverse.takeWhile (· != '/')).reverse
  match cutAt ';' last with
  | none => (cs, [])
  | some (before, after) => (cs.take (cs.length - last.length) ++ before, after)

def clean (s : String) : List Char :=
  (s.toList.dropWhile fun c => decide (c.toNat ≤ 32)).filter fun c =>
    c != '\t' && c != '\r' && c != '\n'

def parse (s : String) : Except Fault Uri := do
  let (scheme, rest) := cutScheme (clean s)
  let (authority, rest) := cutAuthority rest
  checkAuthority authority
  let (rest, fragment) := (cutAt '#' rest).getD (rest, [])
  let (path, query) := (cutAt '?' rest).getD (rest, [])
  let scheme := String.ofList scheme
  let (path, parameters) :=
    if schemesWithParameters.contains scheme then cutParameters path else (path, [])
  return {
    scheme
    authority := String.ofList authority
    path := String.ofList path
    parameters := String.ofList parameters
    query := String.ofList query
    fragment := String.ofList fragment }

end Uri

end Docweave
