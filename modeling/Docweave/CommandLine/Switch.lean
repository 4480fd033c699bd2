import Docweave.Text.Fill

namespace Docweave.CommandLine

inductive Switch where
  | help
  | adHoc
  | readerFolder
  | extract
  | extractFolder
  | markers
  | overwrite
  | width
  | diffs
  | json
  | load
  | input
  deriving DecidableEq, Repr

inductive Taking where
  | nothing
  | one
  | any
  | some
  deriving DecidableEq, Repr

namespace Switch

def all : List Switch :=
  [help, adHoc, readerFolder, extract, extractFolder, markers, overwrite, width, diffs, json, load,
    input]

def names : Switch → List String
  | help => ["-h", "--help"]
  | adHoc => ["--ad-hoc"]
  | readerFolder => ["-m", "--mistune"]
  | extract => ["-e", "--extract"]
  | extractFolder => ["-x", "--extract_dir"]
  | markers => ["-k", "--markers"]
  | overwrite => ["-o", "--overwrite"]
  | width => ["-w", "--width"]
  | diffs => ["-d", "--diffs"]
  | json => ["-j", "--json"]
  | load => ["-l", "--load"]
  | input => ["-i", "--input"]

def taking : Switch → Taking
  | readerFolder | extractFolder | width => .one
  | load => .any
  | input => .some
  | _ => .nothing

def placeholder : Switch → String
  | readerFolder => "MISTUNE"
  | extractFolder => "EXTRACT_DIR"
  | width => "WIDTH"
  | load => "LOAD"
  | input => "INPUTS"
  | _ => ""

def explanation : Switch → String
  | help => "show this help message and exit"
  | adHoc => "run old ad-hoc code, for compatibility; default is to run latest tree-based code"
  | readerFolder =>
      "directory to add to the import paths to enable `import mistune`, or pass \"\" to add nothing "
        ++ "and rely on PYTHONPATH; default is to read the MISTUNE environment variable or, if that "
        ++ "isn't set, go up two levels from the directory of this file, and then down into mistune/"
  | extract => "extract documentation comments from source files and write them to .md files"
  | extractFolder =>
      "root directory for new .md files created by '--extract'; default is to put .md files "
        ++ "alongside source files"
  | markers => "leave <doc> markers where text was injected"
  | overwrite => "overwrite the input files in place; default is a dry run"
  | width =>
      "maximum column width, for wrapping, or zero to switch off wrapping; default is don't wrap"
  | diffs => "log context diffs to stdout"
  | json => "log per-source file reports in JSON format to stdout"
  | load => "documentation source files or directories to be pre-loaded into the getter cache"
  | input => "input files or directories"

def named : List (String × Switch) := all.flatMap fun s => s.names.map fun n => (n, s)

def ofName? (name : String) : Option Switch := named.lookup name

def title (s : Switch) : String := String.intercalate "/" s.names

def form (s : Switch) (name : String) : String :=
  match s.taking with
  | .nothing => name
  | .one => name ++ " " ++ s.placeholder
  | .any => name ++ " [" ++ s.placeholder ++ " ...]"
  | .some => name ++ " " ++ s.placeholder ++ " [" ++ s.placeholder ++ " ...]"

end Switch

def columns : Nat := 78

def putParts (indent : Nat) : List String → Nat → List String → List String
  | line, _, [] => if line.isEmpty then [] else [written line]
  | line, used, part :: rest =>
      if columns < used + part.length && !line.isEmpty then
        written line :: putParts indent [part] (indent + part.length + 1) rest
      else putParts indent (line ++ [part]) (used + part.length + 1) rest
where
  written (line : List String) : String :=
    String.ofList (List.replicate indent ' ') ++ " ".intercalate line

def usage (program : String) : String :=
  let start := "usage: "
  let parts := Switch.all.map fun s => "[" ++ s.form (s.names.headD "") ++ "]"
  let short := 4 * (start.length + program.length) ≤ 3 * columns
  let lines :=
    if short then
      let indent := start.length + program.length + 1
      match putParts indent [] start.length (program :: parts) with
      | first :: rest => String.ofList (first.toList.drop indent) :: rest
      | [] => []
    else program :: putParts start.length [] start.length parts
  start ++ "\n".intercalate lines ++ "\n"

def description : String :=
  "DOCumentation injecTOR tool.\n\n"
    ++ "Run with Python 3 as follows.\n\n"
    ++ "-   python3 -m doctor -o -i path/to/a/directory -i path/to/another/directory\n\n"
    ++ "    Overwrites all .h files anywhere under the specified directories.\n\n"
    ++ "-   python3 -m doctor -h\n\n"
    ++ "    Prints usage.\n\n"
    ++ "Set the MISTUNE environment variable to a path to add to the import paths to\n"
    ++ "enable `import mistune`, or use the `-m PATH` command line switch, or\n"
    ++ "use `-m \"\"` and set PYTHONPATH.\n"

def Switch.entry (s : Switch) : String :=
  let spaces (n : Nat) : String := String.ofList (List.replicate n ' ')
  let header := "  " ++ ", ".intercalate (s.names.map s.form)
  let lines := (Text.fill 54 "" s.explanation).toOption.getD []
  let below (ls : List String) : String := String.join (ls.map fun l => spaces 24 ++ l ++ "\n")
  match lines with
  | first :: rest =>
      if header.length ≤ 22 then header ++ spaces (24 - header.length) ++ first ++ "\n" ++ below rest
      else header ++ "\n" ++ below lines
  | [] => header ++ "\n"

def helpText (program : String) : String :=
  usage program ++ "\n" ++ description ++ "\noptions:\n" ++ String.join (Switch.all.map Switch.entry)

end Docweave.CommandLine
