namespace Docweave.CommandLine

inductive Part where
  | block
  | line
  | tree
  | references
  | job
  | sections
  | items
  | manipulation
  | output
  | reading
  | staged
  | adHoc
  deriving DecidableEq, Repr

def Part.title : Part → String
  | block => "Comment Block module. Part of the Doctor documentation tool."
  | line => "Comment Line. Part of the Doctor documentation tool."
  | tree =>
      "Generate Element Tree representation of documentation comments in code. Part of\n"
        ++ "the Doctor documentation tool."
  | references => "Markdown with doc:// URI resolution. Part of the Doctor documentation tool."
  | job => "Doctor main module. Part of the Doctor documentation tool."
  | sections => "Documentation source reader. Part of the Doctor documentation tool."
  | items => "Markdown Manipulator. Part of the Doctor documentation tool."
  | manipulation =>
      "Markdown tree manipulation subroutines. Part of the Doctor documentation tool."
  | output => "Output tree subroutines. Part of the Doctor documentation tool."
  | reading => "Parsers module. Part of the Doctor documentation tool."
  | staged => "Doctor processing interface. Part of the Doctor documentation tool."
  | adHoc =>
      "Doctor processing interface, original ad hoc implementation. This implementation\n"
        ++ "is deprecated; use the processing.py implementation instead. Part of the Doctor\n"
        ++ "documentation tool."

def Part.notice (p : Part) : String := p.title ++ "\nNo standalone capability.\n\n"

def startNotice : String :=
  "DOCumentation injecTOR tool.\n\n"
    ++ "Run with Python 3 as follows.\n\n"
    ++ "-   python3 -m doctor -o -i path/to/a/directory -i path/to/another/directory\n\n"
    ++ "    Overwrites all .h files anywhere under the specified directories.\n\n"
    ++ "-   python3 -m doctor -h\n"
    ++ "    \n"
    ++ "    Prints usage.\n"
    ++ "\nCan only be run as a module, with the Python -m command line switch.\n\n"

end Docweave.CommandLine
