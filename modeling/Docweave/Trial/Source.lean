namespace Docweave.Trial

def ofLines (lines : List String) : String := String.join (lines.map (· ++ "\n"))

def copies (n : Nat) (text : String) : String := String.join (List.replicate n text)

def commented : List String :=
  ["/* A plain comment is ignored. */",
    "",
    "/** @file source.h",
    " * These are pretend file-level comments.",
    " */",
    "",
    "/** doc://./docco.md#Sample",
    " */",
    "void straight_after();",
    "",
    "/** Funny end.",
    " with text first.*/",
    "    /** doc://../data/docco.md#Sample-List",
    "     */",
    "",
    "\t/** doc://#Sample",
    "     * With added note.",
    "     * @param supposed_parameter Supposed parameter.",
    "     */",
    "    void one_line_after(int supposed_parameter);",
    "",
    "    /** This is inset like if it was for a method or something.",
    "     *",
    "     * The Markdown could be tidier, because it passes the 80 column limit and then some too.",
    "     *",
    "     * ## Header for a special paragraph [doc://./docco.md#product-name]",
    "     * This is the special para.",
    "     */",
    "",
    "    /**No space after the docco comment start.",
    "     *",
    "     * This has[doc://./docco.md#infix]inline doc uri.",
    "     * This piece is from the explicit cache \"[doc://#cache-piece]\" it has no",
    "     * path.",
    "     *",
    "     * Next one is only an inline doc uri.",
    "     */",
    "",
    "    /**[doc://./docco.md#infixTwo]*/",
    "",
    "    /** One-liner; next one is empty. */",
    "",
    "    /**",
    "     */",
    "",
    "    /** Put the injected MD into a list.",
    "     *",
    "     * -   doc://./docco.md#Sample",
    "     * -   This isn't sample.",
    "     *",
    "     *     But this is the end of it.",
    "     */",
    "",
    "    /** Starred list with leaders.",
    "     *",
    "     * Here's the list:",
    "     *",
    "     * *   Item one.",
    "     * *   Item *number* two.",
    "     *     *   Item two *point* one. It has a bunch of extra text to",
    "     *         make it exceed the line and get wrapped.",
    "     *     *   Item two *point* two.",
    "     *",
    "     * Here's another, *with* hyphens:",
    "     *",
    "     * -   Hyphenitem one.",
    "     * -   Hyphenitem two, wait for it.",
    "     *",
    "     *     Second para.",
    "     *",
    "     * There aren't any more lists but this is the first paragraph of two and it",
    "     * extends onto a second line. And a second sentence.",
    "     *",
    "     * Long line. The next line starts with a span to test the case that a newline is at the end of a text string.",
    "     * *emphatic line start*.",
    "     *",
    "     * This is the second paragraph and really is the last.",
    "     */",
    "",
    "    /** Leaderless.",
    "",
    "     No leaders in the comment. Next line is just spaces.",
    "",
    "     *   Starred list, item one. Next line is empty.",
    "",
    "     *   Item two.",
    "",
    "     That's not all; numbered list coming.",
    "",
    "     1.  Item number one.",
    "         - With nest.",
    "     1.  Item number two.",
    "     1.  Item number three.",
    "",
    "     -   Nested numbers.",
    "         2. Point one.",
    "         2. Point two.",
    "",
    "         End of nest.",
    "     -   Postnest.",
    "     */",
    "",
    "    /** Leaderless backdent.",
    "",
    "    No leaders in the comment. Next line is just spaces.",
    "",
    "    *   Starred list, item one. Next line is empty.",
    "",
    "    *   Item two.",
    "",
    "    That's all.",
    "    */",
    "",
    "    /** Leaderful backdent.",
    "    *",
    "    * No leaders in the comment.",
    "    *",
    "    * *   Starred list, item one.",
    "    *",
    "    * *   Item two.",
    "    *",
    "    * That's all.",
    "    */",
    "",
    "    /**",
    "     * Nothing on first line.",
    "     */",
    "",
    "    /* Next thing, with three asterisks, is a stupid empty docco comment. */",
    "    /***/",
    "",
    "    /* Next thing, with only two asterisks, isn't a docco comment. */",
    "    /**/",
    "",
    "    /** emp[doc://./docco.md#empty]ty li[doc://./docco.md#emptyline]ne */",
    "",
    "    /** One-liner with code. */void with_code();",
    "",
    "    /** * star in start",
    "     */",
    "",
    "    void some_lines_after();",
    "    /* This is a code comment and should be ignored by the Doctor.",
    "     *",
    "     * Yeah?",
    "     */",
    "    void last_method();",
    "",
    "    /** Variable indent, naughty.",
    "     * OK indent",
    "    *  bad indent",
    "    */",
    "",
    "    /** Variable indent, naughty.",
    "    *   OK indent",
    "     *  bad indent",
    "    */",
    "",
    "    /** Blank line in leaderful block, tut tut.",
    "     *",
    "",
    "     * summat.",
    "     */",
    "",
    "/** Tricky",
    "last line*/"]

def extractable : List String :=
  ["/* ignored */",
    "",
    "/** @file extractablesource.h",
    " * These are pretend file-level comments.",
    " */",
    "",
    "/** Sample",
    " */",
    "void straight_after();",
    "",
    "    /** This is inset like if it was for a method.",
    "     *",
    "     * ## Header for a special paragraph",
    "     * This is the special para.",
    "     */",
    "",
    "    /** @unknown unsupported at-command here",
    "     * @brief short description",
    "     * @return something",
    "     * @version 1.0",
    "     * @param foo the foo value",
    "     */",
    "",
    "    /**",
    "     * Nothing on first line.",
    "     */",
    "",
    "    /** One-liner with code. */void with_code();",
    "",
    "/** Tricky",
    "last line*/"]

def swift : List String :=
  ["/* A plain comment in front. */",
    "",
    "import Foundation",
    "",
    "/**",
    " * Blankly tryin' out some documentationification.",
    " * Same \"html\" line.",
    " *",
    " * *   Startled list.",
    " * *   Second star of two.",
    " *",
    " * Now some code:",
    " *",
    " * this.aint.code();",
    " */",
    "public class DocumentationTryClass \x7b",
    "",
    "    /**",
    "    Blibbity subroutine.",
    "",
    "    Some initial discussion is here.",
    "    @param inty The number of yourselves.",
    "    continuation and on.",
    "",
    "",
    "     No more params but some bonus code.",
    "",
    "         Block o' code",
    "         Here()",
    "",
    "     @return string of them",
    "     */",
    "    public func blib(_ inty: Int) -> String \x7b return \"\" \x7d",
    "",
    "    /**",
    "     Blobby subroutine. Next line starts with a span.",
    "     *blobs* I say **blobs**.",
    "     @returns blobs of them.",
    "     */",
    "    public func blobby(_ inty: Int) -> String \x7b return \"\" \x7d",
    "",
    "    /**",
    "     @param test001p1 Paragraph about parameter one.",
    "     @param test001p2 Paragraph about the other parameter that emphatically",
    "     *isn't* a string type on funny newline.",
    "     @return Paragraph about the return value, which goes on for a bit.",
    "     */",
    "    public func test_001(_ a: String, _ b: Int) -> Int \x7b return 1 \x7d",
    "",
    "    /**",
    "     xxx://#swiftsource-test_002",
    "     */",
    "    public func test_002(_ a: String, _ b: Int) -> Int \x7b return 2 \x7d",
    "",
    "    /**",
    "     * @brief       Neat but unconventional indentation of the brief ...",
    "     * @details     ... the long description marked up by `details`.",
    "     * @version     2.2",
    "     */",
    "    public func test_007() \x7b \x7d",
    "\x7d"]

def plainLine (i : Nat) : String := s!"    int plain_var_{i} = {i};"

def documented (i : Nat) : List String :=
  [s!"    /** Doc {i}.", s!"     * @param p{i} p.", "     */", s!"    void f{i}(int p{i});"]

def header (plain documentedCount : Nat) : List String :=
  "/* plain comment ignored */" :: (List.range plain).map plainLine
    ++ (List.range documentedCount).flatMap documented

end Docweave.Trial
