import Docweave.Text.Lines

namespace Docweave

structure Span where
  start : Nat
  stop : Nat
  deriving DecidableEq, Repr

inductive Pattern where
  | empty
  | text (cs : List Char)
  | one (p : Char → Bool)
  | run (greedy : Bool) (p : Char → Bool) (least : Nat) (most : Option Nat)
  | seq (first second : Pattern)
  | either (first second : Pattern)
  | times (greedy : Bool) (least : Nat) (most : Option Nat) (body : Pattern)
  | capture (label : String) (body : Pattern)
  | again (label : String)
  | given (label : String) (yes no : Pattern)
  | ahead (body : Pattern)
  | notAhead (body : Pattern)
  | behind (classes : List (Char → Bool))
  | textStart
  | textEnd
  | lastLineEnd
  | lineStart
  | wordEdge

structure Cursor where
  before : List Char
  rest : List Char
  offset : Nat
  captures : List (String × Span)

namespace Cursor

def start (cs : List Char) : Cursor := ⟨[], cs, 0, []⟩

def advance (c : Cursor) (ch : Char) (rest : List Char) : Cursor :=
  ⟨ch :: c.before, rest, c.offset + 1, c.captures⟩

def span? (c : Cursor) (label : String) : Option Span := c.captures.lookup label

def captured? (c : Cursor) (label : String) : Option (List Char) :=
  (c.span? label).map fun s =>
    ((c.before.drop (c.offset - s.stop)).take (s.stop - s.start)).reverse

def record (c : Cursor) (label : String) (start : Nat) : Cursor :=
  { c with captures := (label, ⟨start, c.offset⟩) :: c.captures }

def take? : List Char → Cursor → Option Cursor
  | [], c => some c
  | x :: xs, c =>
      match c.rest with
      | y :: ys => if x = y then take? xs (c.advance y ys) else none
      | [] => none

def startsWord (cs : List Char) : Bool := (cs.head?.map Text.isWord).getD false

end Cursor

abbrev Following := Cursor → Option Cursor

namespace Pattern

def runGreedy (p : Char → Bool) (next : Following) : Nat → Option Nat → List Char → Cursor → Option Cursor
  | least, most, ch :: rest, c =>
      if most ≠ some 0 ∧ p ch then
        match runGreedy p next (least - 1) (most.map (· - 1)) rest (c.advance ch rest) with
        | some r => some r
        | none => if least = 0 then next c else none
      else if least = 0 then next c else none
  | least, _, [], c => if least = 0 then next c else none

def runLazy (p : Char → Bool) (next : Following) : Nat → Option Nat → List Char → Cursor → Option Cursor
  | least, most, ch :: rest, c =>
      match if least = 0 then next c else none with
      | some r => some r
      | none =>
          if most ≠ some 0 ∧ p ch then
            runLazy p next (least - 1) (most.map (· - 1)) rest (c.advance ch rest)
          else none
  | least, _, [], c => if least = 0 then next c else none

def repeated (greedy : Bool) (body : Cursor → Following → Option Cursor) :
    Nat → Nat → Option Nat → Cursor → Following → Option Cursor
  | 0, _, _, c, next => next c
  | fuel + 1, least + 1, most, c, next =>
      body c fun c' => repeated greedy body fuel least (most.map (· - 1)) c' next
  | fuel + 1, 0, most, c, next =>
      if most = some 0 then next c
      else
        let more (_ : Unit) : Option Cursor := body c fun c' =>
          if c.offset < c'.offset then
            repeated greedy body fuel 0 (most.map (· - 1)) c' next
          else next c'
        if greedy then (more ()).orElse fun _ => next c
        else (next c).orElse more

def precededBy (classes : List (Char → Bool)) (before : List Char) : Bool :=
  decide (classes.length ≤ before.length)
    && (classes.reverse.zip before).all fun (p, ch) => p ch

def meet : Pattern → Cursor → Following → Option Cursor
  | .empty, c, next => next c
  | .text cs, c, next => (c.take? cs).bind next
  | .one p, c, next =>
      match c.rest with
      | ch :: rest => if p ch then next (c.advance ch rest) else none
      | [] => none
  | .run true p least most, c, next => runGreedy p next least most c.rest c
  | .run false p least most, c, next => runLazy p next least most c.rest c
  | .seq first second, c, next => first.meet c fun c' => second.meet c' next
  | .either first second, c, next => (first.meet c next).orElse fun _ => second.meet c next
  | .times greedy least most body, c, next =>
      repeated greedy body.meet (least + c.rest.length + 1) least most c next
  | .capture label body, c, next => body.meet c fun c' => next (c'.record label c.offset)
  | .again label, c, next =>
      match c.captured? label with
      | some cs => (c.take? cs).bind next
      | none => none
  | .given label yes no, c, next =>
      if (c.span? label).isSome then yes.meet c next else no.meet c next
  | .ahead body, c, next =>
      match body.meet c some with
      | some c' => next { c with captures := c'.captures }
      | none => none
  | .notAhead body, c, next =>
      match body.meet c some with
      | some _ => none
      | none => next c
  | .behind classes, c, next => if precededBy classes c.before then next c else none
  | .textStart, c, next => if c.before.isEmpty then next c else none
  | .textEnd, c, next => if c.rest.isEmpty then next c else none
  | .lastLineEnd, c, next => if c.rest.isEmpty || c.rest == ['\n'] then next c else none
  | .lineStart, c, next =>
      if c.before.isEmpty || c.before.head? == some '\n' then next c else none
  | .wordEdge, c, next =>
      if Cursor.startsWord c.before != Cursor.startsWord c.rest then next c else none

instance : Append Pattern := ⟨Pattern.seq⟩

instance : OrOp Pattern := ⟨Pattern.either⟩

def lit (s : String) : Pattern := .text s.toList

def oneOf (s : String) : Char → Bool := fun c => s.toList.contains c

def noneOf (s : String) : Char → Bool := fun c => !s.toList.contains c

def anyChar : Char → Bool := fun _ => true

def isSpace : Char → Bool := fun c => c == ' '

def notNewline : Char → Bool := fun c => c != '\n'

def many (p : Char → Bool) : Pattern := .run true p 0 none

def many1 (p : Char → Bool) : Pattern := .run true p 1 none

def fewest (p : Char → Bool) (least : Nat) : Pattern := .run false p least none

def optional (body : Pattern) : Pattern := .times true 0 (some 1) body

def star (body : Pattern) : Pattern := .times true 0 none body

def plus (body : Pattern) : Pattern := .times true 1 none body

def spaces : Pattern := many isSpace

end Pattern

end Docweave
