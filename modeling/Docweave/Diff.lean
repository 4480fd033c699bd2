namespace Docweave.Diff

structure Match where
  left : Nat
  right : Nat
  size : Nat
  deriving DecidableEq, Repr

structure Window where
  leftStart : Nat
  leftStop : Nat
  rightStart : Nat
  rightStop : Nat
  deriving DecidableEq, Repr

def isCommon (count total : Nat) : Bool := decide (200 ≤ total) && decide (total / 100 + 1 < count)

def placesOf (line : String) : Nat → List String → List Nat
  | _, [] => []
  | i, l :: ls => if l = line then i :: placesOf line (i + 1) ls else placesOf line (i + 1) ls

def targets (left right : List String) : List (List Nat) :=
  left.map fun line =>
    let places := placesOf line 0 right
    if isCommon places.length right.length then [] else places

structure Search where
  best : Match
  ends : List (Nat × Nat) := []

def extendRuns (w : Window) (i : Nat) (s : Search) (places : List Nat) : Search :=
  let runs := (places.filter fun j => decide (w.rightStart ≤ j) && decide (j < w.rightStop)).map
    fun j => (j, (if j = 0 then 0 else (s.ends.lookup (j - 1)).getD 0) + 1)
  let best := runs.foldl (fun (best : Match) (j, k) =>
    if best.size < k then ⟨i + 1 - k, j + 1 - k, k⟩ else best) s.best
  ⟨best, runs⟩

def commonLength : List String → List String → Nat
  | x :: xs, y :: ys => if x = y then commonLength xs ys + 1 else 0
  | _, _ => 0

def slice {α : Type} (l : List α) (start stop : Nat) : List α := (l.drop start).take (stop - start)

def longest (left right : List String) (places : List (List Nat)) (w : Window) : Match :=
  let search := (slice places w.leftStart w.leftStop).zipIdx.foldl
    (fun s (ps, i) => extendRuns w (w.leftStart + i) s ps) ⟨⟨w.leftStart, w.rightStart, 0⟩, []⟩
  let m := search.best
  let back := commonLength (slice left w.leftStart m.left).reverse
    (slice right w.rightStart m.right).reverse
  let forth := commonLength (slice left (m.left + m.size) w.leftStop)
    (slice right (m.right + m.size) w.rightStop)
  ⟨m.left - back, m.right - back, m.size + back + forth⟩

def matchesIn (left right : List String) (places : List (List Nat)) : Nat → Window → List Match
  | 0, _ => []
  | fuel + 1, w =>
      let m := longest left right places w
      if m.size = 0 then []
      else
        let before : Window := ⟨w.leftStart, m.left, w.rightStart, m.right⟩
        let after : Window := ⟨m.left + m.size, w.leftStop, m.right + m.size, w.rightStop⟩
        let inside (w : Window) : List Match :=
          if w.leftStart < w.leftStop ∧ w.rightStart < w.rightStop then
            matchesIn left right places fuel w
          else []
        inside before ++ m :: inside after

def mergeMatches : List Match → List Match
  | m :: n :: rest =>
      if m.left + m.size = n.left ∧ m.right + m.size = n.right then
        mergeMatches (⟨m.left, m.right, m.size + n.size⟩ :: rest)
      else m :: mergeMatches (n :: rest)
  | ms => ms
termination_by ms => ms.length

def allMatches (left right : List String) : List Match :=
  mergeMatches (matchesIn left right (targets left right) (left.length + 1)
    ⟨0, left.length, 0, right.length⟩)

inductive Kind where
  | equal
  | insert
  | delete
  | replace
  deriving DecidableEq, Repr

structure Edit where
  kind : Kind
  window : Window
  deriving DecidableEq, Repr

def gapEdit (w : Window) : List Edit :=
  let shorter := decide (w.leftStart < w.leftStop)
  let longer := decide (w.rightStart < w.rightStop)
  match shorter, longer with
  | true, true => [⟨.replace, w⟩]
  | true, false => [⟨.delete, w⟩]
  | false, true => [⟨.insert, w⟩]
  | false, false => []

def editsFrom (leftLength rightLength : Nat) : Nat → Nat → List Match → List Edit
  | i, j, [] => gapEdit ⟨i, leftLength, j, rightLength⟩
  | i, j, m :: ms =>
      gapEdit ⟨i, m.left, j, m.right⟩
        ++ ⟨.equal, ⟨m.left, m.left + m.size, m.right, m.right + m.size⟩⟩
        :: editsFrom leftLength rightLength (m.left + m.size) (m.right + m.size) ms

def edits (left right : List String) : List Edit :=
  editsFrom left.length right.length 0 0 (allMatches left right)

def lastLines (n : Nat) (w : Window) : Window :=
  ⟨max w.leftStart (w.leftStop - n), w.leftStop, max w.rightStart (w.rightStop - n), w.rightStop⟩

def firstLines (n : Nat) (w : Window) : Window :=
  ⟨w.leftStart, min w.leftStop (w.leftStart + n), w.rightStart, min w.rightStop (w.rightStart + n)⟩

def trimFirst (n : Nat) : List Edit → List Edit
  | ⟨.equal, w⟩ :: rest => ⟨.equal, lastLines n w⟩ :: rest
  | es => es

def trimLast (n : Nat) (es : List Edit) : List Edit :=
  match es.getLast? with
  | some ⟨.equal, w⟩ => es.dropLast ++ [⟨.equal, firstLines n w⟩]
  | _ => es

def groupFrom (n : Nat) : List Edit → List Edit → List (List Edit)
  | group, [] =>
      match group with
      | [] => []
      | [⟨.equal, _⟩] => []
      | _ => [group]
  | group, ⟨.equal, w⟩ :: rest =>
      if w.leftStop - w.leftStart > n + n then
        (group ++ [⟨.equal, firstLines n w⟩]) :: groupFrom n [⟨.equal, lastLines n w⟩] rest
      else groupFrom n (group ++ [⟨.equal, w⟩]) rest
  | group, e :: rest => groupFrom n (group ++ [e]) rest

def groups (n : Nat) (es : List Edit) : List (List Edit) :=
  groupFrom n [] (trimLast n (trimFirst n es))

def range (start stop : Nat) : String :=
  let length := stop - start
  if length = 0 then toString start
  else if length = 1 then toString (start + 1)
  else s!"{start + 1},{start + length}"

def Kind.mark : Kind → String
  | equal => "  "
  | insert => "+ "
  | delete => "- "
  | replace => "! "

def isLeft (e : Edit) : Bool := e.kind == .replace || e.kind == .delete

def isRight (e : Edit) : Bool := e.kind == .replace || e.kind == .insert

def showGroup (left right : List String) (group : List Edit) : List String :=
  match group.head?, group.getLast? with
  | some first, some last =>
      let w : Window := ⟨first.window.leftStart, last.window.leftStop, first.window.rightStart,
        last.window.rightStop⟩
      let leftLines := (group.filter (·.kind != .insert)).flatMap fun e =>
        (slice left e.window.leftStart e.window.leftStop).map (e.kind.mark ++ ·)
      let rightLines := (group.filter (·.kind != .delete)).flatMap fun e =>
        (slice right e.window.rightStart e.window.rightStop).map (e.kind.mark ++ ·)
      ["***************\n", s!"*** {range w.leftStart w.leftStop} ****\n"]
        ++ (if group.any isLeft then leftLines else [])
        ++ [s!"--- {range w.rightStart w.rightStop} ----\n"]
        ++ (if group.any isRight then rightLines else [])
  | _, _ => []

def context (n : Nat) (leftName rightName : String) (left right : List String) : List String :=
  let shown := groups n (edits left right)
  if shown.isEmpty then []
  else
    [s!"*** {leftName}\n", s!"--- {rightName}\n"] ++ shown.flatMap (showGroup left right)

end Docweave.Diff
