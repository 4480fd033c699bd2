import Docweave.Comment.Block
import Docweave.Proofs.Comments.Strips

namespace Docweave.Comment

open Pattern List
open String (ofList toList_ofList)

variable {f : Found} {cs : List Char} {err : Fault} {notes : List Note} {verbose : Bool} {lbl : String}
  {m : OpenMark} {k : CloseMark} {rule : Rule} {g : Groups} {head : Head} {n : Nat} {c : Cut}

lemma text?_of_span {span : Span} {xs : List Char} (hs : f.span? lbl = some span)
  (hx : Found.slice f.subject span = xs) : f.text? lbl = some (ofList xs) := by
  rw [Found.text?,Found.chars?,hs,Option.map_some,hx]
  rfl

lemma text?_of_no_span (hs : f.span? lbl = none) : f.text? lbl = none := by
  rw [Found.text?,Found.chars?,hs]
  rfl

lemma groups_opening (m : OpenMark) : opening.groups m.found =
  [("indent",some (ofList m.indent)),("symbol",some "/**"),("margin",some (ofList m.margin))] := by
  have hi : m.found.text? "indent" = some (ofList m.indent) :=
    text?_of_span rfl m.slice_indent
  have hs : m.found.text? "symbol" = some "/**" := text?_of_span rfl m.slice_symbol
  have hm : m.found.text? "margin" = some (ofList m.margin) :=
    text?_of_span rfl m.slice_margin
  simp only [Rule.groups,opening,map_cons,map_nil,hi,hs,hm]

lemma groups_closing (k : CloseMark) (hb : k.indent = none ∨ k.before = []) : closing.groups k.found =
    [("indent",k.indent.map ofList),("symbol",some "*/")] := by
  have hs : k.found.subject = k.whole := by
    simp [Found.subject,CloseMark.found,CloseMark.whole]
  have hsy : k.found.text? "symbol" = some "*/" :=
    text?_of_span rfl (by rw [hs]; exact k.slice_symbol)
  have hin : k.found.text? "indent" = k.indent.map ofList := by
    cases hi : k.indent with
    | none => exact text?_of_no_span (by simp [Found.span?,CloseMark.found,hi])
    | some i =>
      have hp : k.before = [] := by simpa [hi] using hb
      have hc : k.indentChars = i := by simp [CloseMark.indentChars,hi]
      have hsl := CloseMark.slice_indent hp
      rw [hc,← hs] at hsl
      exact text?_of_span (by rw [CloseMark.found,hi]; rfl) hsl
  simp only [Rule.groups,closing,map_cons,map_nil,hin,hsy]

lemma heads : "symbol".isPrefixOf "indent" = false ∧ "symbol".isPrefixOf "symbol" ∧
    "symbol".isPrefixOf "symbolEOL" ∧ "symbol".isPrefixOf "symbolMargin" ∧
    "symbol".isPrefixOf "margin" = false ∧ "symbol".isPrefixOf "symbolNonSlash" ∧
    "symbol".isPrefixOf "EOL" = false ∧ "symbol".isPrefixOf "nonSymbol" = false ∧
    "indent".isPrefixOf "indent" ∧ "indent".isPrefixOf "symbol" = false ∧
    "margin".isPrefixOf "indent" = false ∧
    "margin".isPrefixOf "symbol" = false ∧ "margin".isPrefixOf "symbolEOL" = false ∧
    "margin".isPrefixOf "symbolMargin" = false ∧ "margin".isPrefixOf "margin" ∧
    "margin".isPrefixOf "symbolNonSlash" = false ∧ "margin".isPrefixOf "EOL" = false ∧
    "margin".isPrefixOf "nonSymbol" = false := by
  decide +kernel

lemma first_opening (m : OpenMark) : (Groups.found opening m.found).first "symbol" = some ("symbol","/**") ∧
    (Groups.found opening m.found).first "indent" = some ("indent",ofList m.indent) ∧
    (Groups.found opening m.found).first "margin" = some ("margin",ofList m.margin) := by
  simp [Groups.first,Groups.entries,groups_opening,firstGroup,heads]

lemma first_closing (k : CloseMark) (hb : k.indent = none ∨ k.before = []) :
  (Groups.found closing k.found).first "symbol" = some ("symbol","*/") ∧
    (Groups.found closing k.found).first "indent" = k.indent.map (fun i => ("indent",ofList i)) ∧
    (Groups.found closing k.found).first "margin" = none := by
  cases hi : k.indent <;> simp [Groups.first,Groups.entries,groups_closing k hb,firstGroup,heads,hi]

lemma text?_continuation (m : ContinueMark) (lbl : String) :
    m.found.text? lbl = (m.found.span? lbl).map fun span =>
    ofList (Found.slice (m.head ++ m.after) span) := by
  rw [Found.text?,Found.chars?,Option.map_map]
  rfl

lemma first_continuation (m : ContinueMark) :
    ((Groups.found continuation m.found).first "symbol").map Prod.snd =
        (if m.leader = .bare then none else some "*") ∧
      ((Groups.found continuation m.found).first "indent").map Prod.snd =
        some (ofList (replicate m.indent ' ')) ∧
      ((Groups.found continuation m.found).first "margin").map Prod.snd =
        (if m.leader = .starSpace then some " " else none) := by
  have hi := m.slice_indent
  have hsy := m.slice_symbol
  have hm := m.slice_margin
  have hg : continuation.groups m.found = continuation.labels.map fun lbl =>
      (lbl, (m.found.span? lbl).map fun span =>
        ofList (Found.slice (m.head ++ m.after) span)) := by
    simp only [Rule.groups,text?_continuation]
  simp only [Groups.first,Groups.entries,hg]
  obtain ⟨k,leader,after⟩ := m
  simp only [ContinueMark.found,ContinueMark.captures,Found.span?]
  generalize ContinueMark.atEnd ⟨k,leader,after⟩ = b
  cases leader with
  | bare => cases b <;> simp [firstGroup,continuation,lookup_cons,heads,hi]
  | star =>
    have hs : Found.slice ((⟨k,.star,after⟩ : ContinueMark).head ++ after) ⟨k,k + 1⟩ = ['*'] :=
      hsy
    cases b <;> simp [firstGroup,continuation,lookup_cons,heads,hi,hs]
  | starSpace =>
    have hs : Found.slice ((⟨k,.starSpace,after⟩ : ContinueMark).head ++ after) ⟨k,k + 1⟩ = ['*'] := hsy
    have hsp : Found.slice ((⟨k,.starSpace,after⟩ : ContinueMark).head ++ after) ⟨k + 1,k + 2⟩ = [' '] := hm
    simp [firstGroup,continuation,lookup_cons,heads,hi,hs,hsp]

def lineOf : Strip → Line
  | .code n cs => { number := some n, text := some (ofList cs) }
  | .start n m =>
    { number := some n
      indent := some m.indent.length
      symbol := some "/**"
      margin := some m.margin.length
      text := some (ofList (bodyText m.after))
      ending := some (ofList (lineEnd m.after))
      part := some .start }
  | .middle n m =>
    { number := some n
      indent := some m.indent
      symbol := if m.leader = .bare then none else some "*"
      margin := if m.leader = .starSpace then some 1 else none
      text := some (ofList (bodyText m.after))
      ending := some (ofList (lineEnd m.after))
      part := some .middle }
  | .finish n indent =>
    { number := some n
      indent := indent.map fun i => (i.length : Int)
      symbol := some "*/"
      part := some .finish }

def scannedOf : Strip → Scanned
  | .code n cs => .code (.of n (ofList cs))
  | s => .comment (lineOf s)

def onlySpaces (cs : List Char) : Bool := cs.all (· == ' ')

lemma countSpaces_ok (field : String) (h : onlySpaces cs) :
  Line.countSpaces field (ofList cs) = .ok (cs.length : Int) := by
  rw [Line.countSpaces,if_pos]
  · simp
  · simpa [onlySpaces] using h

lemma quotedBytes_isValue {s : String} (h : quotedBytes s = .error err) : err.category.isValue := by
  rw [quotedBytes] at h
  cases hq : Text.quotedBytes? s with
  | some q => simp [hq] at h
  | none =>
    simp only [hq,Except.error.injEq] at h
    subst h
    rfl

lemma dumpPart_isValue (h : Rule.dumpPart cs = .error err) : err.category.isValue := by
  rw [Rule.dumpPart] at h
  split at h
  · simp at h
  · exact quotedBytes_isValue h

lemma bind_error {α β : Type} {x : Except Fault α} {f : α → Except Fault β} (h : x >>= f = .error err) :
  x = .error err ∨ ∃ a, x = .ok a ∧ f a = .error err := by
  cases x with
  | error err' =>
    cases h
    exact Or.inl rfl
  | ok a => exact Or.inr ⟨a,rfl,h⟩

lemma dump_isValue (h : rule.dump f = .error err) : err.category.isValue := by
  rcases bind_error h with h | ⟨_,-,h⟩
  · exact dumpPart_isValue h
  rcases bind_error h with h | ⟨_,-,h⟩
  · exact dumpPart_isValue h
  rcases bind_error h with h | ⟨_,-,h⟩
  · exact dumpPart_isValue h
  rcases bind_error h with h | ⟨_,-,h⟩
  · exact quotedBytes_isValue h
  · cases h

lemma countSpaces_error (field : String) (h : onlySpaces cs = false) :
  ∃ err, Line.countSpaces field (ofList cs) = .error err := by
  rw [Line.countSpaces,if_neg (by simpa [onlySpaces] using h)]
  cases quotedBytes (ofList cs) with
  | error err => exact ⟨err,rfl⟩
  | ok q => exact ⟨_,rfl⟩

lemma readSpaces_ok {head : String} {set : Line → Option String → Except Fault Line} {l : Line}
  {p : Option Int → Line} {xs : Option (List Char)} (hx : (g.first head).map Prod.snd = xs.map ofList)
  (hs : ∀ i ∈ xs, onlySpaces i) (hn : p none = l)
  (hst : ∀ i, onlySpaces i → set l (some (ofList i)) = .ok (p (some i.length))) :
  Line.readSpaces g head set l = .ok (p (xs.map fun i => (i.length : Int))) := by
  rw [Line.readSpaces]
  cases xs with
  | none =>
    rw [Option.map_eq_none_iff.mp hx,Option.map_none,hn]
  | some i =>
    obtain ⟨q,hq,ht⟩ := Option.map_eq_some_iff.mp hx
    simp only [hq,ht,hst i (hs i rfl),Option.map_some]

lemma ofGroups_ok {symbol : Option String} (number : Option Int) (indent margin : Option (List Char))
    (hs : (g.first "symbol").map Prod.snd = symbol) (hi : (g.first "indent").map Prod.snd = indent.map ofList)
    (hm : (g.first "margin").map Prod.snd = margin.map ofList)
    (hin : ∀ i ∈ indent, onlySpaces i) (hmr : ∀ i ∈ margin, onlySpaces i) : Line.ofGroups number g =
      .ok { number, symbol, indent := indent.map fun i => (i.length : Int),
            margin := margin.map fun i => (i.length : Int) } := by
  have h1 : Line.readSpaces g "indent" Line.setIndentText { number, symbol } =
      .ok { number, symbol, indent := indent.map fun i => (i.length : Int) } := by
    refine readSpaces_ok (p := fun indent => { number, symbol, indent }) hi hin rfl fun i hsp => ?_
    rw [Line.setIndentText,countSpaces_ok _ hsp]
    rfl
  have h2 : Line.readSpaces g "margin" Line.setMarginText
      { number, symbol, indent := indent.map fun i => (i.length : Int) } =
      .ok { number, symbol, indent := indent.map fun i => (i.length : Int),
            margin := margin.map fun i => (i.length : Int) } := by
    refine readSpaces_ok (p := fun margin => { number, symbol, indent := indent.map _, margin }) hm hmr rfl
      fun i hsp => ?_
    rw [Line.setMarginText,countSpaces_ok _ hsp]
    rfl
  subst hs
  simp only [Line.ofGroups,Line.readGroups]
  cases hg : g.first "symbol" with
  | none =>
    simp only [hg,Option.map_none] at h1 h2 ⊢
    simp only [h1,h2]
  | some p =>
    simp only [hg,Option.map_some] at h1 h2 ⊢
    simp only [h1,h2]

lemma ofGroups_error {indent : List Char} (number : Option Int)
  (hi : ((Groups.found rule f).first "indent").map Prod.snd = some (ofList indent))
  (h : onlySpaces indent = false) :
  ∃ err, Line.ofGroups number (.found rule f) = .error err ∧ err.category.isValue := by
  obtain ⟨cause,hc⟩ := countSpaces_error "indentStr" h
  obtain ⟨p,hp,ht⟩ := Option.map_eq_some_iff.mp hi
  have hr (l : Line) : ∃ err, Line.readSpaces (.found rule f) "indent" Line.setIndentText l =
      .error err ∧ err.category.isValue = true := by
    have hs : l.setIndentText (some p.2) = .error cause := by
      rw [ht,Line.setIndentText,hc]
      rfl
    simp only [Line.readSpaces,hp,hs]
    cases hd : (Groups.found rule f).dump with
    | ok dump => exact ⟨_,rfl,rfl⟩
    | error err => exact ⟨err,rfl,dump_isValue hd⟩
  simp only [Line.ofGroups,Line.readGroups]
  cases (Groups.found rule f).first "symbol" with
  | none =>
    obtain ⟨err,hf,hv⟩ := hr { number }
    simp only [hf]
    exact ⟨err,rfl,hv⟩
  | some q =>
    obtain ⟨err,hf,hv⟩ := hr { number, symbol := some q.2 }
    simp only [hf]
    exact ⟨err,rfl,hv⟩

lemma openLine_none (n : Int) (h : openMark? cs = none) : openLine n (ofList cs) = .ok none := by
  rw [openLine,Rule.search,toList_ofList,opening_search,h]
  rfl

def startLine (n : Nat) (m : OpenMark) : Line :=
  { number := some n, indent := some m.indent.length, symbol := some "/**",
    margin := some m.margin.length, part := some .start }

lemma onlySpaces_margin (m : OpenMark) : onlySpaces m.margin := by
  cases hm : m.spaced <;> simp [OpenMark.margin,onlySpaces]

lemma openLine_some (n : Nat) (h : openMark? cs = some m) (hs : onlySpaces m.indent) :
  openLine n (ofList cs) = .ok (some (startLine n m,m.found)) := by
  obtain ⟨hsy,hin,hm⟩ := first_opening m
  have hg : Line.ofGroups (some (n : Int)) (.found opening m.found) = .ok { startLine n m with part := none } :=
    ofGroups_ok (some (n : Int)) (some m.indent) (some m.margin) (congrArg _ hsy)
      (congrArg _ hin) (congrArg _ hm) (fun i hi => by cases hi; exact hs)
      (fun i hi => by cases hi; exact onlySpaces_margin m)
  rw [openLine,Rule.search,toList_ofList,opening_search,h]
  simp only [Option.map_some,Line.ofFound,hg]
  rfl

lemma openLine_error (n : Int) (h : openMark? cs = some m) (hs : onlySpaces m.indent = false) :
  ∃ err, openLine n (ofList cs) = .error err ∧ err.category.isValue := by
  obtain ⟨-,hi,-⟩ := first_opening m
  obtain ⟨err,hf,hv⟩ := ofGroups_error (some n) (congrArg (Option.map Prod.snd) hi) hs
  refine ⟨err,?_,hv⟩
  rw [openLine,Rule.search,toList_ofList,opening_search,h]
  simp only [Option.map_some,Line.ofFound,hf]
  rfl

lemma closeLine_none (n : Int) (h : closeMark? cs = none) : closeLine n (ofList cs) = .ok none := by
  rw [closeLine,Rule.search,toList_ofList,closing_search,h]
  rfl

lemma closeMark?_onlySpaces (ht : '\t' ∉ cs) (h : closeMark? cs = some k) : ∀ i ∈ k.indent, onlySpaces i := by
  obtain ⟨⟨before,after⟩,hs,rfl⟩ := Option.map_eq_some_iff.mp h
  intro i hi
  by_cases hb : before.all isIndentChar = true
  · simp only [hb,if_true,Option.mem_some_iff] at hi
    subst hi
    rw [onlySpaces,all_eq_true]
    intro c hc
    have hm : c ∈ cs := by
      rw [← splitClose_split hs]
      exact mem_append_left _ hc
    have hin : isIndentChar c := all_eq_true.mp hb c hc
    have hne : c ≠ '\t' := fun h => ht (h ▸ hm)
    simpa [isIndentChar,oneOf,hne] using hin
  · simp [hb] at hi

lemma closeLine_some (n : Nat) (ht : '\t' ∉ cs) (h : closeMark? cs = some k) :
  closeLine n (ofList cs) = .ok (some (lineOf (.finish n k.indent),k.found)) := by
  obtain ⟨hs,hin,hm⟩ := first_closing k (closeMark?_indent h)
  have hg : Line.ofGroups (some (n : Int)) (.found closing k.found) =
      .ok { lineOf (.finish n k.indent) with part := none } :=
    ofGroups_ok (some (n : Int)) k.indent none (congrArg _ hs)
      (by rw [hin,Option.map_map]; rfl) (congrArg _ hm) (closeMark?_onlySpaces ht h)
      (fun i hi => by cases hi)
  rw [closeLine,Rule.search,toList_ofList,closing_search,h]
  simp only [Option.map_some,Line.ofFound,hg]
  rfl

lemma cutEnding_ofList (cs : List Char) :
  Line.cutEnding (ofList cs) = (ofList (bodyText cs),ofList (lineEnd cs)) := by
  rw [Line.cutEnding,Rule.search,lineEnding_search]
  simp [Found.beforeText]

lemma continueLine_some (n : Nat) (hne : cs ≠ []) (hs : splitClose cs = none) : continueLine n (ofList cs) =
    .ok (some (lineOf (.middle n (continueMark cs)),(continueMark cs).found)) := by
  obtain ⟨hsy,hin,hm⟩ := first_continuation (continueMark cs)
  have hsr := continuation_search cs (not_prefix_of_splitClose hs)
  have hsp : onlySpaces (replicate (continueMark cs).indent ' ') := by
    simp [onlySpaces]
  have hg : Line.ofGroups (some (n : Int)) (.found continuation (continueMark cs).found) =
      .ok { lineOf (.middle n (continueMark cs)) with part := none, text := none, ending := none } := by
    refine (ofGroups_ok (some (n : Int)) (some (replicate (continueMark cs).indent ' '))
      (if (continueMark cs).leader = .starSpace then some [' '] else none) hsy hin ?_ ?_ ?_).trans ?_
    · rw [hm]
      split <;> rfl
    · intro i hi
      cases hi
      exact hsp
    · intro i hi
      split at hi
      · cases hi
        rfl
      · cases hi
    · simp only [lineOf]
      split <;> simp
  have he : ofList cs ≠ "" := by simpa using hne
  rw [continueLine,if_neg he,Rule.search,toList_ofList,hsr]
  simp only [Line.ofFound,hg]
  simp only [Except.map,Line.setTextEnd,Found.afterText,cutEnding_ofList,lineOf,ContinueMark.found]

def Strip.spaced : Strip → Bool
  | start _ m => onlySpaces m.indent
  | _ => true

def itemsOf (notes : List Note) : List Scanned :=
  notes.filterMap fun
    | .read item => some item
    | .printed _ => none

@[simp] lemma itemsOf_append (notes notes' : List Note) :
  itemsOf (notes ++ notes') = itemsOf notes ++ itemsOf notes' :=
  filterMap_append

@[simp] lemma itemsOf_read (item : Scanned) : itemsOf [.read item] = [item] := rfl

@[simp] lemma itemsOf_tell (e : Explain) (text : String) : itemsOf (e.tell text) = [] := by
  rw [Explain.tell]
  split <;> rfl

lemma items_before (notes : List Note) (s : Scan) : (s.before notes).items = itemsOf notes ++ s.items :=
  filterMap_append

lemma found_cases (e : Explain) (title : String) (rule : Rule) (f : Found) (l : Line) :
  (∃ notes, e.found title rule f l = .ok notes ∧ itemsOf notes = []) ∨
    ∃ err, e.found title rule f l = .error err ∧ err.category.isValue ∧ e.verbose := by
  rw [Explain.found]
  cases hv : e.verbose with
  | false => exact Or.inl ⟨[],rfl,rfl⟩
  | true =>
    cases hd : rule.dump f with
    | ok dump => exact Or.inl ⟨_,rfl,rfl⟩
    | error err => exact Or.inr ⟨err,rfl,dump_isValue hd,rfl⟩

def Head.body (n : Nat) : Head → Body
  | .opened m => .opened (startLine n m)
  | .inside => .inside

lemma bodyLine_cases (e : Explain) (n : Nat) (head : Head) (hs : splitClose cs = none) :
  (∃ l notes, bodyLine e n (ofList cs) (head.body n) = .ok (l,notes) ∧ itemsOf notes = [] ∧
      itemsOf (optionNotes l) = (head.strips n cs).map scannedOf) ∨
    ∃ err, bodyLine e n (ofList cs) (head.body n) = .error err ∧ err.category.isValue ∧ e.verbose := by
  cases head with
  | opened m =>
    refine Or.inl ⟨_,_,rfl,itemsOf_tell _ _,?_⟩
    simp [optionNotes,Head.strips,scannedOf,lineOf,startLine,Line.setTextEnd,cutEnding_ofList,OpenMark.margin]
  | inside =>
    by_cases hcs : cs = []
    · subst hcs
      exact Or.inl ⟨none,[],rfl,rfl,rfl⟩
    rw [Head.strips_inside n hcs]
    simp only [Head.body,bodyLine,continueLine_some n hcs hs,bind,Except.bind]
    rcases found_cases e "commentContinue" continuation (continueMark cs).found
      (lineOf (.middle n (continueMark cs))) with ⟨notes,hn,hi⟩ | ⟨err,hf,hv,he⟩
    · refine Or.inl ⟨some (lineOf (.middle n (continueMark cs))),notes,?_,hi,rfl⟩
      rw [hn]
      rfl
    · refine Or.inr ⟨err,?_,hv,he⟩
      rw [hf]

structure Reads (verbose : Bool) (c : Cut) (s : Scan) : Prop where
  items : s.fault = none → s.items = c.strips.map scannedOf
  inComment : s.fault = none → s.inComment = c.inComment
  isValue : ∀ fault, s.fault = some fault → fault.category.isValue = true
  allSpaced : s.fault = none → ∀ x ∈ c.strips, x.spaced = true
  faultless : verbose = false → (∀ x ∈ c.strips, x.spaced = true) → s.fault = none

-- Said of the strips by name: the cut's projection would be unfolded into the whole reading of a text.
lemma Reads.spaced {s : Scan} {strips : List Strip} {last : Bool} (h : Reads verbose ⟨strips,last⟩ s)
    (hf : s.fault = none) : ∀ x ∈ strips, x.spaced = true := h.allSpaced hf

lemma Reads.failed (hv : err.category.isValue) (h : verbose ∨ ∃ x ∈ c.strips, x.spaced = false) :
    Reads verbose c (.failed notes err) where
  items hf := nomatch hf
  inComment hf := nomatch hf
  isValue err' hf := by
    cases hf
    exact hv
  allSpaced hf := nomatch hf
  faultless hq ha := by
    rcases h with h | ⟨x,hx,hs⟩
    · rw [hq] at h
      cases h
    · rw [ha x hx] at hs
      cases hs

lemma Reads.before {s : Scan} (h : Reads verbose c s) (strips : List Strip)
    (hi : itemsOf notes = strips.map scannedOf) (hs : ∀ x ∈ strips, x.spaced) :
    Reads verbose (c.precede strips) (s.before notes) where
  items hf := by
    rw [items_before,hi,h.items hf,Cut.precede,map_append]
  inComment hf := h.inComment hf
  isValue err hf := h.isValue err hf
  allSpaced hf x hx := by
    rcases mem_append.mp hx with hx | hx
    · exact hs x hx
    · exact h.allSpaced hf x hx
  faultless hv ha := h.faultless hv fun x hx => ha x (mem_append_right _ hx)

lemma Reads.done {inComment : Bool} {strips : List Strip} (hi : itemsOf notes = strips.map scannedOf)
    (hs : ∀ x ∈ strips, x.spaced) : Reads verbose ⟨strips,inComment⟩ ⟨notes,inComment,none⟩ where
  items _ := hi
  inComment _ := rfl
  isValue _ hf := nomatch hf
  allSpaced _ := hs
  faultless _ _ := rfl

lemma Head.spaced_strips (h : ∀ m, head = .opened m → onlySpaces m.indent) (cs : List Char) :
  ∀ x ∈ head.strips n cs, x.spaced := by
  cases head with
  | opened m => simpa [Head.strips,Strip.spaced] using h m rfl
  | inside => cases cs <;> simp [Head.strips,Strip.spaced]

lemma start_mem_cutInside (n : Nat) (m : OpenMark) (cs : List Char) :
    ∃ text, Strip.start n { m with after := text } ∈ (cutInside n (.opened m) cs).strips := by
  cases hk : closeMark? cs with
  | none =>
    rw [cutInside_body n _ hk]
    exact ⟨cs,mem_singleton_self _⟩
  | some k =>
    rw [cutInside_close n _ hk]
    exact ⟨k.before,mem_cons_self⟩

lemma scan_reads (e : Explain) (n fuel : Nat) : (∀ cs : List Char, cs.length < fuel → '\t' ∉ cs →
      Reads e.verbose (cutOutside n cs) (scanOutside e n fuel (ofList cs))) ∧
    ∀ (head : Head) (cs : List Char), cs.length < fuel → '\t' ∉ cs →
      (∀ m, head = .opened m → onlySpaces m.indent) → (head = .inside → cs ≠ []) →
        Reads e.verbose (cutInside n head cs) (scanInside e n fuel (ofList cs) (head.body n)) := by
  induction fuel with
  | zero => exact ⟨fun _ h => absurd h (Nat.not_lt_zero _),fun _ _ h => absurd h (Nat.not_lt_zero _)⟩
  | succ fuel ih =>
    constructor
    · intro cs hln ht
      rw [scanOutside]
      cases hm : openMark? cs with
      | none =>
        simp only [openLine_none n hm,cutOutside_code n hm]
        by_cases hcs : cs = []
        · subst hcs
          exact .done rfl (by simp)
        · have he : ofList cs ≠ "" := by simpa using hcs
          rw [if_neg hcs,if_neg he]
          exact .done rfl (by simp [Strip.spaced])
      | some m =>
        have hsh := length_after_openMark? hm
        have ha : '\t' ∉ m.after := fun h => ht (by
          rw [← openMark?_split hm]
          exact mem_append_right _ h)
        rw [cutOutside_open n hm]
        cases hs : onlySpaces m.indent with
        | false =>
          obtain ⟨err,hfl,hvl⟩ := openLine_error n hm hs
          obtain ⟨text,htx⟩ := start_mem_cutInside n m m.after
          simp only [hfl]
          exact .failed hvl (Or.inr ⟨_,htx,hs⟩)
        | true =>
          have hr := ih.2 (.opened m) m.after (by omega) ha
            (fun m' h => by cases h; exact hs) (fun h => nomatch h)
          simp only [openLine_some n hm hs]
          rcases found_cases e "commentStart" opening m.found (startLine n m) with
            ⟨notes,hn,hi⟩ | ⟨err,hf,hv,hvr⟩
          · simp only [hn]
            exact hr.before [] hi (by simp)
          · simp only [hf]
            exact .failed hv (Or.inl hvr)
    · intro head cs hln ht hsp hcs
      rw [scanInside]
      cases hk : closeMark? cs with
      | none =>
        have hbd := head.spaced_strips (n := n) hsp cs
        rw [cutInside_body n head hk]
        simp only [closeLine_none n hk]
        rcases bodyLine_cases e n head (closeMark?_eq_none hk) with
          ⟨l,notes,hl,hnt,hit⟩ | ⟨err,hf,hv,hvr⟩
        · cases l with
          | none =>
            have hnl : head.strips n cs = [] := map_eq_nil_iff.mp hit.symm
            exact absurd hnl (head.strips_ne_nil n hcs)
          | some l =>
            simp only [hl]
            refine .done ?_ hbd
            rw [itemsOf_append,hnt,← hit]
            rfl
        · simp only [hf]
          exact .failed hv (Or.inl hvr)
      | some k =>
        have hsh := length_after_closeMark? hk
        have ha : '\t' ∉ k.after := fun h => ht (by
          rw [← closeMark?_split hk]
          simp [CloseMark.whole,h])
        have hr := ih.1 k.after (by omega) ha
        have ht' : k.found.beforeText = ofList k.before := rfl
        have hbd := head.spaced_strips (n := n) hsp k.before
        rw [cutInside_close n head hk]
        simp only [closeLine_some n ht hk]
        rcases found_cases e "commentFinish" closing k.found (lineOf (.finish n k.indent)) with
          ⟨closeNotes,hc,hnn⟩ | ⟨err,hf,hv,hvr⟩
        · simp only [hc]
          rcases bodyLine_cases e n head (closeMark?_before hk) with
            ⟨l,notes,hl,hnt,hit⟩ | ⟨err,hf,hv,hvr⟩
          · simp only [ht',hl]
            refine hr.before _ ?_ ?_
            · simp only [itemsOf_append,hnn,hnt,hit,itemsOf_read,itemsOf_tell,nil_append,append_nil,map_append]
              rfl
            intro x hx
            rcases mem_append.mp hx with hx | hx
            · exact hbd x hx
            · rw [mem_singleton.mp hx]
              rfl
          · simp only [ht',hf]
            exact .failed hv (Or.inl hvr)
        · simp only [hf]
          exact .failed hv (Or.inl hvr)

lemma scanLine_reads (e : Explain) (n : Nat) (inComment : Bool) (hne : cs ≠ []) (ht : '\t' ∉ cs) :
  Reads e.verbose (cutLine n inComment cs) (scanLine e n inComment (ofList cs)) := by
  have hf : cs.length < (ofList cs).length + 2 := by simp
  rw [scanLine]
  cases inComment with
  | true =>
    exact ((scan_reads e n _).2 .inside cs hf ht (fun _ h => nomatch h)
      fun _ => hne).before [] (itemsOf_tell _ _) (by simp)
  | false => exact ((scan_reads e n _).1 cs hf ht).before [] (itemsOf_tell _ _) (by simp)

def numberedFrom (n : Nat) : List (List Char) → List (Int × String)
  | [] => []
  | cs :: lines => (n,ofList cs) :: numberedFrom (n + 1) lines

lemma numbered_eq (ls : List String) : numbered ls = numberedFrom 1 (ls.map String.toList) := by
  have ha (ls : List String) : ∀ k : Nat, ((List.range' k ls.length).map fun (n : Nat) => (n : Int) + 1).zip ls =
        numberedFrom (k + 1) (ls.map String.toList) := by
    induction ls with
    | nil => intro k; rfl
    | cons line ls ih =>
      intro k
      rw [length_cons,range'_succ,map_cons,zip_cons_cons,ih (k + 1),map_cons,numberedFrom,String.ofList_toList]
      rfl
  rw [numbered,range_eq_range']
  exact ha ls 0

lemma scanLines_reads (e : Explain) {ls : List (List Char)} (hne : ∀ cs ∈ ls, cs ≠ [])
  (ht : ∀ cs ∈ ls, '\t' ∉ cs) (n : Nat) (inComment : Bool) :
  ∃ last, Reads e.verbose ⟨cutFrom n inComment ls,last⟩ (scanLines e inComment (numberedFrom n ls)) := by
  induction ls generalizing n inComment with
  | nil => exact ⟨inComment,.done rfl (by simp [cutFrom])⟩
  | cons cs ls ih =>
    have hl := scanLine_reads e n inComment (hne cs mem_cons_self) (ht cs mem_cons_self)
    obtain ⟨last,hln⟩ := ih (fun cs' h => hne cs' (mem_cons_of_mem _ h))
      (fun cs' h => ht cs' (mem_cons_of_mem _ h)) (n + 1) (cutLine n inComment cs).inComment
    refine ⟨last,?_⟩
    rw [numberedFrom,scanLines]
    cases hf : (scanLine e n inComment (ofList cs)).fault with
    | some err =>
      exact
        { items := fun h => by rw [hf] at h; cases h
          inComment := fun h => by rw [hf] at h; cases h
          isValue := hl.isValue
          allSpaced := fun h => by rw [hf] at h; cases h
          faultless := fun hv ha =>
            hl.faultless hv fun x hx => ha x (mem_append_left _ hx) }
    | none =>
      rw [hl.inComment hf]
      exact hln.before _ (hl.items hf) (hl.allSpaced hf)

lemma reads_scan (verbose : Bool) {ls : List String} (hne : ∀ line ∈ ls, line ≠ "")
  (ht : ∀ line ∈ ls, '\t' ∉ line.toList) :
  ∃ last, Reads verbose ⟨cutLines (ls.map String.toList),last⟩ (scan verbose ls) := by
  rw [scan,numbered_eq]
  refine scanLines_reads ⟨verbose⟩ ?_ ?_ 1 false
  · intro cs hcs
    obtain ⟨line,hl,rfl⟩ := mem_map.mp hcs
    simpa using hne line hl
  · intro cs hcs
    obtain ⟨line,hl,rfl⟩ := mem_map.mp hcs
    exact ht line hl

end Docweave.Comment
