import Docweave.Proofs.Base.Elements
import Docweave.Proofs.Comments.Strips
import Docweave.Tree.Comments

namespace Docweave.Tree

open Comment Element List
open String (ofList toList_ofList)

variable {n : Nat} {cs : List Char} {e : Element}

def leaf (tag : String) (cs : List Char) (tail : Option String) : Element :=
  { tag, text := if cs.isEmpty then none else some (ofList cs), tail }

def marginLeaf (cs : List Char) (tail : Option String) : Element :=
  { leaf "margin" cs tail with attributes := [("extract",.text "tail")] }

def openLeaves (m : OpenMark) (tail : Option String) : List Element :=
  [leaf "indent" m.indent (some ""),leaf "symbol" ['/','*','*'] (some ""),
    marginLeaf m.margin tail]

def indentTail : Leader → Option String
  | .bare => none
  | .star | .starSpace => some ""

def symbolTail : Leader → Option String
  | .bare | .star => none
  | .starSpace => some ""

def continueLeaves (m : ContinueMark) (tail : Option String) : List Element :=
  [leaf "indent" (replicate m.indent ' ') (indentTail m.leader),
    leaf "symbol" m.leader.symbol (symbolTail m.leader),marginLeaf m.leader.margin tail]

def closeLeaves (indent : Option (List Char)) (tail : Option String) : List Element :=
  [leaf "indent" (indent.getD []) (indent.map fun _ => ""),leaf "symbol" ['*','/'] none,
    marginLeaf [] tail]

structure IsPart (n : Nat) (role : String) (children : List Element) (e : Element) : Prop where
  tag : e.tag = "line"
  number : e.value? "number" = some (.text (toString n))
  part : e.value? "part" = some (.text role)
  extract : e.value? "extract" = none
  text : e.text = none
  tail : e.tail = none
  children : e.children = children

structure IsLine (n : Nat) (cs : List Char) (e : Element) : Prop where
  tag : e.tag = "line"
  number : e.value? "number" = some (.text (toString n))
  part : e.value? "part" = none
  text : e.text = some (ofList cs)
  tail : e.tail = none
  children : e.children = []

lemma IsLine.tag_ne (h : IsLine n cs e) : e.tag ≠ "comment" := by
  rw [h.tag]
  decide

lemma isPart_copied (h : IsLine n cs e) (role transcript : String) (children : List Element) :
    IsPart n role children ((copyAttributes ["number","source"] e
      (({ tag := e.tag, children } : Element).set "transcript" transcript)).set "part" role) := by
  obtain ⟨htg,htx,ht,hk⟩ := copyAttributes_fields ["number","source"] e
    (({ tag := e.tag, children } : Element).set "transcript" transcript)
  refine ⟨htg.trans h.tag,?_,value?_set _ _ _,?_,htx,ht,hk⟩
  · rw [value?_set_ne _ (by decide),copyAttributes]
    simp only [foldl_cons,foldl_nil,h.number]
    cases e.value? "source" with
    | none => exact value?_setValue _ _ (by simp)
    | some v =>
      rw [value?_setValue_ne _ (by decide)]
      exact value?_setValue _ _ (by simp)
  · rw [value?_set_ne _ (by decide),value?_copyAttributes_ne _ _ _ (by decide),value?_set_ne _ (by decide)]
    rfl

lemma inOrder_opening (m : OpenMark) : opening.inOrder m.found =
  [("indent",⟨0,m.indent.length⟩),("symbol",⟨m.indent.length,m.indent.length + 3⟩),
    ("margin",⟨m.indent.length + 3,m.indent.length + 3 + m.margin.length⟩)] := by
  simp [Rule.inOrder,opening,OpenMark.found,Found.span?,lookup_cons,Rule.place]

lemma inOrder_closing (k : CloseMark) : closing.inOrder k.found =
  (k.indent.map fun i => ("indent",(⟨0,i.length⟩ : Span))).toList ++
    [("symbol",⟨k.before.length + k.indentChars.length,k.before.length + k.indentChars.length + 2⟩)] := by
  cases h : k.indent <;> simp [Rule.inOrder,closing,CloseMark.found,Found.span?,lookup_cons,Rule.place,h]

lemma spans_continuation (m : ContinueMark) : (continuation.labels.filterMap fun lbl =>
  (m.found.span? lbl).map (lbl,·)) = ("indent",⟨0,m.indent⟩) :: m.captures.reverse := by
  obtain ⟨k,leader,after⟩ := m
  simp only [ContinueMark.found,ContinueMark.captures]
  generalize ContinueMark.atEnd ⟨k,leader,after⟩ = b
  cases leader with
  | bare => cases b <;> rfl
  | star => cases b <;> rfl
  | starSpace => rfl

lemma inOrder_continuation (m : ContinueMark) : continuation.inOrder m.found =
  ("indent",⟨0,m.indent⟩) :: m.captures.reverse := by
  rw [Rule.inOrder,spans_continuation]
  cases h : m.leader <;> simp [ContinueMark.captures,h,Rule.place]

def filled (cs : List Char) (e : Element) : Element :=
  if cs.isEmpty then e else { e with text := some (ofList cs) }

lemma filled_leaf (tag : String) (cs : List Char) (tail : Option String) :
  filled cs (leaf tag [] tail) = leaf tag cs tail := by
  cases cs <;> rfl

def blank : Parting := { children := [leaf "indent" [] none,leaf "symbol" [] none,leaf "margin" [] none] }

lemma capture_ok {p p' : Parting} {lbl : String} {span : Span} {i : Nat} (hm : markOf lbl = some i)
  (hs : p.cursor ≤ span.start)
  (hg : p.gap (ofList (Found.slice cs ⟨p.cursor,span.start⟩)) = .ok p') :
  p.capture cs lbl span = .ok ⟨p'.children.modify i (filled (Found.slice cs span)),some i,
    p'.head,span.stop⟩ := by
  simp only [Parting.capture,hm,Nat.not_lt.mpr hs,hg]
  rfl

section

variable (a b c : Element) (head text : String) (k : Nat)

lemma gap_indent (h : a.tail = none) : Parting.gap ⟨[a,b,c],some 0,head,k⟩ text =
    .ok ⟨[{ a with tail := some text },b,c],some 0,head,k⟩ := by
  simp [Parting.gap,setTail,h,bind,Except.bind,pure,Except.pure]

lemma gap_symbol (h : b.tail = none) : Parting.gap ⟨[a,b,c],some 1,head,k⟩ text =
    .ok ⟨[a,{ b with tail := some text },c],some 1,head,k⟩ := by
  simp [Parting.gap,setTail,h,bind,Except.bind,pure,Except.pure]

end

lemma part_ok {rule : Rule} {f : Found} {p : Parting} {a b : Element} {margin : List Char} (role : String)
    (he : IsLine n cs e) (hf : rule.pattern.search cs = some f)
    (hp : (rule.inOrder f).foldlM (fun (p : Parting) s => p.capture cs s.1 s.2) blank = .ok p)
    (hc : p.children = [a,b,leaf "margin" margin none]) :
    ∃ parted, part rule role e = .ok (some parted) ∧ parted.rest = { e with text := some p.head } ∧
      IsPart n role [a,b,marginLeaf margin (some (ofList (cs.drop p.cursor)))] parted.parts := by
  obtain ⟨children,last,head,k⟩ := p
  obtain rfl := hc
  simp only [part,he.text]
  rw [toList_ofList,hf]
  simp only [blank,leaf] at hp
  simp only [isEmpty_nil,if_true] at hp
  simp only [hp]
  exact ⟨_,rfl,rfl,isPart_copied he role _ _⟩

lemma part_none (rule : Rule) (role : String) (ht : e.text = some (ofList cs))
  (hf : rule.pattern.search cs = none) : part rule role e = .ok none := by
  simp only [part,ht]
  rw [toList_ofList,hf]
  rfl

lemma markOf_indent : markOf "indent" = some 0 := rfl

lemma markOf_symbol : markOf "symbol" = some 1 := by with_unfolding_all rfl

lemma markOf_margin : markOf "margin" = some 2 := by with_unfolding_all rfl

lemma markOf_bare (b : Bool) : markOf (if b then "EOL" else "nonSymbol") = none := by
  cases b <;> with_unfolding_all rfl

lemma markOf_star (b : Bool) : markOf (if b then "symbolEOL" else "symbolNonSlash") = some 1 := by
  cases b <;> with_unfolding_all rfl

lemma markOf_starSpace : markOf "symbolMargin" = some 1 := by with_unfolding_all rfl

section

variable {cs xs : List Char} {k k' : Nat} {lbl head : String} (h : Found.slice cs ⟨k,k'⟩ = xs)

include h

lemma capture_indent_first (hk : k = 0) : blank.capture cs "indent" ⟨k,k'⟩ =
  .ok ⟨[leaf "indent" xs none,leaf "symbol" [] none,leaf "margin" [] none],some 0,"",k'⟩ := by
  subst hk
  have hg : blank.gap (ofList (Found.slice cs ⟨0,0⟩)) = .ok blank := by
    rfl
  refine (capture_ok markOf_indent (Nat.le_refl _) hg).trans ?_
  rw [h,← filled_leaf "indent" xs none]
  rfl

lemma capture_symbol_first : blank.capture cs "symbol" ⟨k,k'⟩ =
  .ok ⟨[leaf "indent" [] none,leaf "symbol" xs none,leaf "margin" [] none],some 1,
    ofList (Found.slice cs ⟨0,k⟩),k'⟩ := by
  refine (capture_ok markOf_symbol (Nat.zero_le _) rfl).trans ?_
  rw [h,← filled_leaf "symbol" xs none]
  simp [blank]

lemma capture_symbol {ind : List Char} {c : Element} (hm : markOf lbl = some 1) :
  Parting.capture cs ⟨[leaf "indent" ind none,leaf "symbol" [] none,c],some 0,head,k⟩ lbl ⟨k,k'⟩ =
    .ok ⟨[leaf "indent" ind (some ""),leaf "symbol" xs none,c],some 1,head,k'⟩ := by
  refine (capture_ok hm (Nat.le_refl _) (gap_indent _ _ _ _ _ _ rfl)).trans ?_
  rw [h,← filled_leaf "symbol" xs none,Found.slice_nothing]
  rfl

lemma capture_margin {a : Element} {symbol : List Char} :
  Parting.capture cs ⟨[a,leaf "symbol" symbol none,leaf "margin" [] none],some 1,head,k⟩ "margin" ⟨k,k'⟩ =
    .ok ⟨[a,leaf "symbol" symbol (some ""),leaf "margin" xs none],some 2,head,k'⟩ := by
  refine (capture_ok markOf_margin (Nat.le_refl _) (gap_symbol _ _ _ _ _ _ rfl)).trans ?_
  rw [h,← filled_leaf "margin" xs none,Found.slice_nothing]
  rfl

end

lemma parting_opening (m : OpenMark) : (opening.inOrder m.found).foldlM
      (fun (p : Parting) s => p.capture (m.head ++ m.after) s.1 s.2) blank =
    .ok ⟨[leaf "indent" m.indent (some ""),leaf "symbol" ['/','*','*'] (some ""),
      leaf "margin" m.margin none],some 2,"",m.indent.length + 3 + m.margin.length⟩ := by
  rw [inOrder_opening,foldlM_cons,capture_indent_first m.slice_indent rfl]
  simp only [bind,Except.bind,foldlM_cons]
  rw [capture_symbol m.slice_symbol markOf_symbol]
  simp only
  rw [capture_margin m.slice_margin]
  rfl

lemma part_opening {m : OpenMark} (he : IsLine n cs e) (h : openMark? cs = some m) :
  ∃ p, part opening "start" e = .ok (some p) ∧
  IsPart n "start" (openLeaves m (some (ofList m.after))) p.parts := by
  have hcs := openMark?_split h
  have hf : opening.pattern.search cs = some m.found := by rw [opening_search,h]; rfl
  have hp := parting_opening m
  rw [hcs] at hp
  obtain ⟨p,hpt,-,hpr⟩ := part_ok "start" he hf hp rfl
  refine ⟨p,hpt,?_⟩
  have hl : m.head.length = m.indent.length + 3 + m.margin.length := by
    simp [OpenMark.head]
    omega
  rwa [← hl,drop_of_append hcs] at hpr

lemma parting_closing (k : CloseMark) (hb : k.indent = none ∨ k.before = []) :
  (closing.inOrder k.found).foldlM (fun (p : Parting) s => p.capture k.whole s.1 s.2) blank =
    .ok ⟨[leaf "indent" k.indentChars (k.indent.map fun _ => ""),leaf "symbol" ['*','/'] none,
      leaf "margin" [] none],some 1,ofList k.before,k.before.length + k.indentChars.length + 2⟩ := by
  have hs := k.slice_symbol
  rw [inOrder_closing]
  cases hi : k.indent with
  | none =>
    have hc : k.indentChars = [] := by simp [CloseMark.indentChars,hi]
    simp only [hc,length_nil,Nat.add_zero] at hs ⊢
    simp only [Option.map_none,Option.toList_none,nil_append,foldlM_cons]
    rw [capture_symbol_first hs,k.slice_before]
    rfl
  | some i =>
    have hp : k.before = [] := by simpa [hi] using hb
    have hc : k.indentChars = i := by simp [CloseMark.indentChars,hi]
    have hin := CloseMark.slice_indent hp
    simp only [hp,hc,length_nil,Nat.zero_add] at hs hin ⊢
    simp only [Option.map_some,Option.toList_some,cons_append,nil_append,foldlM_cons,bind,Except.bind]
    rw [capture_indent_first hin rfl]
    simp only
    rw [capture_symbol hs markOf_symbol]
    rfl

lemma part_closing {k : CloseMark} (he : IsLine n cs e) (h : closeMark? cs = some k) :
    ∃ p, part closing "finish" e = .ok (some p) ∧ p.rest = { e with text := some (ofList k.before) } ∧
      IsPart n "finish" (closeLeaves k.indent (some (ofList k.after))) p.parts := by
  have hcs := closeMark?_split h
  have hf : closing.pattern.search cs = some k.found := by rw [closing_search,h]; rfl
  have hp := parting_closing k (closeMark?_indent h)
  rw [hcs] at hp
  obtain ⟨p,hpt,hr,hpr⟩ := part_ok "finish" he hf hp rfl
  refine ⟨p,hpt,hr,?_⟩
  have hl : (k.before ++ k.indentChars ++ ['*','/']).length = k.before.length + k.indentChars.length + 2 := by
    simp
    omega
  have hd : cs.drop (k.before ++ k.indentChars ++ ['*','/']).length = k.after :=
    drop_of_append (by simpa [CloseMark.whole] using hcs)
  rwa [← hl,hd] at hpr

lemma parting_continuation (m : ContinueMark) : ∃ last, (continuation.inOrder m.found).foldlM
      (fun (p : Parting) s => p.capture (m.head ++ m.after) s.1 s.2) blank =
    .ok ⟨[leaf "indent" (replicate m.indent ' ') (indentTail m.leader),
      leaf "symbol" m.leader.symbol (symbolTail m.leader),leaf "margin" m.leader.margin none],
      last,"",m.head.length⟩ := by
  have hsy := m.slice_symbol
  have hm := m.slice_margin
  have hln : m.head.length = m.indent + m.leader.symbol.length + m.leader.margin.length := by
    simp [ContinueMark.head]
    omega
  rw [inOrder_continuation,foldlM_cons,capture_indent_first m.slice_indent rfl,hln]
  simp only [bind,Except.bind,ContinueMark.captures]
  cases hl : m.leader with
  | bare =>
    refine ⟨some 0,?_⟩
    simp only [reverse_cons,reverse_nil,nil_append,foldlM_cons,Parting.capture,markOf_bare]
    rfl
  | star =>
    have hs : Found.slice (m.head ++ m.after) ⟨m.indent,m.indent + 1⟩ = ['*'] := by
      rw [hl] at hsy
      exact hsy
    refine ⟨some 1,?_⟩
    simp only [reverse_cons,reverse_nil,nil_append,foldlM_cons]
    rw [capture_symbol hs (markOf_star _)]
    rfl
  | starSpace =>
    have hs : Found.slice (m.head ++ m.after) ⟨m.indent,m.indent + 1⟩ = ['*'] := by
      rw [hl] at hsy
      exact hsy
    have hsp : Found.slice (m.head ++ m.after) ⟨m.indent + 1,m.indent + 2⟩ = [' '] := by
      rw [hl] at hm
      exact hm
    refine ⟨some 2,?_⟩
    simp only [reverse_cons,reverse_nil,nil_append,cons_append,foldlM_cons,bind,Except.bind]
    rw [capture_symbol hs markOf_starSpace]
    simp only
    rw [capture_margin hsp]
    rfl

lemma part_continuation (he : IsLine n cs e) (h : ¬ ['*','/'] <+: cs.dropWhile Pattern.isSpace) :
  ∃ p, part continuation "continue" e = .ok (some p) ∧ p.rest.text = some "" ∧ IsPart n "continue"
      (continueLeaves (continueMark cs) (some (ofList (continueMark cs).after))) p.parts := by
  have hcs := continueMark_split cs
  obtain ⟨last,hp⟩ := parting_continuation (continueMark cs)
  rw [hcs] at hp
  obtain ⟨p,hpt,hr,hpr⟩ := part_ok "continue" he (continuation_search cs h) hp rfl
  refine ⟨p,hpt,by rw [hr],?_⟩
  rwa [drop_of_append hcs] at hpr

def endLeaf (cs : List Char) : Element :=
  { tag := "eol", text := some (ofList cs), attributes := [("extract",.text "text")] }

section

variable {n : Nat} {role : String} {a b e : Element} {margin cs : List Char} {tail : Option String}

lemma IsPart.lastTail (h : IsPart n role [a,b,marginLeaf margin tail] e) : lastTail e = tail.getD "" := by
  rw [Tree.lastTail,h.children]
  rfl

lemma IsPart.setLastTail (h : IsPart n role [a,b,marginLeaf margin tail] e)
    (tail' : Option String) : IsPart n role [a,b,marginLeaf margin tail'] (setLastTail e tail') where
  tag := h.tag
  number := h.number
  part := h.part
  extract := h.extract
  text := h.text
  tail := h.tail
  children := by
    rw [Tree.setLastTail,h.children]
    rfl

lemma IsPart.restoreTail (h : IsPart n role [a,b,marginLeaf margin none] e)
  (tail' : Option String) : restoreTail e tail' = .ok (Tree.setLastTail e tail') := by
  simp [Tree.restoreTail,h.children,marginLeaf,leaf,pure,Except.pure]

lemma IsPart.cutLineEnd (h : IsPart n role [a,b,marginLeaf margin (some (ofList cs))] e) :
  ∃ e', cutLineEnd e = .ok e' ∧ IsPart n role
    [a,b,marginLeaf margin (some (ofList (bodyText cs))),endLeaf (lineEnd cs)] e' := by
  simp only [Tree.cutLineEnd,h.lastTail,Option.getD_some,toList_ofList]
  rw [lineEnding_search]
  have hs := h.setLastTail (some (ofList (bodyText cs)))
  refine ⟨_,rfl,hs.tag,hs.number,hs.part,hs.extract,hs.text,hs.tail,?_⟩
  simp only [Element.append,hs.children]
  rfl

end

def stripChildren : Strip → List Element
  | .code _ _ => []
  | .start _ m => openLeaves m (some (ofList (bodyText m.after))) ++ [endLeaf (lineEnd m.after)]
  | .middle _ m =>
    continueLeaves m (some (ofList (bodyText m.after))) ++ [endLeaf (lineEnd m.after)]
  | .finish _ indent => closeLeaves indent none

def stripRole : Strip → String
  | .code _ _ => ""
  | .start _ _ => "start"
  | .middle _ _ => "continue"
  | .finish _ _ => "finish"

def IsStrip (s : Strip) (e : Element) : Prop :=
  match s with
  | .code n cs => IsLine n cs e
  | s => IsPart s.number (stripRole s) (stripChildren s) e

def IsOpened (n : Nat) : Head → Option Element → Prop
  | .opened m, some e => IsPart n "start" (openLeaves m none) e
  | .inside, none => True
  | _, _ => False

lemma IsLine.withText (h : IsLine n cs e) (cs' : List Char) :
    IsLine n cs' { e with text := some (ofList cs') } :=
  ⟨h.tag,h.number,h.part,rfl,h.tail,h.children⟩

lemma readBody_ok {head : Head} {opened : Option Element} (ho : IsOpened n head opened) (he : IsLine n cs e)
  (hs : splitClose cs = none) : ∃ body, readBody opened e = .ok (body,some "") ∧
    Forall₂ IsStrip (head.strips n cs) body.toList := by
  cases head with
  | opened m =>
    cases opened with
    | none => exact absurd ho id
    | some parts =>
      have hp := (IsPart.setLastTail ho (some (ofList cs)))
      obtain ⟨e',hc,he'⟩ := hp.cutLineEnd
      refine ⟨some e',?_,.cons he' .nil⟩
      simp only [readBody,IsPart.restoreTail ho,he.text,bind,Except.bind,hc]
      rfl
  | inside =>
    cases opened with
    | some parts => exact absurd ho id
    | none =>
      by_cases hcs : cs = []
      · subst hcs
        refine ⟨none,?_,.nil⟩
        simp only [readBody,he.text]
        rfl
      have hst := not_prefix_of_splitClose hs
      obtain ⟨p,hpr,hr,hp⟩ := part_continuation he hst
      obtain ⟨e',hc,he'⟩ := IsPart.cutLineEnd hp
      refine ⟨some e',?_,?_⟩
      · simp [readBody,he.text,hcs,hpr,hr,hc,bind,Except.bind,pure,Except.pure]
      · rw [Head.strips_inside n hcs]
        exact .cons he' .nil

lemma read_ok (n fuel : Nat) : (∀ cs e, cs.length < fuel → cs ≠ [] → IsLine n cs e →
      ∃ es, readOutside fuel e = .ok ⟨es,(cutOutside n cs).inComment⟩ ∧
        Forall₂ IsStrip (cutOutside n cs).strips es) ∧
    ∀ head opened cs e, cs.length < fuel → IsOpened n head opened → (head = .inside → cs ≠ []) →
      IsLine n cs e → ∃ es, readInside fuel opened e = .ok ⟨es,(cutInside n head cs).inComment⟩ ∧
          Forall₂ IsStrip (cutInside n head cs).strips es := by
  induction fuel with
  | zero => exact ⟨fun _ _ h => absurd h (Nat.not_lt_zero _),fun _ _ _ _ h => absurd h (Nat.not_lt_zero _)⟩
  | succ fuel ih =>
    constructor
    · intro cs e hl hcs he
      cases hm : openMark? cs with
      | none =>
        have hp := part_none opening "start" he.text (by rw [opening_search,hm]; rfl)
        refine ⟨[e],?_,?_⟩
        · simp [readOutside,hp,he.text,hcs,cutOutside_code n hm,bind,Except.bind,pure,Except.pure]
        · rw [cutOutside_code n hm,if_neg hcs]
          exact .cons he .nil
      | some m =>
        obtain ⟨p,hp,hpr⟩ := part_opening he hm
        have hsh := length_after_openMark? hm
        have ht : lastTail p.parts = ofList m.after := IsPart.lastTail hpr
        obtain ⟨es,hr,hes⟩ := ih.2 (.opened m) (some (setLastTail p.parts none)) m.after
          { e with text := some (lastTail p.parts) } (by omega) (IsPart.setLastTail hpr none)
          (by simp) (by rw [ht]; exact he.withText m.after)
        refine ⟨es,?_,?_⟩
        · simp only [readOutside,hp,bind,Except.bind,hr,cutOutside_open n hm]
        · rw [cutOutside_open n hm]
          exact hes
    · intro head opened cs e hl ho hcs he
      cases hk : closeMark? cs with
      | none =>
        have hp := part_none closing "finish" he.text (by rw [closing_search,hk]; rfl)
        obtain ⟨body,hb,hs⟩ := readBody_ok ho he (closeMark?_eq_none hk)
        rw [cutInside_body n head hk]
        cases body with
        | none => exact absurd (forall₂_nil_right_iff.mp hs) (head.strips_ne_nil n hcs)
        | some e' =>
          refine ⟨[e'],?_,hs⟩
          simp only [readInside,hp,hb,bind,Except.bind,Option.map_none,Option.getD_none]
          rfl
      | some k =>
        obtain ⟨p,hp,hrs,hpr⟩ := part_closing he hk
        have hsh := length_after_closeMark? hk
        have ht : lastTail p.parts = ofList k.after := IsPart.lastTail hpr
        have hpe := he.withText k.before
        obtain ⟨body,hb,hs⟩ := readBody_ok ho hpe (closeMark?_before hk)
        have hd : Forall₂ IsStrip (head.strips n k.before ++ [.finish n k.indent])
            (body.toList ++ [setLastTail p.parts none]) :=
          rel_append hs (.cons (IsPart.setLastTail hpr none) .nil)
        rw [cutInside_close n head hk]
        by_cases ha : k.after = []
        · refine ⟨body.toList ++ [setLastTail p.parts none],?_,?_⟩
          · simp [readInside,hp,hrs,hb,ht,ha,bind,Except.bind,pure,Except.pure,cutOutside_nil,Cut.precede]
          · simpa [ha,Cut.precede] using hd
        · obtain ⟨es,hr,hes⟩ := ih.1 k.after
            { e with text := some (ofList k.after) } (by omega) ha (he.withText k.after)
          refine ⟨(body.toList ++ [setLastTail p.parts none]) ++ es,?_,rel_append hd hes⟩
          simp [readInside,hp,hrs,hb,ht,ha,hr,LineRead.after,Cut.precede,bind,Except.bind,pure,Except.pure]

def AreLines : Nat → List (List Char) → List Element → Prop
  | _, [], [] => True
  | n, cs :: lines, e :: es => IsLine n cs e ∧ AreLines (n + 1) lines es
  | _, _, _ => False

lemma readFrom_ok {ls : List (List Char)} (hne : ∀ cs ∈ ls, cs ≠ []) {es : List Element}
  (inComment : Bool) (h : AreLines n ls es) :
  ∃ es', readFrom inComment es = .ok es' ∧ Forall₂ IsStrip (cutFrom n inComment ls) es' := by
  induction ls generalizing n es inComment with
  | nil =>
    cases es with
    | nil => exact ⟨[],rfl,.nil⟩
    | cons e es => exact absurd h id
  | cons cs ls ih =>
    cases es with
    | nil => exact absurd h id
    | cons e es =>
      have hcs := hne cs mem_cons_self
      have hf : cs.length < (e.text.getD "").length + 2 := by
        rw [h.1.text]
        simp
      have hl : ∃ es', readLine inComment e = .ok ⟨es',(cutLine n inComment cs).inComment⟩ ∧
          Forall₂ IsStrip (cutLine n inComment cs).strips es' := by
        cases inComment with
        | true => exact (read_ok n _).2 .inside none cs e hf trivial (fun _ => hcs) h.1
        | false => exact (read_ok n _).1 cs e hf hcs h.1
      obtain ⟨es1,hr,hes1⟩ := hl
      obtain ⟨es2,hrs,hes2⟩ := ih (fun cs' h' => hne cs' (mem_cons_of_mem _ h'))
        (cutLine n inComment cs).inComment h.2
      refine ⟨es1 ++ es2,?_,rel_append hes1 hes2⟩
      simp only [readFrom,hr,hrs,bind,Except.bind]
      rfl

lemma areLines_lineElements (src : Option String) (ls : List String) :
  AreLines 1 (ls.map String.toList) (lineElements "line" src ls) := by
  have ha (ls : List String) : ∀ k : Nat, AreLines (k + 1) (ls.map String.toList) (ls.mapIdx fun i line =>
        { tag := "line"
          attributes := (src.map fun s => ("source",Value.text s)).toList
            ++ [("number",.text (toString (k + i + 1)))]
          text := some line }) := by
    induction ls with
    | nil => intro k; trivial
    | cons line ls ih =>
      intro k
      rw [mapIdx_cons]
      refine ⟨⟨rfl,?_,?_,?_,rfl,rfl⟩,?_⟩
      · cases src <;> rfl
      · cases src <;> rfl
      · exact congrArg some String.ofList_toList.symm
      · simpa only [Nat.add_assoc,Nat.add_comm 1] using ih (k + 1)
  simpa only [lineElements,Nat.zero_add] using ha ls 0

end Docweave.Tree
