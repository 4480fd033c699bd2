import Docweave.Proofs.Comments.Blocks
import Mathlib.Computability.Language
import Mathlib.Logic.Relation

namespace Docweave.Comment

open Relation List Language
open String (ofList ofList_append append_empty)
open scoped Computability

variable {n num : Nat} {cs : List Char} {m' : OpenMark}

structure Position where
  inComment : Bool
  text : List Char
  rest : List (List Char)

inductive Position.Next : Position → Position → Prop
  | code {cs line : List Char} {lines : List (List Char)} : openMark? cs = none →
      Next ⟨false,cs,line :: lines⟩ ⟨false,line,lines⟩
  | opens {cs : List Char} {m : OpenMark} {lines : List (List Char)} : openMark? cs = some m →
      Next ⟨false,cs,lines⟩ ⟨true,m.after,lines⟩
  | body {cs line : List Char} {lines : List (List Char)} : closeMark? cs = none →
      Next ⟨true,cs,line :: lines⟩ ⟨true,line,lines⟩
  | closes {cs : List Char} {k : CloseMark} {lines : List (List Char)} : closeMark? cs = some k →
      Next ⟨true,cs,lines⟩ ⟨false,k.after,lines⟩

open Position (Next)

def Reaches (lines : List (List Char)) (cs : List Char) : Prop :=
  ∃ first others rest, lines = first :: others ∧
    ReflTransGen Next ⟨false,first,others⟩ ⟨false,cs,rest⟩

lemma Head.start_mem_strips {head : Head} (h : .start num m' ∈ head.strips n cs) :
  ∃ m, head = .opened m ∧ m.indent = m'.indent := by
  cases head with
  | opened m =>
    rw [Head.strips,mem_singleton,Strip.start.injEq] at h
    exact ⟨m,rfl,by rw [h.2]⟩
  | inside => cases cs <;> simp [Head.strips] at h

lemma reaches_line_end (n : Nat) (line : List Char) (ls : List (List Char)) :
  (∀ cs, ReflTransGen Next ⟨false,cs,line :: ls⟩ ⟨(cutOutside n cs).inComment,line,ls⟩) ∧
    ∀ head cs, ReflTransGen Next ⟨true,cs,line :: ls⟩ ⟨(cutInside n head cs).inComment,line,ls⟩ := by
  refine cut_induction ?_ ?_ ?_ ?_
  · intro cs h
    rw [cutOutside_code n h]
    exact .single (.code h)
  · intro cs m h ih
    rw [cutOutside_open n h]
    exact .head (.opens h) ih
  · intro head cs h
    rw [cutInside_body n head h]
    exact .single (.body h)
  · intro head cs k h ih
    rw [cutInside_close n head h]
    exact .head (.closes h) ih

lemma reaches_start (n : Nat) (ls : List (List Char)) :
    (∀ cs, ∀ num m', .start num m' ∈ (cutOutside n cs).strips →
      ∃ t m, ReflTransGen Next ⟨false,cs,ls⟩ ⟨false,t,ls⟩ ∧ openMark? t = some m ∧
        m.indent = m'.indent) ∧ ∀ head cs, ∀ num m', .start num m' ∈ (cutInside n head cs).strips →
      (∃ m, head = .opened m ∧ m.indent = m'.indent) ∨
        ∃ t m, ReflTransGen Next ⟨true,cs,ls⟩ ⟨false,t,ls⟩ ∧ openMark? t = some m ∧
        m.indent = m'.indent := by
  refine cut_induction ?_ ?_ ?_ ?_
  · intro cs h num m' hm'
    rw [cutOutside_code n h] at hm'
    by_cases hcs : cs = [] <;> simp [hcs] at hm'
  · intro cs m h ih num m' hm'
    rw [cutOutside_open n h] at hm'
    rcases ih num m' hm' with ⟨m0,hm0,hi⟩ | ⟨t,m0,hr,hm0,hi⟩
    · cases hm0
      exact ⟨cs,m,.refl,h,hi⟩
    · exact ⟨t,m0,.head (.opens h) hr,hm0,hi⟩
  · intro head cs h num m' hm'
    rw [cutInside_body n head h] at hm'
    exact Or.inl (Head.start_mem_strips hm')
  intro head cs k h ih num m' hm'
  rw [cutInside_close n head h] at hm'
  rcases mem_append.mp hm' with hm' | hm'
  · rcases mem_append.mp hm' with hm' | hm'
    · exact Or.inl (Head.start_mem_strips hm')
    · simp at hm'
  · obtain ⟨t,m,hr,hm,hi⟩ := ih num m' hm'
    exact Or.inr ⟨t,m,.head (.closes h) hr,hm,hi⟩

def stripsFrom (n : Nat) (p : Position) : List Strip :=
  cutFrom n p.inComment (p.text :: p.rest)

lemma reaches_start_of_line {inComment : Bool} (ls : List (List Char))
  (h : .start num m' ∈ (cutLine n inComment cs).strips) :
  ∃ t m rest, ReflTransGen Next ⟨inComment,cs,ls⟩ ⟨false,t,rest⟩ ∧ openMark? t = some m ∧
  m.indent = m'.indent := by
  cases inComment with
  | false =>
    obtain ⟨t,m,hr⟩ := (reaches_start n ls).1 cs num m' h
    exact ⟨t,m,ls,hr⟩
  | true =>
    rcases (reaches_start n ls).2 .inside cs num m' h with ⟨m,hm,-⟩ | ⟨t,m,hr⟩
    · cases hm
    · exact ⟨t,m,ls,hr⟩

lemma reaches_next_line (n : Nat) (inComment : Bool) (cs line : List Char)
  (ls : List (List Char)) : ReflTransGen Next ⟨inComment,cs,line :: ls⟩
    ⟨(cutLine n inComment cs).inComment,line,ls⟩ := by
  cases inComment with
  | false => exact (reaches_line_end n line ls).1 cs
  | true => exact (reaches_line_end n line ls).2 .inside cs

lemma reaches_of_start {ls : List (List Char)} {inComment : Bool}
  (h : .start num m' ∈ stripsFrom n ⟨inComment,cs,ls⟩) :
  ∃ t m rest, ReflTransGen Next ⟨inComment,cs,ls⟩ ⟨false,t,rest⟩ ∧ openMark? t = some m ∧
  m.indent = m'.indent := by
  induction ls generalizing cs inComment n with
  | nil =>
    rcases mem_append.mp h with h | h
    · exact reaches_start_of_line [] h
    · cases h
  | cons line ls ih =>
    rcases mem_append.mp h with h | h
    · exact reaches_start_of_line (line :: ls) h
    · obtain ⟨t,m,rest,hr,hm⟩ := ih h
      exact ⟨t,m,rest,(reaches_next_line n inComment cs line ls).trans hr,hm⟩

lemma start_mem_any_head (head : Head) (h : .start num m' ∈ (cutInside n .inside cs).strips) :
  .start num m' ∈ (cutInside n head cs).strips := by
  cases hk : closeMark? cs with
  | none =>
    rw [cutInside_body n _ hk] at h
    obtain ⟨m,hm,-⟩ := Head.start_mem_strips h
    cases hm
  | some k =>
    rw [cutInside_close n _ hk] at h ⊢
    rcases mem_append.mp h with h | h
    · rcases mem_append.mp h with h | h
      · obtain ⟨m,hm,-⟩ := Head.start_mem_strips h
        cases hm
      · simp at h
    · exact mem_append_right _ h

lemma start_of_reaches {p : Position} {t : List Char} {rest : List (List Char)} {m : OpenMark}
  (h : ReflTransGen Next p ⟨false,t,rest⟩) (hm : openMark? t = some m) (n : Nat) :
  ∃ num m', .start num m' ∈ stripsFrom n p ∧ m'.indent = m.indent := by
  induction h using ReflTransGen.head_induction_on generalizing n with
  | refl =>
    obtain ⟨text,ht⟩ := start_mem_cutInside n m m.after
    refine ⟨n,{ m with after := text },mem_append_left _ ?_,rfl⟩
    rw [cutLine,cutOutside_open n hm]
    exact ht
  | head hs _ ih =>
    cases hs with
    | code h =>
      obtain ⟨num,m',hm',hi⟩ := ih (n + 1)
      refine ⟨num,m',mem_append_right _ ?_,hi⟩
      rw [cutLine,cutOutside_code n h]
      exact hm'
    | @opens cs m0 ls h =>
      obtain ⟨num,m',hm',hi⟩ := ih n
      refine ⟨num,m',?_,hi⟩
      rw [stripsFrom,cutFrom,cutLine,cutOutside_open n h,inComment_any_head]
      rcases mem_append.mp hm' with hm' | hm'
      · exact mem_append_left _ (start_mem_any_head _ hm')
      · exact mem_append_right _ hm'
    | body h =>
      obtain ⟨num,m',hm',hi⟩ := ih (n + 1)
      refine ⟨num,m',mem_append_right _ ?_,hi⟩
      rw [cutLine,cutInside_body n _ h]
      exact hm'
    | closes h =>
      obtain ⟨num,m',hm',hi⟩ := ih n
      refine ⟨num,m',?_,hi⟩
      rw [stripsFrom,cutFrom,cutLine,cutInside_close n _ h]
      rcases mem_append.mp hm' with hm' | hm'
      · exact mem_append_left _ (mem_append_right _ hm')
      · exact mem_append_right _ hm'

lemma exists_unspaced_iff (ls : List (List Char)) : (∃ s ∈ cutLines ls, s.spaced = false) ↔
    ∃ cs m, Reaches ls cs ∧ openMark? cs = some m ∧ ∃ c ∈ m.indent, c ≠ ' ' := by
  have hsc (cs : List Char) : onlySpaces cs = false ↔ ∃ c ∈ cs, c ≠ ' ' := by
    simp [onlySpaces]
  constructor
  · rintro ⟨s,hs,hsp⟩
    cases s with
    | start num m' =>
      cases ls with
      | nil => cases hs
      | cons first others =>
        obtain ⟨t,m,rest,hr,hm,hi⟩ := reaches_of_start hs
        refine ⟨t,m,⟨first,others,rest,rfl,hr⟩,hm,?_⟩
        rw [← hsc,hi]
        exact hsp
    | _ => cases hsp
  · rintro ⟨cs,m,⟨first,others,rest,rfl,hr⟩,hm,hc⟩
    obtain ⟨num,m',hm',hi⟩ := start_of_reaches hr hm 1
    refine ⟨.start num m',hm',?_⟩
    rw [Strip.spaced,hi,hsc]
    exact hc

def renderedLine (l : Line) : String :=
  l.indentText.getD "" ++ l.symbol.getD "" ++ l.marginText.getD "" ++ l.text.getD ""
    ++ l.ending.getD ""

def rendered : Scanned → String
  | .code l => l.text.getD ""
  | .comment l => renderedLine l

def kind : Scanned → Option Part
  | .code _ => none
  | .comment l => l.part

def Piece.items : Piece → List Scanned
  | .code line => [.code line]
  | .block b => b.lines.map .comment

def Strip.closesSpaced : Strip → Bool
  | finish _ (some i) => onlySpaces i
  | _ => true

lemma closesSpaced_cut (n : Nat) : (∀ cs, '\t' ∉ cs → ∀ s ∈ (cutOutside n cs).strips, s.closesSpaced) ∧
    ∀ head cs, '\t' ∉ cs → ∀ s ∈ (cutInside n head cs).strips, s.closesSpaced := by
  have hh (head : Head) (cs : List Char) : ∀ s ∈ head.strips n cs, s.closesSpaced := by
    cases head with
    | opened m => simp [Head.strips,Strip.closesSpaced]
    | inside => cases cs <;> simp [Head.strips,Strip.closesSpaced]
  refine cut_induction ?_ ?_ ?_ ?_
  · intro cs h ht s hs
    rw [cutOutside_code n h] at hs
    by_cases hcs : cs = []
    · simp [hcs] at hs
    · rw [if_neg hcs,mem_singleton] at hs
      rw [hs]
      rfl
  · intro cs m h ih ht
    rw [cutOutside_open n h]
    refine ih fun hm => ht ?_
    rw [← openMark?_split h]
    exact mem_append_right _ hm
  · intro head cs h ht
    rw [cutInside_body n head h]
    exact hh head cs
  intro head cs k h ih ht s hs
  rw [cutInside_close n head h] at hs
  rcases mem_append.mp hs with hs | hs
  · rcases mem_append.mp hs with hs | hs
    · exact hh head k.before s hs
    rw [mem_singleton] at hs
    rw [hs]
    cases hi : k.indent with
    | none => rfl
    | some i => exact closeMark?_onlySpaces ht h i hi
  · refine ih (fun hm => ht ?_) s hs
    rw [← closeMark?_split h]
    simp [CloseMark.whole,hm]

lemma closesSpaced_cutFrom {ls : List (List Char)} (ht : ∀ cs ∈ ls, '\t' ∉ cs) (n : Nat)
  (inComment : Bool) : ∀ s ∈ cutFrom n inComment ls, s.closesSpaced := by
  induction ls generalizing n inComment with
  | nil => simp [cutFrom]
  | cons cs ls ih =>
    intro s hs
    rcases mem_append.mp hs with hs | hs
    · cases inComment with
      | true => exact (closesSpaced_cut n).2 .inside cs (ht cs mem_cons_self) s hs
      | false => exact (closesSpaced_cut n).1 cs (ht cs mem_cons_self) s hs
    · exact ih (fun cs' h => ht cs' (mem_cons_of_mem _ h)) _ _ s hs

lemma spacesInt_length (h : onlySpaces cs) : Text.spacesInt cs.length = ofList cs := by
  rw [spacesInt_natCast]
  congr 1
  rw [eq_comm,eq_replicate_iff]
  exact ⟨rfl,fun c hc => by simpa using all_eq_true.mp h c hc⟩

lemma renderedLine_settled (k : Nat) (allLed : Bool) {s : Strip} (hs : s.spaced) (hc : s.closesSpaced)
  (hcd : s.isCode = false) : renderedLine (settledLine k allLed s) = ofList s.chars := by
  cases s with
  | code n cs => cases hcd
  | start n m =>
    have hi : Text.spacesInt m.indent.length = ofList m.indent := spacesInt_length hs
    have hm := spacesInt_length (onlySpaces_margin m)
    simp only [renderedLine,settledLine,lineOf,Line.indentText,Line.marginText,Option.map_some,
      Option.getD_some,hi,hm,Strip.chars,OpenMark.head,ofList_append,
      String.append_assoc,ofList_bodyText_lineEnd]
  | middle n m =>
    have hsy : (if m.leader = .bare then none else some "*" : Option String).getD "" =
      ofList m.leader.symbol := by
      cases m.leader <;> rfl
    have hm : ((if m.leader = .starSpace then some 1 else none : Option Int).map
        Text.spacesInt).getD "" = ofList m.leader.margin := by
      cases m.leader <;> rfl
    have hi := replicate_min_append m.indent (k + 1)
    cases allLed with
    | true =>
      simp only [renderedLine,settledLine,lineOf,Line.indentText,Line.marginText,
        Option.map_some,Option.getD_some,if_true,spacesInt_natCast,hsy,hm,
        Strip.chars,ContinueMark.head,ofList_append,String.append_assoc,
        ofList_bodyText_lineEnd]
    | false =>
      simp only [renderedLine,settledLine,Line.indentText,Line.marginText,Option.map_some,
        Option.map_none,Option.getD_some,Option.getD_none,Bool.false_eq_true,if_false,
        spacesInt_natCast,Strip.chars,ContinueMark.head,shuffledText,← hi,
        ofList_append,String.append_assoc,append_empty,ofList_bodyText_lineEnd]
  | finish n i =>
    cases i with
    | none => rfl
    | some i =>
      have hi : Text.spacesInt i.length = ofList i := spacesInt_length hc
      simp only [renderedLine,settledLine,lineOf,Line.indentText,Line.marginText,
        Option.map_some,Option.map_none,Option.getD_some,Option.getD_none,hi,
        append_empty,Strip.chars,ofList_append]

lemma rendered_scannedOf {s : Strip} (hs : s.spaced) (hc : s.closesSpaced) :
  rendered (scannedOf s) = ofList s.chars := by
  cases hcd : s.isCode with
  | true =>
    cases s with
    | code n cs => rfl
    | _ => cases hcd
  | false =>
    have hl : scannedOf s = .comment (settledLine 0 true s) := by cases s <;> first | rfl | cases hcd
    rw [hl]
    exact renderedLine_settled 0 true hs hc hcd

section

variable {w : List (Option Part)}

abbrev Shape : Type := Language (Option Part)

def codeShape : Shape := {[none]}

def startShape : Shape := {[some .start]}

def middleShape : Shape := {[some .middle]}

def finishShape : Shape := {[some .finish]}

def closedShape : Shape := codeShape∗ * startShape * middleShape∗ * finishShape

def sourceShape : Shape := closedShape∗ * codeShape∗ * (1 + startShape * middleShape∗)

def blockShape : Shape := startShape * middleShape∗ * (1 + finishShape)

lemma append_mem_kstar {l : Shape} {a b : List (Option Part)} (ha : a ∈ l) (hb : b ∈ l∗) : a ++ b ∈ l∗ := by
  obtain ⟨words,rfl,hwr⟩ := mem_kstar.mp hb
  refine mem_kstar.mpr ⟨a :: words,rfl,?_⟩
  intro word hw
  rcases mem_cons.mp hw with rfl | hw
  · exact ha
  · exact hwr word hw

lemma replicate_mem_kstar (a : Option Part) (n : Nat) : replicate n a ∈ ({[a]} : Shape)∗ := by
  induction n with
  | zero => exact nil_mem_kstar _
  | succ n ih =>
    have ha : [a] ∈ ({[a]} : Shape) := rfl
    exact append_mem_kstar ha ih

lemma cons_none_mem_kstar (h : w ∈ codeShape∗) : none :: w ∈ codeShape∗ := by
  have hn : [none] ∈ codeShape := rfl
  exact append_mem_kstar hn h

lemma cons_none_mem_closedShape (h : w ∈ closedShape) : none :: w ∈ closedShape := by
  obtain ⟨v,⟨u,⟨c,hc,a,ha,rfl⟩,b,hb,rfl⟩,d,hd,rfl⟩ := h
  exact append_mem_mul (append_mem_mul (append_mem_mul (cons_none_mem_kstar hc) ha) hb) hd

lemma append_mem_sourceShape {v : List (Option Part)} (hv : v ∈ closedShape) (hw : w ∈ sourceShape) :
  v ++ w ∈ sourceShape := by
  obtain ⟨x,⟨a,ha,c,hc,rfl⟩,d,hd,rfl⟩ := hw
  have hs : v ++ a ∈ closedShape∗ := append_mem_kstar hv ha
  have h : v ++ a ++ c ++ d ∈ sourceShape :=
    append_mem_mul (append_mem_mul hs hc) hd
  simpa only [append_assoc] using h

lemma cons_none_mem_sourceShape (hw : w ∈ sourceShape) : none :: w ∈ sourceShape := by
  obtain ⟨x,⟨a,ha,c,hc,rfl⟩,d,hd,rfl⟩ := hw
  obtain ⟨words,rfl,hwr⟩ := mem_kstar.mp ha
  cases words with
  | nil =>
    exact append_mem_mul (append_mem_mul (nil_mem_kstar _) (cons_none_mem_kstar hc)) hd
  | cons word words =>
    have hwd := cons_none_mem_closedShape (hwr word mem_cons_self)
    have hr : words.flatten ∈ closedShape∗ :=
      join_mem_kstar fun y hy => hwr y (mem_cons_of_mem _ hy)
    exact append_mem_mul (append_mem_mul (append_mem_kstar hwd hr) hc) hd

def Remark.opened (r : Remark) : List (Option Part) :=
  [some .start] ++ replicate r.middles.length (some .middle)

lemma Remark.opened_mem (r : Remark) : r.opened ∈ startShape * middleShape∗ :=
  append_mem_mul rfl (replicate_mem_kstar _ _)

lemma Remark.map_partOf_strips (r : Remark) :
  r.strips.map partOf = r.opened ++ (r.finish.map fun _ => some Part.finish).toList := by
  have hm : (r.middles.map fun p => Strip.middle p.1 p.2).map partOf =
      List.replicate r.middles.length (some .middle) := by
    rw [List.map_map,List.eq_replicate_iff]
    refine ⟨List.length_map ..,?_⟩
    intro part hp
    obtain ⟨p,-,rfl⟩ := List.mem_map.mp hp
    rfl
  rw [strips,later,List.map_cons,List.map_append,hm]
  cases r.finish <;> rfl

lemma Remark.strips_mem_blockShape (r : Remark) : r.strips.map partOf ∈ blockShape := by
  rw [r.map_partOf_strips]
  refine append_mem_mul r.opened_mem ?_
  cases r.finish with
  | none => exact Or.inl rfl
  | some p => exact Or.inr rfl

lemma passages_mem_sourceShape {ps : List Passage} (h : Composed ps) :
  (ps.flatMap Passage.strips).map partOf ∈ sourceShape := by
  induction ps with
  | nil =>
    exact append_mem_mul
      (append_mem_mul (nil_mem_kstar _) (nil_mem_kstar _)) (Or.inl rfl)
  | cons p ps ih =>
    have hr := ih h.2
    rw [flatMap_cons,map_append]
    cases p with
    | code n cs => exact cons_none_mem_sourceShape hr
    | comment r =>
      rw [Passage.strips,r.map_partOf_strips]
      cases hf : r.finish with
      | some p =>
        refine append_mem_sourceShape ?_ hr
        have ho : [] ++ r.opened ∈ codeShape∗ * (startShape * middleShape∗) :=
          append_mem_mul (nil_mem_kstar _) r.opened_mem
        rw [← mul_assoc] at ho
        exact append_mem_mul ho rfl
      | none =>
        have hps : ps = [] := by simpa [Passage.closed,hf] using h.1
        rw [hps]
        have ho : r.opened ∈ 1 + startShape * middleShape∗ := Or.inr r.opened_mem
        have hw : [] ++ [] ++ r.opened ∈ sourceShape :=
          append_mem_mul (append_mem_mul (nil_mem_kstar _) (nil_mem_kstar _)) ho
        simpa using hw

end

def Piece.isBlock : Piece → Bool
  | .code _ => false
  | .block _ => true

lemma kind_scannedOf (s : Strip) : kind (scannedOf s) = partOf s := by
  cases s <;> rfl

structure Repeats (ss : List Strip) (piece : Piece) : Prop where
  kinds : piece.items.map kind = ss.map partOf
  texts : piece.items.map rendered = ss.map fun s => ofList s.chars
  starts : (if piece.isBlock then 1 else 0) = (ss.map partOf).count (some .start)

lemma repeats_of_isPiece {p : Passage} {piece : Piece} (h : IsPiece p piece)
  (hs : ∀ s ∈ p.strips, s.spaced ∧ s.closesSpaced) : Repeats p.strips piece := by
  cases p with
  | code n cs =>
    obtain rfl := isPiece_code h
    exact ⟨rfl,rfl,rfl⟩
  | comment r =>
    obtain ⟨b,rfl,hb⟩ := isPiece_comment h
    refine ⟨?_,?_,?_⟩
    · simp only [Piece.items,hb.lines,List.map_map]
      exact List.map_congr_left fun s _ => part_settledLine _ _ s
    · simp only [Piece.items,hb.lines,List.map_map]
      refine List.map_congr_left fun s hm => ?_
      exact renderedLine_settled _ _ (hs s hm).1 (hs s hm).2 (r.isCode_strips s hm)
    · rw [Passage.strips,r.map_partOf_strips,Remark.opened]
      cases r.finish <;> simp [Piece.isBlock,List.count_replicate]

lemma repeats_pieces {ps : List Passage} {pieces : List Piece} (h : Forall₂ IsPiece ps pieces)
  (hs : ∀ s ∈ ps.flatMap Passage.strips, s.spaced ∧ s.closesSpaced) :
  (pieces.flatMap Piece.items).map kind = (ps.flatMap Passage.strips).map partOf ∧
    (pieces.flatMap Piece.items).map rendered = (ps.flatMap Passage.strips).map (fun s => ofList s.chars) ∧
    pieces.countP Piece.isBlock = ((ps.flatMap Passage.strips).map partOf).count (some .start) := by
  induction h with
  | nil => exact ⟨rfl,rfl,rfl⟩
  | @cons p piece ps pieces hp _ ih =>
    have hr := repeats_of_isPiece hp fun s hm => hs s (mem_append_left _ hm)
    obtain ⟨hk,ht,hst⟩ := ih fun s hm => hs s (mem_append_right _ hm)
    refine ⟨?_,?_,?_⟩
    · simp only [flatMap_cons,map_append,hr.kinds,hk]
    · simp only [flatMap_cons,map_append,hr.texts,ht]
    · rw [countP_cons,hst,flatMap_cons,map_append,count_append,← hr.starts,Nat.add_comm]

theorem scan_well_formed (lines : List String) (hne : ∀ line ∈ lines, line ≠ "")
    (htab : ∀ line ∈ lines, '\t' ∉ line.toList) :
    (∀ verbose fault, (scan verbose lines).fault = some fault → fault.category.isValue = true) ∧
      ((scan false lines).fault.isSome = true ↔ ∃ cs m, Reaches (lines.map String.toList) cs ∧
        openMark? cs = some m ∧ ∃ c ∈ m.indent, c ≠ ' ') ∧
          ∀ verbose, (scan verbose lines).fault = none →
        (scan verbose lines).items.map kind ∈ sourceShape ∧
        String.join ((scan verbose lines).items.map rendered) = String.join lines ∧
        ∀ source, ∃ pieces, blocks (some source) (scan verbose lines).stream = ⟨pieces, none⟩ ∧
          pieces.countP Piece.isBlock = ((scan verbose lines).items.map kind).count (some .start) ∧
          (∀ b, .block b ∈ pieces → b.lines.map Line.part ∈ blockShape) ∧
          (pieces.flatMap Piece.items).map kind = (scan verbose lines).items.map kind ∧
          (pieces.flatMap Piece.items).map rendered = (scan verbose lines).items.map rendered := by
  have htab' : ∀ cs ∈ lines.map String.toList, '\t' ∉ cs := by
    intro cs hcs
    obtain ⟨line, hline, rfl⟩ := List.mem_map.mp hcs
    exact htab line hline
  have hreads (verbose : Bool) := reads_scan verbose hne htab
  refine ⟨?_, ?_, ?_⟩
  · intro verbose fault hfault
    obtain ⟨last, h⟩ := hreads verbose
    exact h.isValue fault hfault
  · obtain ⟨last, h⟩ := hreads false
    rw [← exists_unspaced_iff]
    constructor
    · intro hsome
      by_contra hnone
      have hall : ∀ s ∈ cutLines (lines.map String.toList), s.spaced = true := by
        simpa using hnone
      rw [h.faultless rfl hall] at hsome
      cases hsome
    · rintro ⟨s, hs, hspaced⟩
      by_contra hnone
      have hfault : (scan false lines).fault = none := by simpa using hnone
      rw [h.spaced hfault s hs] at hspaced
      cases hspaced
  · intro verbose hfault
    obtain ⟨last, h⟩ := hreads verbose
    have hitems : (scan verbose lines).items = (cutLines (lines.map String.toList)).map scannedOf :=
      h.items hfault
    have hspaced (s : Strip) (hs : s ∈ cutLines (lines.map String.toList)) :
        s.spaced = true ∧ s.closesSpaced = true :=
      ⟨h.spaced hfault s hs, closesSpaced_cutFrom htab' 1 false s hs⟩
    have hkinds : (scan verbose lines).items.map kind =
        (cutLines (lines.map String.toList)).map partOf := by
      rw [hitems, List.map_map]
      exact List.map_congr_left fun s _ => kind_scannedOf s
    have htexts : (scan verbose lines).items.map rendered =
        (cutLines (lines.map String.toList)).map fun s => String.ofList s.chars := by
      rw [hitems, List.map_map]
      exact List.map_congr_left fun s hs => rendered_scannedOf (hspaced s hs).1 (hspaced s hs).2
    obtain ⟨ps, hps, hflat⟩ := exists_passages_cutLines (lines.map String.toList)
    refine ⟨?_, ?_, ?_⟩
    · rw [hkinds, ← hflat]
      exact passages_mem_sourceShape hps
    · rw [htexts, join_map_ofList, flatMap_chars_cutLines, ofList_flatten_toList]
    · intro source
      obtain ⟨pieces, hgather, hpieces⟩ := gather_passages hps source
      obtain ⟨hk, ht, hcount⟩ := repeats_pieces hpieces (by rw [hflat]; exact hspaced)
      rw [hflat] at hk ht hcount hgather
      refine ⟨pieces, ?_, ?_, ?_, ?_, ?_⟩
      · rw [blocks, Scan.stream, hitems, hfault]
        exact hgather
      · rw [hcount, hkinds]
      · intro b hb
        obtain ⟨p, -, hp⟩ := forall₂_mem_right hpieces hb
        cases p with
        | code n cs => exact absurd hp id
        | comment r =>
            have hparts : b.lines.map Line.part = r.strips.map partOf := by
              rw [IsBlock.lines hp, List.map_map]
              exact List.map_congr_left fun s _ => part_settledLine _ _ s
            rw [hparts]
            exact r.strips_mem_blockShape
      · rw [hk, hkinds]
      · rw [ht, htexts]

theorem scan_well_formed_at_vertical_tab :
    (scan false ["/** a */\x0b/** b\n"]).fault.isSome = true ∧
      (scan false ["/***/ /** a **/ int x; /** b\n", "  * c\n", "** d */ y"]).items.map
        kind ∈ sourceShape :=
  ⟨(scan_well_formed ["/** a */\x0b/** b\n"] (by decide) (by decide)).2.1.mpr
      ⟨"\x0b/** b\n".toList, ⟨['\x0b'], true, "b\n".toList⟩,
        ⟨"/** a */\x0b/** b\n".toList, [], [], rfl,
          .head (.opens (m := ⟨[], true, "a */\x0b/** b\n".toList⟩) (by decide))
            (.single (.closes (k := ⟨"a ".toList, none, "\x0b/** b\n".toList⟩) (by decide)))⟩,
        by decide, '\x0b', by decide, by decide⟩,
    ((scan_well_formed ["/***/ /** a **/ int x; /** b\n", "  * c\n", "** d */ y"] (by decide)
      (by decide)).2.2 false (Option.isNone_iff_eq_none.mp (by decide +kernel))).1⟩

end Docweave.Comment
