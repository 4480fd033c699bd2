import Docweave.Proofs.Jobs.Extraction

namespace Docweave

open List
open String (ofList toList_ofList toList_append toList_inj)

namespace Comment

open Text

variable {cs l : List Char}

structure WithinLine (cs : List Char) : Prop where
  feed : '\n' ∉ cs.dropLast
  no_return : '\r' ∉ cs

namespace WithinLine

variable {a b cs : List Char}

lemma no_feed (h : WithinLine (a ++ b)) (hb : b ≠ []) : '\n' ∉ a := by
  have hf := h.feed
  rw [dropLast_append_of_ne_nil hb] at hf
  exact fun hm => hf (mem_append_left _ hm)

lemma right (h : WithinLine (a ++ b)) : WithinLine b := by
  refine ⟨fun hm => h.feed ?_,fun hm => h.no_return (mem_append_right _ hm)⟩
  rw [dropLast_append_of_ne_nil (ne_nil_of_mem (mem_of_mem_dropLast hm))]
  exact mem_append_right _ hm

lemma left (h : WithinLine (a ++ b)) : WithinLine a := by
  refine ⟨?_,fun hm => h.no_return (mem_append_left _ hm)⟩
  by_cases hb : b = []
  · rw [← append_nil a,← hb]
    exact h.feed
  · exact fun hm => h.no_feed hb (mem_of_mem_dropLast hm)

lemma of_no_feed (hf : '\n' ∉ cs) (hr : '\r' ∉ cs) : WithinLine cs := ⟨fun hm => hf (mem_of_mem_dropLast hm),hr⟩

lemma of_line (hf : '\n' ∉ cs) (hr : '\r' ∉ cs) : WithinLine (cs ++ ['\n']) :=
  ⟨by rwa [dropLast_concat],by simpa using hr⟩

end WithinLine

lemma lineEnd_of_none (h : ∀ c ∈ cs, isNewline c = false) : lineEnd cs = [] := by
  have hb : bodyText cs = cs := by
    rw [bodyText,dropEndWhile]
    cases hcs : cs.reverse with
    | nil => rw [reverse_eq_nil_iff.mp hcs]; rfl
    | cons c rest =>
      have hc : c ∈ cs := by
        rw [← mem_reverse,hcs]
        exact mem_cons_self
      rw [dropWhile_cons_of_neg (by simp [h c hc]),← hcs,reverse_reverse]
  rw [lineEnd,hb,drop_length]

lemma lineEnd_of_feed (h : ∀ c ∈ l, isNewline c = false) : lineEnd (l ++ ['\n']) = ['\n'] := by
  have hb : bodyText (l ++ ['\n']) = bodyText l := by
    rw [bodyText,dropEndWhile,reverse_append]
    rfl
  have hn := lineEnd_of_none h
  have hw := bodyText_append_lineEnd l
  rw [hn,append_nil] at hw
  rw [lineEnd,hb,hw,drop_left]

lemma WithinLine.lineEnd {cs : List Char} (h : WithinLine cs) : lineEnd cs = [] ∨ lineEnd cs = ['\n'] := by
  have hn {c : Char} {l : List Char} (hf : '\n' ∉ l) (hr : '\r' ∉ l) (hc : c ∈ l) : isNewline c = false := by
    simp [isNewline,ne_of_mem_of_not_mem hc hf,ne_of_mem_of_not_mem hc hr]
  by_cases hm : '\n' ∈ cs
  · obtain ⟨l,rest,rfl,hl⟩ := eq_append_cons_of_mem hm
    obtain rfl : rest = [] := by
      by_contra hr
      rw [append_cons] at h
      exact h.no_feed hr (by simp)
    exact .inr (lineEnd_of_feed fun c => hn hl fun hr => h.no_return (mem_append_left _ hr))
  · exact .inl (lineEnd_of_none fun c => hn hm h.no_return)

def Strip.Shaped : Strip → Prop
  | .start _ m => (∀ c ∈ m.indent, isBlank c = true) ∧ '\n' ∉ m.indent ∧
      (lineEnd m.after = [] ∨ lineEnd m.after = ['\n'])
  | .finish _ indent => ∀ c ∈ indent.getD [], isIndentChar c = true
  | .code _ cs => cs ≠ []
  | .middle _ _ => True

lemma openMark?_indent {m : OpenMark} (h : openMark? cs = some m) : ∀ c ∈ m.indent, isBlank c := by
  rw [openMark?] at h
  split at h
  · intro c hc
    rw [(openRest_indent h).1] at hc
    exact mem_takeWhile_imp hc
  · cases h

lemma closeMark?_indentChars {k : CloseMark} (h : closeMark? cs = some k) :
    ∀ c ∈ k.indentChars, isIndentChar c := by
  obtain ⟨⟨pre,after⟩,-,rfl⟩ := Option.map_eq_some_iff.mp h
  dsimp only
  split
  · rename_i ha
    exact all_eq_true.mp ha
  · exact forall_mem_nil _

def Head.Shaped : Head → Prop
  | .opened m => (∀ c ∈ m.indent, isBlank c = true) ∧ '\n' ∉ m.indent
  | .inside => True

lemma Head.shaped_strips (n : Nat) {head : Head} (h : head.Shaped) (hcs : WithinLine cs) :
  ∀ s ∈ head.strips n cs, s.Shaped := by
  cases head with
  | opened m =>
    intro s hs
    obtain rfl := mem_singleton.mp hs
    exact ⟨h.1,h.2,hcs.lineEnd⟩
  | inside =>
    cases cs with
    | nil => exact forall_mem_nil _
    | cons c cs =>
      intro s hs
      obtain rfl := mem_singleton.mp hs
      trivial

lemma shaped_cut (n : Nat) : (∀ cs, WithinLine cs → ∀ s ∈ (cutOutside n cs).strips, s.Shaped) ∧
    ∀ head cs, WithinLine cs → head.Shaped → ∀ s ∈ (cutInside n head cs).strips, s.Shaped := by
  refine cut_induction ?_ ?_ ?_ ?_
  · intro cs h _ s hs
    rw [cutOutside_code n h] at hs
    split at hs
    · cases hs
    · rename_i hne
      obtain rfl := mem_singleton.mp hs
      exact hne
  · intro cs m h ih hcs
    rw [cutOutside_open n h]
    rw [← openMark?_split h] at hcs
    refine ih hcs.right ⟨openMark?_indent h,?_⟩
    have hr : m.indent ++ ('/' :: '*' :: '*' :: (m.margin ++ m.after)) = m.head ++ m.after := by
      simp [OpenMark.head]
    rw [← hr] at hcs
    exact hcs.no_feed (cons_ne_nil _ _)
  · intro head cs h hcs hh
    rw [cutInside_body n head h]
    exact head.shaped_strips n hh hcs
  intro head cs k h ih hcs hh s hs
  rw [cutInside_close n head h] at hs
  have hsp : k.before ++ (k.indentChars ++ ('*' :: '/' :: k.after)) = cs := by
    rw [← closeMark?_split h]
    simp [CloseMark.whole]
  rw [← hsp] at hcs
  have hc : WithinLine (['*','/'] ++ k.after) := hcs.right.right
  simp only [Cut.precede,append_assoc,mem_append,mem_singleton] at hs
  rcases hs with hs | rfl | hs
  · exact head.shaped_strips n hh hcs.left s hs
  · exact closeMark?_indentChars h
  · exact ih hc.right s hs

lemma shaped_cutFrom {lines : List (List Char)} (h : ∀ cs ∈ lines, WithinLine cs) (n : Nat)
  (inComment : Bool) : ∀ s ∈ cutFrom n inComment lines, s.Shaped := by
  induction lines generalizing n inComment with
  | nil => exact forall_mem_nil _
  | cons cs lines ih =>
    rw [forall_mem_cons] at h
    rw [cutFrom,forall_mem_append]
    refine ⟨?_,ih h.2 _ _⟩
    cases inComment with
    | false => exact (shaped_cut n).1 cs h.1
    | true => exact (shaped_cut n).2 .inside cs h.1 trivial

lemma withinLine_fileLines (h : '\r' ∉ cs) : ∀ l ∈ fileLinesFrom [] cs, WithinLine l := by
  induction cs using byLines with
  | line l rest hl ih =>
    rw [mem_append,mem_cons,not_or,not_or] at h
    rw [fileLinesFrom_line hl,forall_mem_cons]
    exact ⟨.of_line hl h.1,ih h.2.2⟩
  | last cs hm =>
    by_cases hne : cs = []
    · subst hne
      exact forall_mem_nil _
    · rw [fileLinesFrom_last hm [] (.inr hne),reverse_nil,nil_append,forall_mem_singleton]
      exact .of_no_feed hm h

lemma cutFrom_front {n : Nat} {inComment : Bool} {front : List Char} {ss : List Strip}
    (hf : '\n' ∉ front)
  (hne : front ≠ []) (h : ∀ l, cutLine n inComment (front ++ l) = (cutOutside n l).precede ss)
  (rest : List Char) :
  cutFrom n inComment (fileLinesFrom [] (front ++ rest)) = ss ++ cutText n rest := by
  by_cases hm : '\n' ∈ rest
  · obtain ⟨l,later,rfl,hl⟩ := eq_append_cons_of_mem hm
    have hln : '\n' ∉ front ++ l := not_mem_append hf hl
    have hc := h (l ++ ['\n'])
    rw [← append_assoc] at hc
    rw [← append_assoc,fileLinesFrom_line hln,cutText,fileLinesFrom_line hl,reverse_nil,
      nil_append,nil_append,cutFrom,cutFrom,hc,Cut.precede,append_assoc]
    rfl
  have hln : '\n' ∉ front ++ rest := not_mem_append hf hm
  have hne' : front ++ rest ≠ [] := by simp [hne]
  rw [fileLinesFrom_last hln [] (.inr hne'),cutFrom,cutFrom,append_nil,reverse_nil,nil_append,h]
  by_cases hr : rest = []
  · subst hr
    rw [cutOutside_nil]
    rfl
  · rw [cutText,fileLinesFrom_last hm [] (.inr hr),cutFrom,cutFrom,append_nil]
    rfl

lemma cutText_line (hl : '\n' ∉ l) (hc : openMark? (l ++ ['\n']) = none) (n : Nat) (rest : List Char) :
  cutText n (l ++ '\n' :: rest) = .code n (l ++ ['\n']) :: cutText (n + 1) rest := by
  rw [cutText,fileLinesFrom_line hl,reverse_nil,nil_append,cutFrom,cutLine,cutOutside_code n hc,if_neg (by simp)]
  rfl

lemma cutText_last (hl : '\n' ∉ l) (hne : l ≠ []) (hc : openMark? l = none) (n : Nat) :
    cutText n l = [.code n l] := by
  rw [cutText,fileLinesFrom_last hl [] (.inr hne),reverse_nil,nil_append,cutFrom,cutFrom,
    cutLine,cutOutside_code n hc,if_neg hne]
  rfl

section

variable {a b : List Char}

lemma splitClose_cons_append {c : Char} (ha : splitClose (c :: a) = none)
    (h : c = '*' → a = [] → b.head? ≠ some '/') :
  splitClose a = none ∧ splitClose (c :: a ++ b) = (splitClose (a ++ b)).map fun p =>
    (c :: p.1,p.2) := by
  have hne : ∀ tail, c = '*' → a = '/' :: tail → False := by
    rintro tail rfl rfl
    cases ha
  have hne' : ∀ tail, c = '*' → a ++ b = '/' :: tail → False := by
    intro tail hc hab
    cases a with
    | nil => exact h hc rfl (by rw [show b = '/' :: tail from hab]; rfl)
    | cons d a =>
      cases hab
      exact hne a hc rfl
  rw [splitClose.eq_2 _ _ hne,Option.map_eq_none_iff] at ha
  exact ⟨ha,by rw [cons_append,splitClose.eq_2 _ _ hne']⟩

lemma splitClose_none_append (ha : splitClose a = none) (hb : splitClose b = none)
  (h : a.getLast? ≠ some '*' ∨ b.head? ≠ some '/') : splitClose (a ++ b) = none := by
  induction a with
  | nil => exact hb
  | cons c a ih =>
    obtain ⟨ha,hc⟩ := @splitClose_cons_append a b c ha fun hc he => h.resolve_left fun h =>
      h (by rw [hc,he]; rfl)
    have hl : a.getLast? ≠ some '*' ∨ b.head? ≠ some '/' := by
      refine h.imp_left fun hc ha => hc ?_
      rw [getLast?_cons,ha]
      rfl
    rw [hc,ih ha hl]
    rfl

lemma splitClose_found (ha : splitClose a = none) (rest : List Char) :
  splitClose (a ++ '*' :: '/' :: rest) = some (a,rest) := by
  induction a with
  | nil => rfl
  | cons c a ih =>
    obtain ⟨ha,hc⟩ := @splitClose_cons_append a ('*' :: '/' :: rest) c ha fun _ _ => by simp
    rw [hc,ih ha]
    rfl

lemma closeMark?_found (ha : splitClose a = none) (rest : List Char) : closeMark? (a ++ '*' :: '/' :: rest) =
      some (if a.all isIndentChar then ⟨[],some a,rest⟩ else ⟨a,none,rest⟩) := by
  rw [closeMark?,splitClose_found ha]
  rfl

lemma splitClose_of_no_star (h : '*' ∉ a) : splitClose a = none := by
  cases hs : splitClose a with
  | none => rfl
  | some p =>
    refine absurd ?_ h
    rw [← splitClose_split hs]
    exact mem_append_right _ mem_cons_self

lemma splitClose_eq_none_iff : splitClose a = none ↔ ¬ ['*','/'] <:+: a := by
  constructor
  · rintro h ⟨pre,after,rfl⟩
    rw [append_assoc,cons_append,cons_append] at h
    cases hb : splitClose pre with
    | none =>
      rw [splitClose_found hb] at h
      cases h
    | some p =>
      rw [splitClose_append hb] at h
      cases h
  · intro h
    cases hs : splitClose a with
    | none => rfl
    | some p =>
      refine absurd ⟨p.1,p.2,?_⟩ h
      rw [← splitClose_split hs]
      simp

end

structure IsLabel (label : List Char) : Prop where
  head : label.head? = some '['
  no_feed : '\n' ∉ label
  no_close : splitClose label = none

namespace Remark

def trail (r : Remark) : List Char := if lineEnd r.mark.after = [] then r.lastIndent else ['\n']

structure Rereads (r : Remark) (label : List Char) (q : Remark) : Prop where
  indent : q.mark.indent = r.mark.indent
  finished : q.finish.isSome
  words : q.words = label ++ r.trail

structure Shaped (r : Remark) : Prop where
  blank : ∀ c ∈ r.mark.indent, isBlank c = true
  no_feed : '\n' ∉ r.mark.indent
  ending : lineEnd r.mark.after = [] ∨ lineEnd r.mark.after = ['\n']
  last : ∀ c ∈ r.lastIndent, isIndentChar c = true

lemma shaped {r : Remark} (h : ∀ s ∈ r.strips, s.Shaped) : r.Shaped := by
  obtain ⟨hb,hfd,he⟩ := h _ mem_cons_self
  refine ⟨hb,hfd,he,?_⟩
  rw [lastIndent]
  cases hf : r.finish with
  | none => exact forall_mem_nil _
  | some p => exact h (.finish p.1 p.2) (by simp [strips,later,hf])

lemma openMark?_carrying {m : OpenMark} (hb : ∀ c ∈ m.indent, isBlank c) {rest : List Char}
    (h : rest.head? = some '[') :
    openMark? (m.indent ++ '/' :: '*' :: '*' :: (m.margin ++ rest)) = some { m with after := rest } := by
  obtain ⟨tail,rfl⟩ := head?_eq_some_iff.mp h
  have hs : isBlank '/' = false := by decide
  have hd : (m.indent ++ '/' :: '*' :: '*' :: (m.margin ++ '[' :: tail)).dropWhile isBlank =
      '/' :: '*' :: '*' :: (m.margin ++ '[' :: tail) := by
    rw [dropWhile_append_of_pos hb,dropWhile_cons_of_neg (by simp [hs])]
  have ht : (m.indent ++ '/' :: '*' :: '*' :: (m.margin ++ '[' :: tail)).takeWhile isBlank = m.indent := by
    rw [takeWhile_append_of_pos hb,takeWhile_cons_of_neg (by simp [hs]),append_nil]
  rw [openMark?,hd,ht]
  obtain ⟨ind,spaced,after⟩ := m
  cases spaced <;> rfl

variable {r : Remark} {label : List Char}

section

variable (h : r.Shaped)

include h

lemma not_mem_lastIndent {c : Char} (hc : isIndentChar c = false) : c ∉ r.lastIndent :=
  fun hm => Bool.false_ne_true (hc.symm.trans (h.last c hm))

lemma splitClose_lastIndent : splitClose r.lastIndent = none :=
  splitClose_of_no_star (not_mem_lastIndent h (by decide))

lemma blank_trail : ∀ c ∈ r.trail, isBlank c = true := by
  have hi {c : Char} (hc : isIndentChar c = true) : isBlank c := by
    have hcs : c = ' ' ∨ c = '\t' := by simpa [isIndentChar,Pattern.oneOf] using hc
    rcases hcs with rfl | rfl <;> decide
  rw [trail]
  split
  · exact fun c hc => hi (h.last c hc)
  · exact forall_mem_singleton.mpr rfl

lemma no_feed_head : '\n' ∉ r.mark.indent ++ '/' :: '*' :: '*' :: r.mark.margin := by
  have hm : '\n' ∉ r.mark.margin := by
    rw [OpenMark.margin]
    split <;> decide
  simp [h.no_feed,hm]

lemma cutText_one_line (hl : IsLabel label) (he : lineEnd r.mark.after = []) (n : Nat) (rest : List Char) :
  ∃ q, r.Rereads label q ∧ cutText n (r.carrying label ++ rest) = q.strips ++ cutText n rest := by
  have hs : splitClose (label ++ r.lastIndent) = none := by
    refine splitClose_none_append hl.no_close (splitClose_lastIndent h) (.inr fun hh => ?_)
    exact not_mem_lastIndent h (by decide) (mem_of_head? hh)
  obtain ⟨tail,ht⟩ := head?_eq_some_iff.mp hl.head
  have hb : ¬ (label ++ r.lastIndent).all isIndentChar := by
    rw [ht]
    exact fun ha => absurd (all_eq_true.mp ha '[' mem_cons_self) (by decide)
  have hc (l : List Char) : closeMark? (label ++ r.lastIndent ++ '*' :: '/' :: l) =
      some ⟨label ++ r.lastIndent,none,l⟩ := by
    rw [closeMark?_found hs,if_neg hb]
  have ho (l : List Char) : openMark? (r.carrying label ++ l) =
      some { r.mark with after := label ++ r.lastIndent ++ '*' :: '/' :: l } := by
    rw [← openMark?_carrying h.blank (by simp [ht]),carrying,he]
    simp
  let q : Remark := ⟨n,{ r.mark with after := label ++ r.lastIndent },[],some (n,none)⟩
  have hct (l : List Char) : cutLine n false (r.carrying label ++ l) =
      (cutOutside n l).precede q.strips := by
    rw [cutLine,cutOutside_open n (ho l),cutInside_close n _ (hc l)]
    rfl
  have hf : '\n' ∉ r.carrying label := by
    have hp : r.carrying label = (r.mark.indent ++ '/' :: '*' :: '*' :: r.mark.margin) ++
        (label ++ (r.lastIndent ++ ['*','/'])) := by
      simp [carrying,he]
    rw [hp]
    exact not_mem_append (no_feed_head h) (not_mem_append hl.no_feed
      (not_mem_append (not_mem_lastIndent h (by decide)) (by decide)))
  have hne : r.carrying label ≠ [] := by simp [carrying]
  refine ⟨q,⟨rfl,rfl,?_⟩,cutFrom_front hf hne hct rest⟩
  rw [trail,if_pos he]
  exact append_nil _

lemma cutText_two_lines (hl : IsLabel label) (he : lineEnd r.mark.after = ['\n']) (n : Nat) (rest : List Char) :
  ∃ q, r.Rereads label q ∧ cutText n (r.carrying label ++ rest) = q.strips ++ cutText (n + 1) rest := by
  have hf : splitClose (label ++ ['\n']) = none :=
    splitClose_none_append hl.no_close (by decide) (.inr (by decide))
  obtain ⟨tail,ht⟩ := head?_eq_some_iff.mp hl.head
  have ho : openMark? (r.mark.indent ++ '/' :: '*' :: '*' :: (r.mark.margin ++ (label ++ ['\n']))) =
      some { r.mark with after := label ++ ['\n'] } :=
    openMark?_carrying h.blank (by simp [ht])
  have hc (l : List Char) : closeMark? (r.lastIndent ++ ['*','/'] ++ l) = some ⟨[],some r.lastIndent,l⟩ := by
    rw [append_assoc,cons_append,cons_append,nil_append,closeMark?_found (splitClose_lastIndent h),
      if_pos (all_eq_true.mpr h.last)]
  have hct (l : List Char) : cutLine (n + 1) true (r.lastIndent ++ ['*','/'] ++ l) =
      (cutOutside (n + 1) l).precede [.finish (n + 1) (some r.lastIndent)] := by
    rw [cutLine,cutInside_close (n + 1) _ (hc l)]
    rfl
  have hfd : '\n' ∉ r.lastIndent ++ ['*','/'] := not_mem_append (not_mem_lastIndent h (by decide)) (by decide)
  have hln : '\n' ∉ r.mark.indent ++ '/' :: '*' :: '*' :: r.mark.margin ++ label :=
    not_mem_append (no_feed_head h) hl.no_feed
  have hp : r.carrying label ++ rest = (r.mark.indent ++ '/' :: '*' :: '*' :: r.mark.margin ++ label) ++
      '\n' :: (r.lastIndent ++ ['*','/'] ++ rest) := by
    simp [carrying,he]
  have hs : r.mark.indent ++ '/' :: '*' :: '*' :: r.mark.margin ++ label ++ ['\n'] =
      r.mark.indent ++ '/' :: '*' :: '*' :: (r.mark.margin ++ (label ++ ['\n'])) := by
    simp
  rw [hp,cutText,fileLinesFrom_line hln,reverse_nil,nil_append,cutFrom,hs,cutLine,
    cutOutside_open n ho,cutInside_body n _ (by rw [closeMark?,hf]; rfl),
    cutFrom_front hfd (by simp) hct]
  refine ⟨⟨n,{ r.mark with after := label ++ ['\n'] },[],some (n + 1,some r.lastIndent)⟩,⟨rfl,rfl,?_⟩,rfl⟩
  rw [trail,he,if_neg (cons_ne_nil _ _)]
  exact append_nil _

lemma cutText_carrying (hl : IsLabel label) (n : Nat) (rest : List Char) :
  ∃ n' q, r.Rereads label q ∧ cutText n (r.carrying label ++ rest) = q.strips ++ cutText n' rest := by
  rcases h.ending with he | he
  · exact ⟨n,cutText_one_line h hl he n rest⟩
  · exact ⟨n + 1,cutText_two_lines h hl he n rest⟩

end

end Remark

inductive Rereads : List Passage → List String → List Passage → Prop
  | nil : Rereads [] [] []
  | code {n n' : Nat} {cs : List Char} {ps qs : List Passage} {ls : List String} (h : Rereads ps ls qs) :
      Rereads (.code n cs :: ps) ls (.code n' cs :: qs)
  | comment {r q : Remark} {l : String} {ps qs : List Passage} {ls : List String}
      (hq : r.Rereads l.toList q) (h : Rereads ps ls qs) : Rereads (.comment r :: ps) (l :: ls)
        (.comment q :: qs)

section

variable {ps qs : List Passage} {ls : List String} {r : Remark}

lemma Rereads.composed (h : Rereads ps ls qs) : Composed qs := by
  induction h with
  | nil => trivial
  | code _ ih => exact ⟨.inl rfl,ih⟩
  | comment hq _ ih => exact ⟨.inl hq.finished,ih⟩

lemma Rereads.gaps (h : Rereads ps ls qs) :
    gaps (qs.flatMap Passage.strips) = gaps (ps.flatMap Passage.strips) := by
  induction h with
  | nil => rfl
  | code _ ih =>
    rw [flatMap_cons,flatMap_cons,Passage.strips,Passage.strips,singleton_append,
      singleton_append,Comment.gaps,Comment.gaps,ih]
  | comment _ _ ih =>
    rw [flatMap_cons,flatMap_cons,Passage.strips,Passage.strips,(Remark.gaps_strips _ _).1,
      (Remark.gaps_strips _ _).1,ih]

def OnlyLabel (label : String) (x : Tree.Extracted) : Prop :=
  ∃ blank : String, x.text = some (label ++ blank) ∧ ∀ c ∈ blank.toList, isBlank c = true

lemma shaped_remark (h : ∀ s ∈ ps.flatMap Passage.strips, s.Shaped) (hr : .comment r ∈ ps) : r.Shaped :=
  Remark.shaped fun s hs => h s (mem_flatMap.mpr ⟨_,hr,hs⟩)

lemma Rereads.onlyLabels (h : Rereads ps ls qs) (hps : ∀ s ∈ ps.flatMap Passage.strips, s.Shaped) :
  Forall₂ OnlyLabel ls (extracts qs) := by
  induction h with
  | nil => exact .nil
  | code _ ih =>
    rw [flatMap_cons,forall_mem_append] at hps
    exact ih hps.2
  | @comment r q l _ _ _ hq _ ih =>
    have hr := shaped_remark hps mem_cons_self
    rw [flatMap_cons,forall_mem_append] at hps
    refine .cons ⟨ofList r.trail,?_,by rw [toList_ofList]; exact r.blank_trail hr⟩ (ih hps.2)
    rw [Remark.extracted,hq.words,String.ofList_append,String.ofList_toList]

lemma eq_nil_of_strips (h : ps.flatMap Passage.strips = []) : ps = [] := by
  cases ps with
  | nil => rfl
  | cons p ps =>
    rw [flatMap_cons,append_eq_nil_iff] at h
    cases p <;> cases h.1

lemma exists_rereads (hc : CodeLines (ps.flatMap Passage.strips))
    (hps : ∀ s ∈ ps.flatMap Passage.strips, s.Shaped)
  (hln : ls.length = (extracts ps).length) (hls : ∀ l ∈ ls, IsLabel l.toList) (n : Nat) :
  ∃ qs, qs.flatMap Passage.strips = cutText n (labelled ps ls).toList ∧ Rereads ps ls qs := by
  induction ps generalizing ls n with
  | nil =>
    obtain rfl := eq_nil_of_length_eq_zero hln
    exact ⟨[],rfl,.nil⟩
  | cons p ps ih =>
    have hrs := hps
    rw [flatMap_cons,forall_mem_append] at hrs
    cases p with
    | code m cs =>
      obtain ⟨ho,hli,hc'⟩ := hc
      obtain ⟨qs,hqs,hrr⟩ := ih hc' hrs.2 hln hls (n + 1)
      refine ⟨.code n cs :: qs,?_,hrr.code⟩
      rw [labelled,toList_append,toList_ofList,flatMap_cons,hqs]
      rcases hli with ⟨l,hl,rfl⟩ | ⟨hl,hn⟩
      · rw [append_assoc,singleton_append,cutText_line hl ho]
        rfl
      obtain rfl := eq_nil_of_strips hn
      have hne : cs ≠ [] := hrs.1 _ mem_cons_self
      have he : (labelled [] ls).toList = [] := rfl
      rw [he,append_nil,cutText_last hl hne ho]
      rfl
    | comment r =>
      obtain _ | ⟨l,ls⟩ := ls
      · cases hln
      rw [forall_mem_cons] at hls
      rw [flatMap_cons,Passage.strips,(r.gaps_strips _).2] at hc
      have hr := shaped_remark hps mem_cons_self
      rw [labelled,toList_append,toList_ofList]
      obtain ⟨n',q,hq,hct⟩ := Remark.cutText_carrying hr hls.1 n (labelled ps ls).toList
      obtain ⟨qs,hqs,hrr⟩ := ih hc hrs.2 (Nat.succ.inj hln) hls.2 n'
      refine ⟨.comment q :: qs,?_,hrr.comment hq⟩
      rw [flatMap_cons,hqs,hct]
      rfl

lemma mem_carrying {label : List Char} {c : Char} (h : c ∈ r.carrying label) :
  c ∈ r.chars ∨ c ∈ label ∨ c ∈ ['*','/'] := by
  have hs : ∀ d ∈ r.mark.head ++ r.mark.after, d ∈ r.chars := by
    intro d hd
    exact mem_flatMap.mpr ⟨_,mem_cons_self,hd⟩
  simp only [Remark.carrying,mem_append] at h
  rcases h with (((((h | h) | h) | h) | h) | h) | h
  · exact .inl (hs c (by simp [OpenMark.head,h]))
  · exact .inr (.inr (by simpa [or_comm] using h))
  · exact .inl (hs c (by simp [OpenMark.head,h]))
  · exact .inr (.inl h)
  · refine .inl (hs c (mem_append_right _ ?_))
    rw [← bodyText_append_lineEnd r.mark.after]
    exact mem_append_right _ h
  · refine .inl ?_
    rw [Remark.lastIndent] at h
    cases hf : r.finish with
    | none => rw [hf] at h; cases h
    | some p =>
      rw [hf] at h
      refine mem_flatMap.mpr ⟨.finish p.1 p.2,by simp [Remark.strips,Remark.later,hf],?_⟩
      exact mem_append_left _ h
  · exact .inr (.inr h)

lemma not_mem_labelled {c : Char} (hc : c ∉ ['*','/'])
    (hps : c ∉ (ps.flatMap Passage.strips).flatMap Strip.chars)
  (hls : ∀ l ∈ ls, c ∉ l.toList) : c ∉ (labelled ps ls).toList := by
  induction ps generalizing ls with
  | nil => exact not_mem_nil
  | cons p ps ih =>
    rw [flatMap_cons,flatMap_append,mem_append,not_or] at hps
    cases p with
    | code n cs =>
      have hcs : c ∉ cs := by simpa [Passage.strips,Strip.chars] using hps.1
      rw [labelled,toList_append,toList_ofList]
      exact not_mem_append hcs (ih hps.2 hls)
    | comment r =>
      cases ls with
      | nil => exact not_mem_nil
      | cons l ls =>
        rw [forall_mem_cons] at hls
        rw [labelled,toList_append,toList_ofList]
        refine not_mem_append (fun hm => ?_) (ih hps.2 hls.2)
        rcases mem_carrying hm with h | h | h
        · exact hps.1 h
        · exact hls.1 h
        · exact hc h

end

section

variable {text : String} {ps : List Passage}

lemma IsSource.shaped (h : IsSource text ps) : ∀ s ∈ ps.flatMap Passage.strips, s.Shaped := by
  rw [h.asRead.2]
  exact shaped_cutFrom (withinLine_fileLines h.asRead.1.no_escapes.1) 1 false

lemma IsSource.codeLines (h : IsSource text ps) : CodeLines (ps.flatMap Passage.strips) := by
  rw [h.asRead.2]
  exact codeLines_cutFrom _ _ _

end

structure Inline (s : String) : Prop where
  no_feed : '\n' ∉ s.toList
  no_return : '\r' ∉ s.toList
  no_tab : '\t' ∉ s.toList
  no_close : ¬ ['*','/'] <:+: s.toList

instance (s : String) : Decidable (Inline s) :=
  decidable_of_iff ('\n' ∉ s.toList ∧ '\r' ∉ s.toList ∧ '\t' ∉ s.toList ∧ ¬ ['*','/'] <:+: s.toList)
    ⟨fun ⟨h1,h2,h3,h4⟩ => ⟨h1,h2,h3,h4⟩,fun h => ⟨h.no_feed,h.no_return,h.no_tab,h.no_close⟩⟩

lemma exists_source_labelled {text : String} {ps : List Passage} {ls : List String}
  (hs : IsSource text ps) (hln : ls.length = (extracts ps).length)
  (hls : ∀ l ∈ ls, Inline l ∧ l.toList.head? = some '[') :
  ∃ qs, IsSource (labelled ps ls) qs ∧ Rereads ps ls qs ∧ Forall₂ OnlyLabel ls (extracts qs) := by
  have hlb (l : String) (hl : l ∈ ls) : IsLabel l.toList :=
    ⟨(hls l hl).2,(hls l hl).1.no_feed,splitClose_eq_none_iff.mpr (hls l hl).1.no_close⟩
  obtain ⟨qs,hqs,hrr⟩ :=
    exists_rereads hs.codeLines hs.shaped hln hlb 1
  have hr := hs.asRead.1
  refine ⟨qs,⟨hrr.composed,?_⟩,hrr,hrr.onlyLabels hs.shaped⟩
  have ht : '\t' ∉ (labelled ps ls).toList :=
    not_mem_labelled (by decide) hr.no_escapes.2 fun l hl => (hls l hl).1.no_tab
  have hrt : '\r' ∉ (labelled ps ls).toList :=
    not_mem_labelled (by decide) hr.no_escapes.1 fun l hl => (hls l hl).1.no_return
  obtain ⟨cs',hr',hli'⟩ := readLines_asRead (by decide : (0 : Int) < 4) (labelled ps ls)
  rw [hqs,hli',hr'.eq ht hrt]
  rfl

lemma length_labels (path : String) (ns : List String) : (labels path ns).length = ns.length := by
  induction ns generalizing path with
  | nil => rfl
  | cons name ns ih => rw [labels,length_cons,ih,length_cons]

lemma head_label (path name : String) : (label path name).toList.head? = some '[' := by
  simp [label]

lemma inline_empty : Inline "" := by
  refine ⟨not_mem_nil,not_mem_nil,not_mem_nil,fun h => ?_⟩
  exact absurd (infix_nil.mp h) (by decide)

lemma inline_label {path name : String} (hpt : Inline path) (hnm : Inline name) : Inline (label path name) := by
  have hc : (label path name).toList =
      ['[','d','o','c',':','/','/'] ++ (path.toList ++ ('#' :: (name.toList ++ [']']))) := by
    simp [label]
  have hnt {c : Char} (hf : c ∉ ['[','d','o','c',':','/','/']) (hh : c ≠ '#') (he : c ≠ ']')
      (hp : c ∉ path.toList) (hn : c ∉ name.toList) : c ∉ (label path name).toList := by
    rw [hc]
    simp only [mem_append,mem_cons,not_mem_nil,not_or] at hf ⊢
    exact ⟨hf,hp,hh,hn,he,not_false⟩
  refine ⟨hnt (by decide) (by decide) (by decide) hpt.no_feed hnm.no_feed,
    hnt (by decide) (by decide) (by decide) hpt.no_return hnm.no_return,
    hnt (by decide) (by decide) (by decide) hpt.no_tab hnm.no_tab,?_⟩
  have hl : splitClose (name.toList ++ [']']) = none :=
    splitClose_none_append (splitClose_eq_none_iff.mpr hnm.no_close) (by decide) (.inr (by decide))
  have hh : splitClose (['#'] ++ (name.toList ++ [']'])) = none :=
    splitClose_none_append (by decide) hl (.inl (by decide))
  have hr : splitClose (path.toList ++ ('#' :: (name.toList ++ [']']))) = none :=
    splitClose_none_append (splitClose_eq_none_iff.mpr hpt.no_close) hh (.inr (by simp))
  rw [← splitClose_eq_none_iff,hc]
  exact splitClose_none_append (by decide) hr (.inl (by decide))

lemma inline_labels {path : String} {ns : List String} (hp : Inline path)
  (hn : ∀ name ∈ ns, Inline name) : ∀ l ∈ labels path ns, Inline l ∧ l.toList.head? = some '[' := by
  induction ns generalizing path with
  | nil => exact forall_mem_nil _
  | cons name ns ih =>
    rw [forall_mem_cons] at hn
    rw [labels,forall_mem_cons]
    exact ⟨⟨inline_label hp hn.1,head_label _ _⟩,ih inline_empty hn.2⟩

end Comment

namespace Tree

open Comment

lemma stands_extracted {p : Passage} {e : Element} (h : IsExtractedPassage p e) : Stands p e := by
  cases p with
  | code n cs => exact ⟨IsLine.tag_ne h,IsLine.text h⟩
  | comment r => exact (IsExtracted.toSettledHead h).tag

end Tree

namespace Job

open Comment Docweave.Tree Files

def adding (add : Extracted → Act Job String) (x : Extracted) : Act (Job × String) String :=
  (add x).within Prod.fst fun j s => (j,s.2)

def isTerminated (e : Element) : Bool :=
  e.tag != "comment" || (partText "finish" "symbol" e).toOption.isSome

section

variable {ps : List Passage} {es : List Element} {ns names : List String} {add : Extracted → Act Job String}
  {j j' : Job}

lemma closed_of_terminated (hes : Forall₂ IsExtractedPassage ps es)
  (h : ∀ e ∈ es, isTerminated e) : ∀ p ∈ ps, p.closed := by
  induction hes with
  | nil => exact forall_mem_nil _
  | @cons p e ps es he _ ih =>
    rw [forall_mem_cons] at h ⊢
    refine ⟨?_,ih h.2⟩
    cases p with
    | code n cs => rfl
    | comment r =>
      have hr : IsExtracted r e := he
      cases hf : r.finish with
      | some p => exact congrArg Option.isSome hf
      | none =>
        have hfn := h.1
        rw [isTerminated,hr.tag,partText_unfinished hr hf] at hfn
        cases hfn

lemma extractEach_labelled (hes : Forall₂ IsExtractedPassage ps es)
  (hc : ∀ p ∈ ps, p.closed) (h : ((extracts ps).mapM add).perform j = (.ok ns,j'))
  (path out : String) : (extractEach (adding add) writeText false (some path) es).perform (j,out) =
    (.ok (),(j',out ++ labelled ps (labels path ns))) := by
  induction hes generalizing j ns path out with
  | nil =>
    cases h
    rw [labelled,String.append_empty]
    rfl
  | @cons p e ps es he _ ih =>
    rw [forall_mem_cons] at hc
    cases p with
    | code n cs =>
      rw [extractEach_code he,ih hc.2 h,String.append_assoc,labelled]
    | comment r =>
      obtain ⟨⟨m,ind⟩,hf⟩ := Option.isSome_iff_exists.mp hc.1
      rw [extracts,mapM_cons] at h
      obtain ⟨name,j1,had,hr⟩ := Act.bind_ok h
      obtain ⟨ns',j2,hn,rfl,rfl⟩ := Act.map_ok hr
      have ha : (adding add r.extracted).perform (j,out) = (.ok name,(j1,out)) :=
        congrArg (fun run : Except Fault String × Job => (run.1,(run.2,out))) had
      have hm := replacement_ok he hf path name
      have hw : (writeText (r.marked path name)).perform (j1,out) =
        (.ok (),(j1,out ++ r.marked path name)) := rfl
      rw [extractEach,Act.perform_ofExcept_bind (extracted?_comment he)]
      refine (Act.perform_bind ha _).trans ?_
      refine (Act.perform_ofExcept_bind hm _).trans ?_
      refine (Act.perform_bind hw _).trans ?_
      rw [ih hc.2 hn,labels,labelled,String.append_assoc,Remark.marked]

lemma length_of_mapM {xs : List Extracted} (h : (xs.mapM add).perform j = (.ok ns,j')) :
    ns.length = xs.length := by
  induction xs generalizing j ns with
  | nil =>
    cases h
    rfl
  | cons x xs ih =>
    rw [mapM_cons] at h
    obtain ⟨name,j1,-,hr⟩ := Act.bind_ok h
    obtain ⟨ns',j2,hn,rfl,rfl⟩ := Act.map_ok hr
    rw [length_cons,length_cons,ih hn]

theorem extracted_source_rereads {source text path : String} {xs : List Extracted}
    (hread : sourceElements source (Content.text text).lines = .ok es)
    (hclosed : ∀ e ∈ es, isTerminated e = true)
    (hcomments : sourceComments source (Content.text text).lines = .ok xs)
    (hadd : (xs.mapM add).perform j = (.ok names, j')) (hpath : Inline path)
    (hnames : ∀ name ∈ names, Inline name) :
    ∃ out es' xs', (extractEach (adding add) writeText false (some path) es).perform (j, "") =
      (.ok (), (j', out)) ∧
      sourceElements source (Content.text out).lines = .ok es' ∧ codeGaps es' = codeGaps es ∧
      sourceComments source (Content.text out).lines = .ok xs' ∧
      List.Forall₂ OnlyLabel (labels path names) xs' := by
  obtain ⟨ps, es₁, hsource, hes₁, hps⟩ := exists_source source text
  obtain rfl := Except.ok.inj (hread.symm.trans hes₁)
  obtain rfl : xs = extracts ps := Except.ok.inj (hcomments.symm.trans (sourceComments_ok hread hps))
  have hlength : (labels path names).length = (extracts ps).length := by
    rw [length_labels, length_of_mapM hadd]
  obtain ⟨qs, hsource', hreread, honly⟩ :=
    exists_source_labelled hsource hlength (inline_labels hpath hnames)
  obtain ⟨es', hes', hqs⟩ := sourceElements_ok hsource' source
  refine ⟨labelled ps (labels path names), es', extracts qs, ?_, hes', ?_, sourceComments_ok hes' hqs, honly⟩
  · rw [extractEach_labelled hps (closed_of_terminated hps hclosed) hadd path "", String.empty_append]
  · rw [codeGaps_stands (hqs.imp fun _ _ => stands_extracted), hreread.gaps,
      codeGaps_stands (hps.imp fun _ _ => stands_extracted)]

end

section

def threeComments : String := "/** a */ /** b\n */x\n  /**\n * c\n\t*/ y\n"

def markedJob : Job where
  store := { home := [], files := [], folders := [] }

def byLines (x : Extracted) : Act Job String := pure x.name

lemma threeComments_terminated :
  (sourceElements "a.h" (Content.text threeComments).lines).toOption.map (·.all isTerminated) = some true := by
  decide +kernel

lemma threeComments_names :
  (sourceComments "a.h" (Content.text threeComments).lines).toOption.map (·.map Extracted.name) =
    some ["line-1-1","line-1-2","line-3-5"] := by
  decide +kernel

end

theorem extracted_source_rereads_at_three_comments : ∃ es out es' xs',
    sourceElements "a.h" (Content.text threeComments).lines = .ok es ∧
      (extractEach (adding byLines) writeText false (some "d/m.md") es).perform (markedJob, "") =
        (.ok (), (markedJob, out)) ∧
      sourceElements "a.h" (Content.text out).lines = .ok es' ∧ codeGaps es' = codeGaps es ∧
      sourceComments "a.h" (Content.text out).lines = .ok xs' ∧
      List.Forall₂ OnlyLabel ["[doc://d/m.md#line-1-1]", "[doc://#line-1-2]",
        "[doc://#line-3-5]"] xs' := by
  obtain ⟨es, hes, hall⟩ := Option.map_eq_some_iff.mp threeComments_terminated
  obtain ⟨xs, hxs, hnames⟩ := Option.map_eq_some_iff.mp threeComments_names
  have hadd : (xs.mapM byLines).perform markedJob =
      (.ok ["line-1-1", "line-1-2", "line-3-5"], markedJob) := by
    rw [← hnames, show byLines = fun x => pure x.name from rfl, mapM_pure]
    rfl
  have hpath : Inline "d/m.md" := by decide
  obtain ⟨out, es', xs', hrun, hrest⟩ := extracted_source_rereads (ok_of_toOption hes)
    (all_eq_true.mp hall) (ok_of_toOption hxs) hadd hpath (by decide)
  exact ⟨es, out, es', xs', ok_of_toOption hes, hrun, hrest⟩

theorem extracted_source_rereads_fails_at_tab : ∃ es out xs',
    sourceElements "a.h" (Content.text "/** a */").lines = .ok es ∧
      (extractEach (adding byLines) writeText false (some "p\tq") es).perform (markedJob, "") =
        (.ok (), (markedJob, out)) ∧ sourceComments "a.h" (Content.text out).lines = .ok xs' ∧
      ¬ List.Forall₂ OnlyLabel ["[doc://p\tq#line-1-1]"] xs' := by
  have hes : (sourceElements "a.h" (Content.text "/** a */").lines).toOption.map (fun es =>
      (es.all isTerminated, ((extractEach (adding byLines) writeText false (some "p\tq") es).perform
        (markedJob, "")).2.2)) = some (true, "/** [doc://p\tq#line-1-1]*/") := by
    decide +kernel
  have hxs : (sourceComments "a.h" (Content.text "/** [doc://p\tq#line-1-1]*/").lines).toOption.map
      (·.map Extracted.text) = some [some "[doc://p    q#line-1-1]"] := by
    decide +kernel
  obtain ⟨es, hes, hout⟩ := Option.map_eq_some_iff.mp hes
  obtain ⟨hall, hout⟩ := Prod.mk.inj hout
  obtain ⟨xs, hxs, htexts⟩ := Option.map_eq_some_iff.mp hxs
  obtain ⟨ps, es₁, hsource, hes₁, hps⟩ := exists_source "a.h" "/** a */"
  obtain rfl := Except.ok.inj ((ok_of_toOption hes).symm.trans hes₁)
  have hadd : ((extracts ps).mapM byLines).perform markedJob =
      (.ok ((extracts ps).map Extracted.name), markedJob) := by
    rw [show byLines = fun x => pure x.name from rfl, mapM_pure]
    rfl
  have hrun := extractEach_labelled hps (closed_of_terminated hps (all_eq_true.mp hall)) hadd "p\tq" ""
  rw [hrun] at hout
  dsimp only at hout
  rw [hout] at hrun
  refine ⟨es, _, xs, ok_of_toOption hes, hrun, ok_of_toOption hxs, ?_⟩
  rintro (_ | ⟨⟨blank, htext, -⟩, _⟩)
  rw [map_cons, htext] at htexts
  have hsame := congrArg String.toList (Option.some.inj (cons.inj htexts).1)
  have htab : '\t' ∈ ("[doc://p\tq#line-1-1]" ++ blank).toList := by simp
  rw [hsame] at htab
  exact absurd htab (by decide)

end Job

end Docweave
