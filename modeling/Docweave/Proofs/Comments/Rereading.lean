import Docweave.Files.Content
import Docweave.Proofs.Comments.Blocks
import Docweave.Proofs.Comments.Outline
import Docweave.Proofs.Comments.SourceLines
import Docweave.Proofs.Comments.TreeComments

namespace Docweave.Comment

open Text List

variable {ps : List Portion}

inductive AsRead : List Char → List Char → Prop
  | nil : AsRead [] []
  | keep {c : Char} {cs cs' : List Char} : c ≠ '\t' → c ≠ '\r' → AsRead cs cs' →
      AsRead (c :: cs) (c :: cs')
  | tab {cs cs' : List Char} (k : Nat) : AsRead cs cs' →
      AsRead ('\t' :: cs) (replicate (k + 1) ' ' ++ cs')
  | cr {cs cs' : List Char} : AsRead cs cs' → AsRead ('\r' :: cs) ('\n' :: cs')
  | crlf {cs cs' : List Char} : AsRead cs cs' → AsRead ('\r' :: '\n' :: cs) ('\n' :: cs')

namespace AsRead

variable {cs cs' : List Char}

lemma append {a a' b b' : List Char} (ha : AsRead a a') (hb : AsRead b b') : AsRead (a ++ b) (a' ++ b') := by
  induction ha with
  | nil => exact hb
  | keep ht hr _ ih => exact .keep ht hr ih
  | tab k _ ih =>
    rw [append_assoc]
    exact .tab k ih
  | cr _ ih => exact .cr ih
  | crlf _ ih => exact .crlf ih

lemma eq (h : AsRead cs cs') (ht : '\t' ∉ cs) (hr : '\r' ∉ cs) : cs' = cs := by
  induction h with
  | nil => rfl
  | keep _ _ _ ih =>
    rw [ih (fun h => ht (mem_cons_of_mem _ h)) fun h => hr (mem_cons_of_mem _ h)]
  | tab => exact absurd mem_cons_self ht
  | cr => exact absurd mem_cons_self hr
  | crlf => exact absurd mem_cons_self hr

lemma getLast?_of_cons {c : Char} (h : (c :: cs).getLast? ≠ some '\r') : cs.getLast? ≠ some '\r' := by
  cases cs with
  | nil => simp
  | cons d cs => rwa [getLast?_cons_cons] at h

lemma split {a b x : List Char} (h : AsRead (a ++ b) x) (ha : a.getLast? ≠ some '\r') :
  ∃ a' b', x = a' ++ b' ∧ AsRead a a' ∧ AsRead b b' := by
  generalize hcs : a ++ b = cs at h
  induction h generalizing a with
  | nil =>
    obtain ⟨rfl,rfl⟩ := append_eq_nil_iff.mp hcs
    exact ⟨[],[],rfl,.nil,.nil⟩
  | @keep c cs cs' ht hr hrd ih =>
    cases a with
    | nil =>
      subst hcs
      exact ⟨[],_,rfl,.nil,.keep ht hr hrd⟩
    | cons d a =>
      obtain ⟨rfl,htl⟩ := cons.inj hcs
      obtain ⟨a',b',rfl,ha',hb'⟩ := ih (getLast?_of_cons ha) htl
      exact ⟨_ :: a',b',rfl,.keep ht hr ha',hb'⟩
  | @tab cs cs' k hrd ih =>
    cases a with
    | nil =>
      subst hcs
      exact ⟨[],_,rfl,.nil,.tab k hrd⟩
    | cons d a =>
      obtain ⟨rfl,htl⟩ := cons.inj hcs
      obtain ⟨a',b',rfl,ha',hb'⟩ := ih (getLast?_of_cons ha) htl
      exact ⟨_,b',(append_assoc _ _ _).symm,.tab k ha',hb'⟩
  | @cr cs cs' hrd ih =>
    cases a with
    | nil =>
      subst hcs
      exact ⟨[],_,rfl,.nil,.cr hrd⟩
    | cons d a =>
      obtain ⟨rfl,htl⟩ := cons.inj hcs
      obtain ⟨a',b',rfl,ha',hb'⟩ := ih (getLast?_of_cons ha) htl
      exact ⟨_ :: a',b',rfl,.cr ha',hb'⟩
  | @crlf cs cs' hrd ih =>
    match a with
    | [] =>
      subst hcs
      exact ⟨[],_,rfl,.nil,.crlf hrd⟩
    | [d] =>
      cases hcs
      exact absurd rfl ha
    | d :: e :: a =>
      obtain ⟨rfl,htl⟩ := cons.inj hcs
      obtain ⟨rfl,hrs⟩ := cons.inj htl
      obtain ⟨a',b',rfl,ha',hb'⟩ := ih (getLast?_of_cons (getLast?_of_cons ha)) hrs
      exact ⟨_ :: a',b',rfl,.crlf ha',hb'⟩

lemma head_slash (h : AsRead cs cs') : cs'.head? = some '/' ↔ cs.head? = some '/' := by
  cases h with
  | nil => exact Iff.rfl
  | keep => exact Iff.rfl
  | tab k => simp [replicate_succ]
  | cr => simp
  | crlf => simp

lemma splitClose_after (h : AsRead cs cs') :
  ((splitClose cs).map Prod.snd = none ∧ (splitClose cs').map Prod.snd = none) ∨
    ∃ after after', (splitClose cs).map Prod.snd = some after ∧
      (splitClose cs').map Prod.snd = some after' ∧ AsRead after after' := by
  induction h with
  | nil => exact Or.inl ⟨rfl,rfl⟩
  | @keep c cs cs' ht hr hrd ih =>
    by_cases hc : c = '*' ∧ cs.head? = some '/'
    · obtain ⟨rfl,hs⟩ := hc
      obtain ⟨rest,rfl⟩ := head?_eq_some_iff.mp hs
      cases hrd with
      | keep _ _ hrs => exact Or.inr ⟨_,_,rfl,rfl,hrs⟩
    · rw [not_and] at hc
      rw [splitClose_skip hc,splitClose_skip fun h hs => hc h (hrd.head_slash.mp hs)]
      exact ih
  | @tab cs cs' k hrd ih =>
    have hsp (k : Nat) : (splitClose (replicate k ' ' ++ cs')).map Prod.snd = (splitClose cs').map Prod.snd := by
      induction k with
      | zero => rfl
      | succ k ihk => rw [replicate_succ,cons_append,splitClose_skip (by simp),ihk]
    rw [splitClose_skip (by simp),hsp]
    exact ih
  | cr hrd ih =>
    rw [splitClose_skip (by simp),splitClose_skip (by simp)]
    exact ih
  | crlf hrd ih =>
    rw [splitClose_skip (by simp),splitClose_skip (by simp),splitClose_skip (by simp)]
    exact ih

lemma eq_nil_iff (h : AsRead cs cs') : cs' = [] ↔ cs = [] := by
  cases h <;> simp

lemma closesEarly_iff (h : AsRead cs cs') : ClosesEarly cs' ↔ ClosesEarly cs := by
  rw [Comment.closesEarly_iff,Comment.closesEarly_iff]
  rcases h.splitClose_after with ⟨hn,hn'⟩ | ⟨after,after',hs,hs',hr⟩
  · simp only [hn,hn']
  · simp [hs,hs',hr.eq_nil_iff]

lemma endsLine (h : AsRead cs cs') (he : EndsLine cs) : EndsLine cs' := by
  induction h with
  | nil => exact he
  | @keep c cs cs' ht hr hrd ih =>
    rcases endsLine_of_cons he with ⟨rfl,rfl⟩ | he
    · cases hrd
      exact ⟨[],rfl⟩
    · obtain ⟨l,rfl⟩ := ih he
      exact ⟨c :: l,rfl⟩
  | tab k hrd ih =>
    obtain ⟨l,rfl⟩ := ih ((endsLine_of_cons he).resolve_left (by simp))
    exact ⟨_,(append_assoc _ _ _).symm⟩
  | cr hrd ih =>
    obtain ⟨l,rfl⟩ := ih ((endsLine_of_cons he).resolve_left (by simp))
    exact ⟨'\n' :: l,rfl⟩
  | @crlf cs cs' hrd ih =>
    have hf : EndsLine ('\n' :: cs) := (endsLine_of_cons he).resolve_left (by simp)
    rcases endsLine_of_cons hf with ⟨rfl,-⟩ | he
    · cases hrd
      exact ⟨[],rfl⟩
    · obtain ⟨l,rfl⟩ := ih he
      exact ⟨'\n' :: l,rfl⟩

lemma rendered (h : AsRead cs cs') (hr : Rendered cs) : Rendered cs' := by
  obtain ⟨k,body,k',rfl,hh,he⟩ := hr
  obtain ⟨rest,hb⟩ : ∃ rest, body = ' ' :: rest ∨ body = '\n' :: rest := by
    rcases hh with hh | hh
    · obtain ⟨rest,rfl⟩ := head?_eq_some_iff.mp hh
      exact ⟨rest,Or.inl rfl⟩
    · obtain ⟨rest,rfl⟩ := head?_eq_some_iff.mp hh
      exact ⟨rest,Or.inr rfl⟩
  have hs : replicate k ' ' ++ '/' :: '*' :: '*' :: (body ++ replicate k' ' ' ++ ['*','/']) =
      (replicate k ' ' ++ ['/','*','*']) ++ (body ++ (replicate k' ' ' ++ ['*','/'])) := by
    simp
  rw [hs] at h
  obtain ⟨front,later,rfl,hf,hl⟩ := h.split (by simp)
  obtain rfl := hf.eq (by simp) (by simp)
  obtain ⟨body',tail,rfl,hb',ht⟩ := hl.split (by
    obtain ⟨l,rfl⟩ := he
    simp)
  obtain rfl := ht.eq (by simp) (by simp)
  refine ⟨k,body',k',by simp,?_,hb'.endsLine he⟩
  rcases hb with rfl | rfl
  · cases hb' with
    | keep => exact Or.inl rfl
  · cases hb' with
    | keep => exact Or.inr rfl

lemma of_normalized {x : List Char} (h : AsRead (normalizeNewlines cs) x) : AsRead cs x := by
  have hf {cs x : List Char} (h : AsRead ('\n' :: cs) x) : ∃ x', x = '\n' :: x' ∧ AsRead cs x' := by
    cases h with
    | keep _ _ h => exact ⟨_,rfl,h⟩
  fun_induction normalizeNewlines cs generalizing x with
  | case1 rest ih =>
    obtain ⟨x',rfl,h'⟩ := hf h
    exact .crlf (ih h')
  | case2 rest hne ih =>
    obtain ⟨x',rfl,h'⟩ := hf h
    exact .cr (ih h')
  | case3 c rest _ hcr ih =>
    generalize normalizeNewlines rest = y at h ih
    cases h with
    | keep ht hr h => exact .keep ht hr (ih h)
    | tab k h => exact .tab k (ih h)
    | cr h => exact absurd rfl hcr
    | crlf h => exact absurd rfl hcr
  | case4 => exact h

lemma expanded {size : Nat} (hs : 0 < size) (col : Nat) (hr : '\r' ∉ cs) :
    AsRead cs (expandTabsFrom size col cs) := by
  fun_induction expandTabsFrom size col cs with
  | case1 => exact .nil
  | case2 col rest w ih =>
    have hlt := Nat.mod_lt col hs
    obtain ⟨k,hk⟩ : ∃ k, w = k + 1 := Nat.exists_eq_succ_of_ne_zero (by
      simp only [w]
      split <;> omega)
    rw [hk]
    rw [hk] at ih
    exact .tab k (ih fun h => hr (mem_cons_of_mem _ h))
  | case3 col c rest hc ih =>
    exact .keep hc (fun h => hr (by rw [h]; exact mem_cons_self)) (ih fun h => hr (mem_cons_of_mem _ h))

end AsRead

lemma no_return_normalized (cs : List Char) : '\r' ∉ normalizeNewlines cs := by
  fun_induction normalizeNewlines cs with
  | case1 rest ih => simpa using ih
  | case2 rest hne ih => simpa using ih
  | case3 c rest hne hcr ih =>
    rw [mem_cons,not_or]
    exact ⟨fun h => hcr h.symm,ih⟩
  | case4 => simp

lemma expandTabsFrom_line (size col : Nat) (l : List Char) :
  expandTabsFrom size col (l ++ ['\n']) = expandTabsFrom size col l ++ ['\n'] := by
  fun_induction expandTabsFrom size col l with
  | case1 => rfl
  | case2 col rest w ih =>
    rw [cons_append,expandTabsFrom,ih,append_assoc]
  | case3 col c rest hc ih =>
    rw [cons_append,expandTabsFrom.eq_3 _ _ _ _ hc,ih,cons_append]

lemma no_feed_expanded (size col : Nat) {l : List Char} (h : '\n' ∉ l) : '\n' ∉ expandTabsFrom size col l := by
  fun_induction expandTabsFrom size col l with
  | case1 => simp
  | case2 col rest w ih =>
    rw [mem_cons,not_or] at h
    simp [ih h.2]
  | case3 col c rest hc ih =>
    rw [mem_cons,not_or] at h ⊢
    exact ⟨h.1,ih h.2⟩

lemma fileLinesFrom_expanded {size : Nat} (hs : 0 < size) (cs : List Char) :
  fileLinesFrom [] ((fileLinesFrom [] cs).map (expandTabsFrom size 0)).flatten =
    (fileLinesFrom [] cs).map (expandTabsFrom size 0) := by
  induction cs using byLines with
  | line l rest hl hr =>
    rw [fileLinesFrom_line hl,reverse_nil,nil_append,map_cons,
      expandTabsFrom_line,flatten_cons,append_assoc,singleton_append,
      fileLinesFrom_line (no_feed_expanded size 0 hl),hr]
    rfl
  | last cs hm =>
    by_cases hne : cs = []
    · subst hne
      rfl
    · rw [fileLinesFrom_last hm [] (Or.inr hne),reverse_nil,nil_append,map_cons,
        map_nil,flatten_cons,flatten_nil,append_nil,
        fileLinesFrom_last (no_feed_expanded size 0 hm) [] (Or.inr (expandTabsFrom_ne_nil hs 0 hne))]
      rfl

lemma asRead_lines {size : Nat} (hs : 0 < size) (ls : List (List Char)) (hr : '\r' ∉ ls.flatten) :
  AsRead ls.flatten (ls.map (expandTabsFrom size 0)).flatten := by
  induction ls with
  | nil => exact .nil
  | cons l ls ih =>
    rw [flatten_cons,mem_append,not_or] at hr
    exact (AsRead.expanded hs 0 hr.1).append (ih hr.2)

lemma readLines_asRead {tabSize : Int} (hs : 0 < tabSize) (text : String) :
  ∃ cs, AsRead text.toList cs ∧ (readLines tabSize text).map String.toList = fileLinesFrom [] cs := by
  have hsz : 0 < tabSize.toNat := by omega
  refine ⟨((fileLinesFrom [] (normalizeNewlines text.toList)).map
    (expandTabsFrom tabSize.toNat 0)).flatten,?_,?_⟩
  · have hr := no_return_normalized text.toList
    have hl := asRead_lines hsz (fileLinesFrom [] (normalizeNewlines text.toList)) (by rwa [flatten_fileLines])
    rw [flatten_fileLines] at hl
    exact hl.of_normalized
  · rw [fileLinesFrom_expanded hsz,readLines,fileLines]
    simp [expandTabs]

namespace Portion

def SeenAs : Portion → Portion → Prop
  | .code cs, .code cs' => cs' = cs
  | .comment cs, .comment cs' => AsRead cs cs'
  | _, _ => False

def Clean : Portion → Prop
  | .code cs => '\t' ∉ cs ∧ '\r' ∉ cs
  | .comment _ => True

end Portion

open Portion (SeenAs Clean)

lemma Rendered.getLast? {cs : List Char} (h : Rendered cs) : cs.getLast? ≠ some '\r' := by
  obtain ⟨k,body,k',rfl,-,-⟩ := h
  rw [← cons_append,← cons_append,← cons_append,← append_assoc,getLast?_append]
  simp

lemma seenAs_woven (h : Woven ps) (hp : ∀ p ∈ ps, p.Clean) {x : List Char}
    (hx : AsRead (ps.flatMap Portion.text) x) :
  ∃ ps', x = ps'.flatMap Portion.text ∧ Forall₂ SeenAs ps ps' ∧ Woven ps' ∧
  Portion.gaps ps' = Portion.gaps ps := by
  induction ps generalizing x with
  | nil =>
    cases hx
    exact ⟨[],rfl,.nil,trivial,rfl⟩
  | cons p ps ih =>
    have hpl : ∀ p' ∈ ps, p'.Clean := fun p' hp' => hp p' (mem_cons_of_mem _ hp')
    cases p with
    | code cs =>
      obtain ⟨ht,hr⟩ := hp _ mem_cons_self
      obtain ⟨cs',x',rfl,hcs,hx'⟩ := hx.split fun hl => hr (mem_of_getLast? hl)
      obtain rfl := hcs.eq ht hr
      obtain ⟨ps',rfl,hs,hw,hg⟩ := ih h.2.2 hpl hx'
      refine ⟨.code _ :: ps',rfl,.cons rfl hs,⟨h.1,h.2.1.imp_right fun hl => ?_,hw⟩,?_⟩
      · refine ⟨hl.1,?_⟩
        rw [hl.2] at hs
        exact forall₂_nil_left_iff.mp hs
      · rw [Portion.gaps,Portion.gaps,hg]
    | comment cs =>
      obtain ⟨cs',x',rfl,hcs,hx'⟩ := hx.split h.1.getLast?
      obtain ⟨ps',rfl,hs,hw,hg⟩ := ih h.2 hpl hx'
      refine ⟨.comment cs' :: ps',rfl,.cons hcs hs,⟨hcs.rendered h.1,hw⟩,?_⟩
      rw [Portion.gaps,Portion.gaps,hg]

lemma closesEarly_seenAs {ps' : List Portion} (h : Forall₂ SeenAs ps ps') :
  (∀ cs, .comment cs ∈ ps' → ¬ ClosesEarly cs) ↔ ∀ cs, .comment cs ∈ ps → ¬ ClosesEarly cs := by
  induction h with
  | nil => exact Iff.rfl
  | @cons p p' ps ps' hp _ ih =>
    simp only [mem_cons,or_imp,forall_and,ih]
    refine and_congr_left fun _ => ?_
    match p, p', hp with
    | .code cs, .code cs', _ => simp
    | .comment cs, .comment cs', hp =>
      simp only [Portion.comment.injEq,forall_eq]
      exact not_congr (AsRead.closesEarly_iff hp)

def CodeLines : List Strip → Prop
  | [] => True
  | .code _ cs :: ss =>
    openMark? cs = none ∧ ((∃ l, '\n' ∉ l ∧ cs = l ++ ['\n']) ∨ ('\n' ∉ cs ∧ ss = [])) ∧ CodeLines ss
  | .start _ _ :: ss => CodeLines ss
  | .middle _ _ :: ss => CodeLines ss
  | .finish _ _ :: ss => CodeLines ss

lemma codeLines_head (n : Nat) (head : Head) (cs : List Char) (ss : List Strip) :
  CodeLines (head.strips n cs ++ ss) ↔ CodeLines ss := by
  cases head with
  | opened m => exact Iff.rfl
  | inside => cases cs <;> exact Iff.rfl

lemma codeLines_cut (n : Nat) : (∀ cs, (∀ l, '\n' ∉ l → cs = l ++ ['\n'] → ∀ ss, CodeLines ss →
      CodeLines ((cutOutside n cs).strips ++ ss)) ∧
        ('\n' ∉ cs → CodeLines (cutOutside n cs).strips)) ∧
  ∀ head cs, (∀ l, '\n' ∉ l → cs = l ++ ['\n'] → ∀ ss, CodeLines ss →
      CodeLines ((cutInside n head cs).strips ++ ss)) ∧
        ('\n' ∉ cs → CodeLines (cutInside n head cs).strips) := by
  refine cut_induction ?_ ?_ ?_ ?_
  · intro cs h
    rw [cutOutside_code n h]
    constructor
    · rintro l hl rfl ss hss
      rw [if_neg (by simp)]
      exact ⟨h,Or.inl ⟨l,hl,rfl⟩,hss⟩
    · intro hln
      by_cases hcs : cs = []
      · simp [hcs,CodeLines]
      · rw [if_neg hcs]
        exact ⟨h,Or.inr ⟨hln,rfl⟩,trivial⟩
  · intro cs m h ih
    rw [cutOutside_open n h]
    constructor
    · rintro l hl rfl ss hss
      obtain ⟨l',hl',ha⟩ := after_endsLine hl h
      exact ih.1 l' hl' ha ss hss
    · intro hln
      refine ih.2 fun hm => hln ?_
      rw [← openMark?_split h]
      exact mem_append_right _ hm
  · intro head cs h
    rw [cutInside_body n head h]
    constructor
    · rintro l hl rfl ss hss
      exact (codeLines_head n head _ ss).mpr hss
    · intro _
      have hn := (codeLines_head n head cs []).mpr trivial
      rwa [append_nil] at hn
  intro head cs k h ih
  rw [cutInside_close n head h]
  simp only [Cut.precede,append_assoc]
  have hs := closeMark?_split h
  constructor
  · rintro l hl rfl ss hss
    rw [codeLines_head]
    have hne : k.after ≠ [] := by
      intro hn
      have hls := congrArg List.getLast? hs
      simp [CloseMark.whole,hn] at hls
    have he : (k.before ++ k.indentChars ++ ['*','/']) ++ k.after = l ++ ['\n'] := by
      simpa [CloseMark.whole] using hs
    obtain ⟨l',hl',ha⟩ := ends_line hl hne he
    exact ih.1 l' hl' ha ss hss
  · intro hln
    rw [codeLines_head]
    refine ih.2 fun hm => hln ?_
    rw [← hs]
    simp [CloseMark.whole,hm]

lemma codeLines_cutFrom (cs : List Char) (n : Nat) (inComment : Bool) :
  CodeLines (cutFrom n inComment (fileLinesFrom [] cs)) := by
  induction cs using byLines generalizing n inComment with
  | line l rest hl ih =>
    rw [fileLinesFrom_line hl]
    have hr := ih (n + 1) (cutLine n inComment (l ++ ['\n'])).inComment
    cases inComment with
    | false => exact ((codeLines_cut n).1 _).1 l hl rfl _ hr
    | true => exact ((codeLines_cut n).2 .inside _).1 l hl rfl _ hr
  | last cs hm =>
    by_cases hne : cs = []
    · subst hne
      exact trivial
    · rw [fileLinesFrom_last hm [] (Or.inr hne),reverse_nil,nil_append,cutFrom,cutFrom,append_nil]
      cases inComment with
      | false => exact ((codeLines_cut n).1 _).2 hm
      | true => exact ((codeLines_cut n).2 .inside _).2 hm

lemma Remark.gaps_strips (r : Remark) (ss : List Strip) :
  gaps (r.strips ++ ss) = [] :: gaps ss ∧ (CodeLines (r.strips ++ ss) ↔ CodeLines ss) := by
  have hl (later : List Strip) (h : ∀ s ∈ later, partOf s = some .middle ∨ partOf s = some .finish) :
      gaps (later ++ ss) = gaps ss ∧ (CodeLines (later ++ ss) ↔ CodeLines ss) := by
    induction later with
    | nil => exact ⟨rfl,Iff.rfl⟩
    | cons s later ih =>
      have hr := ih fun s' hs' => h s' (mem_cons_of_mem _ hs')
      cases s with
      | middle n m => exact hr
      | finish n i => exact hr
      | code n cs => simpa [partOf] using h _ mem_cons_self
      | start n m => simpa [partOf] using h _ mem_cons_self
  have hp : ∀ s ∈ r.later, partOf s = some .middle ∨ partOf s = some .finish := by
    intro s hs
    rw [later,mem_append,mem_map,Option.mem_toList,Option.map_eq_some_iff] at hs
    rcases hs with ⟨p,-,rfl⟩ | ⟨p,-,rfl⟩
    · exact Or.inl rfl
    · exact Or.inr rfl
  obtain ⟨hg,hln⟩ := hl r.later hp
  rw [strips,cons_append,gaps,hg]
  exact ⟨rfl,hln⟩

def Writes : Passage → List Char → Prop
  | .code _ cs, text => text = cs
  | .comment _, text => Rendered text

def Passage.portion : Passage → List Char → Portion
  | .code _ _, text => .code text
  | .comment _, text => .comment text

lemma woven_of_writes {ps : List Passage} {ts : List (List Char)} (hc : CodeLines (ps.flatMap Passage.strips))
  (h : Forall₂ Writes ps ts) : Woven (List.zipWith Passage.portion ps ts) ∧
    Portion.gaps (List.zipWith Passage.portion ps ts) = gaps (ps.flatMap Passage.strips) ∧
    (List.zipWith Passage.portion ps ts).flatMap Portion.text = ts.flatten := by
  induction h with
  | nil => exact ⟨trivial,rfl,rfl⟩
  | @cons p text ps ts hp hps ih =>
    rw [flatMap_cons] at hc ⊢
    rw [zipWith_cons_cons,flatMap_cons]
    cases p with
    | code n cs =>
      obtain rfl : text = cs := hp
      obtain ⟨ho,hln,hr⟩ := hc
      obtain ⟨hw,hg,ht⟩ := ih hr
      refine ⟨⟨ho,hln.imp_right fun hl => ⟨hl.1,?_⟩,hw⟩,?_,?_⟩
      · cases ps with
        | nil => rfl
        | cons p ps =>
          have hn : (p :: ps).flatMap Passage.strips = [] := hl.2
          cases p <;> simp [Passage.strips,Remark.strips] at hn
      · rw [Passage.portion,Portion.gaps,hg]
        rfl
      · rw [ht]
        rfl
    | comment r =>
      rw [Passage.strips,(r.gaps_strips _).2] at hc
      obtain ⟨hw,hg,ht⟩ := ih hc
      refine ⟨⟨hp,hw⟩,?_,?_⟩
      · rw [Passage.portion,Portion.gaps,hg,Passage.strips,(r.gaps_strips _).1]
      · rw [ht]
        rfl

end Docweave.Comment

namespace Docweave.Tree

open Comment Element List

def codeGaps : List Element → List String
  | [] => [""]
  | e :: es =>
    if e.tag = "comment" then "" :: codeGaps es
    else
      match codeGaps es with
      | [] => [e.text.getD ""]
      | gap :: gaps => (e.text.getD "" ++ gap) :: gaps

def Stands : Passage → Element → Prop
  | .code _ cs, e => e.tag ≠ "comment" ∧ e.text = some (String.ofList cs)
  | .comment _, e => e.tag = "comment"

lemma codeGaps_stands {ps : List Passage} {es : List Element} (h : Forall₂ Stands ps es) :
  codeGaps es = (gaps (ps.flatMap Passage.strips)).map String.ofList := by
  induction h with
  | nil => rfl
  | @cons p e ps es hp _ ih =>
    rw [flatMap_cons,codeGaps,ih]
    cases p with
    | comment r =>
      have ht : e.tag = "comment" := hp
      rw [if_pos ht,Passage.strips,(r.gaps_strips _).1]
      rfl
    | code n cs =>
      obtain ⟨ht,htx⟩ := hp
      rw [if_neg ht,htx]
      simp only [Passage.strips,singleton_append,gaps]
      cases gaps (ps.flatMap Passage.strips) with
      | nil => rfl
      | cons g gs => simp [prepend]

lemma codeGaps_gathered {ps : List Passage} {es : List Element} (h : Forall₂ IsGathered ps es) :
  codeGaps es = (gaps (ps.flatMap Passage.strips)).map String.ofList := by
  refine codeGaps_stands (h.imp fun p e hp => ?_)
  cases p with
  | comment r => exact IsComment.tag hp
  | code n cs => exact ⟨IsLine.tag_ne hp,IsLine.text hp⟩

lemma codeGaps_readLines (path text : String) :
  ∃ marked ps cs, Tree.readLines 4 path (Files.Content.text text).lines = .ok marked ∧
    Forall₂ IsGathered ps (gatherComments {} marked) ∧ AsRead text.toList cs ∧
    ps.flatMap Passage.strips = cutFrom 1 false (Text.fileLinesFrom [] cs) ∧
    codeGaps (gatherComments {} marked) = (gapsFrom 1 false cs).map String.ofList := by
  obtain ⟨cs,hr,hl⟩ := readLines_asRead (by decide : (0 : Int) < 4) text
  obtain ⟨marked,hm,hs⟩ := readLines_ok (by decide : (0 : Int) < 4) path
    (Text.ne_empty_of_mem_fileLines (String.ofList (Text.normalizeNewlines text.toList)))
  obtain ⟨ps,hps,hf⟩ := exists_passages_cutLines ((Comment.readLines 4 text).map String.toList)
  have hg := isGathered_gatherComments hps (by rw [hf]; exact hs)
  have hc : ps.flatMap Passage.strips = cutFrom 1 false (Text.fileLinesFrom [] cs) := by
    rw [hf,cutLines,hl]
  refine ⟨marked,ps,cs,hm,hg,hr,hc,?_⟩
  rw [codeGaps_gathered hg,hc]
  rfl

end Docweave.Tree
