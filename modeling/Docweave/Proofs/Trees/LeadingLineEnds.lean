import Docweave.Proofs.Trees.Spelling

namespace Docweave.Text

open List hiding tail

def words (cs : List Char) : List (List Char) := (cs.splitOnP isBlank).filter (!·.isEmpty)

def remaining (l : List (Bool × Char)) : List Char := (l.filter (!·.1)).map Prod.snd

def meets (l : List (Bool × Char)) : Bool := l.head?.any (·.1) && (remaining l).head?.any (!isBlank ·)

def joins : List (Bool × Char) → Bool
  | [] => false
  | (dropped,c) :: rest => (!dropped && !isBlank c && meets rest) || joins rest

@[simp] lemma remaining_append (l r : List (Bool × Char)) : remaining (l ++ r) = remaining l ++ remaining r := by
  simp [remaining]

@[simp] lemma remaining_of_kept (cs : List Char) : remaining (cs.map (false,·)) = cs := by
  simp [remaining,filter_map,Function.comp_def]

@[simp] lemma remaining_of_dropped (cs : List Char) : remaining (cs.map (true,·)) = [] := by
  simp [remaining]

lemma remaining_cons (dropped : Bool) (c : Char) (l : List (Bool × Char)) :
    remaining ((dropped,c) :: l) = if dropped then remaining l else c :: remaining l := by
  cases dropped <;> rfl

section

variable {c : Char} {cs : List Char}

lemma words_blank (h : isBlank c) (cs : List Char) : words (c :: cs) = words cs := by
  rw [words,splitOnP_cons_eq_if_modifyHead,if_pos h]
  rfl

def opening (cs : List Char) : List Char := (cs.splitOnP isBlank).headD []

def others (cs : List Char) : List (List Char) := (cs.splitOnP isBlank).tail.filter (!·.isEmpty)

lemma splitOnP_eq (cs : List Char) : cs.splitOnP isBlank = opening cs :: (cs.splitOnP isBlank).tail := by
  rw [opening]
  cases h : cs.splitOnP isBlank with
  | nil => exact absurd h (splitOnP_ne_nil _ _)
  | cons => rfl

lemma words_letter (h : isBlank c = false) (cs : List Char) :
    words (c :: cs) = (c :: opening cs) :: others cs := by
  rw [words,splitOnP_cons_eq_if_modifyHead,if_neg (ne_true_of_eq_false h),splitOnP_eq]
  rfl

lemma words_of_opening (h : opening cs = []) : words cs = others cs := by
  rw [words,splitOnP_eq,h]
  rfl

lemma opening_blank (h : isBlank c) (cs : List Char) : opening (c :: cs) = [] := by
  rw [opening,splitOnP_cons_eq_if_modifyHead,if_pos h]
  rfl

lemma opening_letter (h : isBlank c = false) (cs : List Char) : opening (c :: cs) = c :: opening cs := by
  rw [opening,splitOnP_cons_eq_if_modifyHead,if_neg (ne_true_of_eq_false h),splitOnP_eq]
  rfl

lemma opening_eq_nil_iff (cs : List Char) : opening cs = [] ↔ cs.head?.any (!isBlank ·) = false := by
  cases cs with
  | nil => exact iff_of_true rfl rfl
  | cons c cs =>
    cases h : isBlank c with
    | true => simp [opening_blank h,h]
    | false => simp [opening_letter h,h]

lemma words_of_opening_ne (h : opening cs ≠ []) : words cs = opening cs :: others cs := by
  rw [words,splitOnP_eq,filter_cons_of_pos (by simpa using h)]
  rfl

lemma words_eq_iff {ds : List Char} (h : opening cs = [] ↔ opening ds = []) :
  words cs = words ds ↔ opening cs = opening ds ∧ others cs = others ds := by
  by_cases hcs : opening cs = []
  · rw [words_of_opening hcs,words_of_opening (h.mp hcs),hcs,h.mp hcs]
    simp
  · rw [words_of_opening_ne hcs,words_of_opening_ne (mt h.mpr hcs),cons.injEq]

end

section

variable {l : List (Bool × Char)}

lemma opening_remaining_iff (hb : ∀ p ∈ l, p.1 → isBlank p.2) (h : meets l = false) :
  opening (remaining l) = [] ↔ opening (l.map Prod.snd) = [] := by
  cases l with
  | nil => exact Iff.rfl
  | cons p l =>
    obtain ⟨dropped,c⟩ := p
    cases dropped with
    | false => simp only [opening_eq_nil_iff,remaining_cons,map_cons,head?_cons,Bool.false_eq_true,if_false]
    | true =>
      have hc : isBlank c := hb _ mem_cons_self rfl
      exact iff_of_true ((opening_eq_nil_iff _).mpr (by simpa [meets] using h)) (opening_blank hc _)

lemma opening_of_meets (hb : ∀ p ∈ l, p.1 → isBlank p.2) (h : meets l) :
  opening (remaining l) ≠ opening (l.map Prod.snd) := by
  cases l with
  | nil => cases h
  | cons p l =>
    obtain ⟨hd,hl⟩ := Bool.and_eq_true_iff.mp h
    rw [map_cons,opening_blank (hb p mem_cons_self hd),Ne,opening_eq_nil_iff,hl]
    decide

lemma words_remaining_iff (hb : ∀ p ∈ l, p.1 → isBlank p.2) :
  words (remaining l) = words (l.map Prod.snd) ↔ joins l = false := by
  induction l with
  | nil => exact iff_of_true rfl rfl
  | cons p rest ih =>
    obtain ⟨dropped,c⟩ := p
    rw [forall_mem_cons] at hb
    have hr := ih hb.2
    rw [remaining_cons,map_cons,joins]
    cases dropped with
    | true =>
      rw [if_pos rfl,words_blank (hb.1 rfl),hr]
      simp
    | false =>
      rw [if_neg Bool.false_ne_true]
      cases hc : isBlank c with
      | true =>
        rw [words_blank hc,words_blank hc,hr]
        simp
      | false =>
        rw [words_letter hc,words_letter hc]
        cases hm : meets rest with
        | true =>
          have hne := opening_of_meets hb.2 hm
          simp [hne]
        | false =>
          rw [words_eq_iff (opening_remaining_iff hb.2 hm)] at hr
          simpa using hr

end

end Docweave.Text

namespace Docweave.Tree

open List hiding tail
open Element Text

section

def wrapOf (e : Element) : List Char := ((e.attribute? "wrap").getD "").toList

mutual

def content : Element → List Char
  | ⟨tag,attributes,text,tail,children⟩ =>
    let wrap := wrapOf ⟨tag,attributes,text,tail,children⟩
    wrap ++ (text.getD "").toList ++ contentEach children ++ wrap

def contentEach : List Element → List Char
  | [] => []
  | e :: es => content e ++ contentEach es

end

def flagStart (cs : List Char) : List (Bool × Char) :=
  (cs.takeWhile isNewline).map (true,·) ++ (cs.dropWhile isNewline).map (false,·)

mutual

def trace (first : Bool) : Element → List (Bool × Char)
  | ⟨tag,attributes,text,tail,children⟩ =>
    let wrap := (wrapOf ⟨tag,attributes,text,tail,children⟩).map (false,·)
    let own := (text.getD "").toList
    wrap ++ (if first then flagStart own else own.map (false,·)) ++
      traceEach (tag == "paragraph") children ++ wrap

def traceEach (awaited : Bool) : List Element → List (Bool × Char)
  | [] => []
  | e :: es => trace (awaited && e.tag == "text") e ++ traceEach (awaited && e.tag != "text") es

end

mutual

lemma map_snd_trace (first : Bool) : ∀ e : Element, (trace first e).map Prod.snd = content e
  | ⟨tag,attrs,text,tail,children⟩ => by
    have ho : (if first then flagStart (text.getD "").toList else (text.getD "").toList.map
      (false,·)).map Prod.snd =
        (text.getD "").toList := by
      cases first <;> simp [flagStart,Function.comp_def]
    simp only [trace,content,map_append,map_map,Function.comp_def,map_id_fun',id,ho,map_snd_traceEach _ children]

lemma map_snd_traceEach (awaited : Bool) :
    ∀ es : List Element, (traceEach awaited es).map Prod.snd = contentEach es
  | [] => rfl
  | e :: es => by
    rw [traceEach,contentEach,map_append,map_snd_trace _ e,map_snd_traceEach _ es]

end

lemma isBlank_of_isNewline {c : Char} (h : isNewline c) : isBlank c := by
  rcases Bool.or_eq_true_iff.mp h with h | h <;> rw [eq_of_beq h] <;> decide

lemma newline_of_flagStart {cs : List Char} {p : Bool × Char} (hp : p ∈ flagStart cs) (hd : p.1) :
    isNewline p.2 := by
  rcases mem_append.mp hp with hp | hp
  · obtain ⟨c,hc,rfl⟩ := mem_map.mp hp
    exact all_eq_true.mp all_takeWhile c hc
  · obtain ⟨c,-,rfl⟩ := mem_map.mp hp
    cases hd

lemma not_dropped {cs : List Char} {p : Bool × Char} (hp : p ∈ cs.map (false,·)) : p.1 ≠ true := by
  obtain ⟨c,-,rfl⟩ := mem_map.mp hp
  exact Bool.false_ne_true

mutual

lemma blank_of_trace (first : Bool) : ∀ e : Element, ∀ p ∈ trace first e, p.1 → isBlank p.2
  | ⟨tag,attrs,text,tail,children⟩, p, hp, hd => by
    simp only [trace,mem_append] at hp
    rcases hp with ((hp | hp) | hp) | hp
    · exact absurd hd (not_dropped hp)
    · cases first with
      | true => exact isBlank_of_isNewline (newline_of_flagStart hp hd)
      | false => exact absurd hd (not_dropped hp)
    · exact blank_of_traceEach _ children p hp hd
    · exact absurd hd (not_dropped hp)

lemma blank_of_traceEach (awaited : Bool) : ∀ es : List Element, ∀ p ∈ traceEach awaited es, p.1 → isBlank p.2
  | [], p, hp, _ => by cases hp
  | e :: es, p, hp, hd => by
    rcases mem_append.mp hp with hp | hp
    · exact blank_of_trace _ e p hp hd
    · exact blank_of_traceEach _ es p hp hd

end

end

section

variable {e e' : Element} {cs : List Element} {i : Nat}

def stripFirst : List Element → List Element
  | [] => []
  | c :: cs => if c.tag = "text" then stripText c :: cs else c :: stripFirst cs

mutual

def stripped : Element → Element
  | ⟨tag,attributes,text,tail,children⟩ =>
    ⟨tag,attributes,text,tail,if tag = "paragraph" then stripFirst
      (strippedEach children) else strippedEach children⟩

def strippedEach : List Element → List Element
  | [] => []
  | e :: es => stripped e :: strippedEach es

end

lemma stripFirst_of_none (h : cs.findIdx? (·.tag == "text") = none) : stripFirst cs = cs := by
  induction cs with
  | nil => rfl
  | cons c cs ih =>
    rw [findIdx?_eq_none_iff] at h
    have hc : c.tag ≠ "text" := by simpa using h c mem_cons_self
    rw [stripFirst,if_neg hc,ih (findIdx?_eq_none_iff.mpr fun d hd => h d (mem_cons_of_mem _ hd))]

lemma stripFirst_of_some (h : cs.findIdx? (·.tag == "text") = some i) :
    cs.modify i stripText = stripFirst cs := by
  induction cs generalizing i with
  | nil => cases h
  | cons c cs ih =>
    rw [findIdx?_cons] at h
    by_cases hc : c.tag = "text"
    · rw [if_pos (by simpa using hc)] at h
      cases h
      rw [stripFirst,if_pos hc]
      rfl
    · rw [if_neg (by simpa using hc)] at h
      obtain ⟨j,hj,rfl⟩ := Option.map_eq_some_iff.mp h
      rw [stripFirst,if_neg hc,← ih hj]
      rfl

lemma stripIn_eq (e : Element) :
    stripIn e = .ok { e with
      children := if e.tag = "paragraph" then stripFirst e.children else e.children } := by
  rw [stripIn]
  by_cases ht : e.tag = "paragraph"
  · rw [if_neg (not_not_intro ht),if_pos ht]
    cases hf : e.children.findIdx? (·.tag == "text") with
    | none =>
      rw [stripFirst_of_none hf]
      cases e
      rfl
    | some i =>
      rw [← stripFirst_of_some hf]
      rfl
  · rw [if_pos ht,if_neg ht]
    cases e
    rfl

mutual

lemma mapUp_stripIn : ∀ e : Element, mapUp stripIn e = .ok (stripped e)
  | ⟨tag,attrs,text,tail,children⟩ => by
    rw [mapUp,mapUpEach_stripIn children,ok_bind,stripIn_eq,stripped]

lemma mapUpEach_stripIn : ∀ es : List Element, mapUpEach stripIn es = .ok (strippedEach es)
  | [] => rfl
  | e :: es => by
    rw [mapUpEach,mapUp_stripIn e,mapUpEach_stripIn es]
    rfl

end

lemma stripNewlines_eq (e : Element) : stripNewlines e = .ok { e with children := strippedEach e.children } := by
  rw [stripNewlines,mapUpEach_stripIn]
  rfl

lemma tag_stripped (e : Element) : (stripped e).tag = e.tag := by
  cases e
  rw [stripped]

lemma content_eq (e : Element) :
  content e = wrapOf e ++ (e.text.getD "").toList ++ contentEach e.children ++ wrapOf e := by
  cases e
  rw [content]

lemma wrapOf_congr (h : e'.value? "wrap" = e.value? "wrap") : wrapOf e' = wrapOf e := by
  rw [wrapOf,wrapOf,attribute?,attribute?,h]

lemma stripText_fields (e : Element) : (stripText e).text = e.text.map dropNewlines ∧
  (stripText e).children = e.children ∧ wrapOf (stripText e) = wrapOf e := by
  rw [stripText]
  cases ht : e.text with
  | none => exact ⟨ht,rfl,rfl⟩
  | some text =>
    dsimp only
    split
    · next hs =>
        rw [Option.map_some,hs]
        exact ⟨ht,rfl,rfl⟩
    · exact ⟨rfl,rfl,wrapOf_congr (value?_set_ne e (by decide) _)⟩

lemma content_stripText (e : Element) : content (stripText e) =
  wrapOf e ++ (e.text.getD "").toList.dropWhile isNewline ++ contentEach e.children ++ wrapOf e := by
  obtain ⟨ht,hk,hw⟩ := stripText_fields e
  rw [content_eq,ht,hk,hw]
  cases e.text with
  | none => rfl
  | some text => simp [dropNewlines]

lemma remaining_flagStart (cs : List Char) : remaining (flagStart cs) = cs.dropWhile isNewline := by
  rw [flagStart,remaining_append,remaining_of_dropped,remaining_of_kept,nil_append]

mutual

lemma content_stripped : ∀ e : Element, content (stripped e) = remaining (trace false e) ∧
    (e.tag = "text" → content (stripText (stripped e)) = remaining (trace true e))
  | ⟨tag,attrs,text,tail,children⟩ => by
    have hb := contentEach_stripped (tag == "paragraph") children
    simp only [beq_iff_eq] at hb
    rw [content_stripText,trace,trace]
    simp only [remaining_append,remaining_of_kept,remaining_flagStart,← hb,if_true,if_false,Bool.false_eq_true]
    exact ⟨rfl,fun _ => rfl⟩

lemma contentEach_stripped (awaited : Bool) : ∀ es : List Element,
    contentEach (if awaited then stripFirst (strippedEach es) else strippedEach es) =
      remaining (traceEach awaited es)
  | [] => by cases awaited <;> rfl
  | e :: es => by
    obtain ⟨hp,htx⟩ := content_stripped e
    have hl := contentEach_stripped false es
    rw [traceEach,remaining_append,strippedEach]
    cases awaited with
    | false =>
      rw [if_neg Bool.false_ne_true,contentEach,hp]
      exact congrArg _ hl
    | true =>
      rw [if_pos rfl,stripFirst,tag_stripped]
      by_cases ht : e.tag = "text"
      · rw [if_pos ht,contentEach,htx ht,ht]
        exact congrArg _ hl
      · have ha := contentEach_stripped true es
        have hb : (e.tag == "text") = false := beq_eq_false_iff_ne.mpr ht
        rw [if_neg ht,contentEach,hp,bne,hb]
        exact congrArg _ ha

end

lemma strippedEach_eq (es : List Element) : strippedEach es = es.map stripped := by
  induction es with
  | nil => rfl
  | cons e es ih => rw [strippedEach,map_cons,ih]

lemma getElem?_stripFirst {c : Element} (h : cs[i]? = some c) :
  (stripFirst cs)[i]? = some c ∨ c.tag = "text" ∧ (stripFirst cs)[i]? = some (stripText c) := by
  induction cs generalizing i with
  | nil => cases h
  | cons d cs ih =>
    rw [stripFirst]
    cases i with
    | zero =>
      cases h
      split
      · next ht => exact .inr ⟨ht,rfl⟩
      · exact .inl rfl
    | succ i =>
      split
      · exact .inl h
      · exact ih h

lemma child_stripped {c : Element} (h : e.children[i]? = some c) :
    (stripped e).children[i]? = some (stripped c) ∨
    c.tag = "text" ∧ (stripped e).children[i]? = some (stripText (stripped c)) := by
  have hm : (strippedEach e.children)[i]? = some (stripped c) := by
    rw [strippedEach_eq,getElem?_map,h,Option.map_some]
  have hk : (stripped e).children =
      if e.tag = "paragraph" then stripFirst (strippedEach e.children) else strippedEach e.children := by
    cases e
    rw [stripped]
  rw [hk]
  split
  · rw [← tag_stripped c]
    exact getElem?_stripFirst hm
  · exact .inl hm

lemma at?_stripped {addr : Address} {x : Element} (hx : e.at? addr = some x) (htg : x.tag ≠ "text") :
  (stripped e).at? addr = some (stripped x) := by
  induction addr generalizing e with
  | nil =>
    cases hx
    rfl
  | cons i rest ih =>
    obtain ⟨c,hc,hx⟩ := at?_cons_iff.mp hx
    rcases child_stripped hc with hi | ⟨ht,hi⟩
    · exact at?_cons_iff.mpr ⟨_,hi,ih hx⟩
    cases rest with
    | nil =>
      cases hx
      exact absurd ht htg
    | cons j rest =>
      -- Stripping a text leaves what is below it.
      obtain ⟨d,hd,hb⟩ := at?_cons_iff.mp (ih hx)
      rw [← (stripText_fields (stripped c)).2.1] at hd
      exact at?_cons_iff.mpr ⟨_,hi,at?_cons_iff.mpr ⟨d,hd,hb⟩⟩

theorem stripping_keeps_words_iff (e : Element) : ∃ e', stripNewlines e = .ok e' ∧
    ∀ address p, address ≠ [] → e.at? address = some p → p.tag = "paragraph" →
      ∃ p', e'.at? address = some p' ∧ content p = (trace false p).map Prod.snd ∧
        content p' = remaining (trace false p) ∧
        (words (content p') = words (content p) ↔ joins (trace false p) = false) := by
  refine ⟨_, stripNewlines_eq e, fun address p hne hp htag => ?_⟩
  cases address with
  | nil => exact absurd rfl hne
  | cons i rest =>
    obtain ⟨c, hc, hat⟩ := at?_cons_iff.mp hp
    have hi : (strippedEach e.children)[i]? = some (stripped c) := by
      rw [strippedEach_eq, getElem?_map, hc, Option.map_some]
    have hafter := (content_stripped p).1
    have hpre := (map_snd_trace false p).symm
    refine ⟨stripped p, at?_cons_iff.mpr ⟨_, hi, at?_stripped hat (by rw [htag]; decide)⟩, hpre, hafter, ?_⟩
    rw [hafter, hpre]
    exact words_remaining_iff (blank_of_trace false p)

end

section

open Markup (make)

def spacedParagraph : Element :=
  make "paragraph" [("newlines","2")] none
    [make "emphasis" [("wrap","*"),("layout","span")] none [make "text" [("layout","span")] (some "a")],
      make "text" [("layout","span")] (some "\n b")]

def spacedComment : Element := make "comment" [] none [make "markdown" [] none [spacedParagraph]]

theorem stripping_keeps_words_at_spaced : spacedComment.at? [0, 0] = some spacedParagraph ∧
    ∃ e' p', stripNewlines spacedComment = .ok e' ∧ e'.at? [0, 0] = some p' ∧
      String.ofList (content spacedParagraph) = "*a*\n b" ∧ String.ofList (content p') = "*a* b" ∧
      words (content p') = words (content spacedParagraph) := by
  obtain ⟨e', he', hall⟩ := stripping_keeps_words_iff spacedComment
  obtain ⟨p', hp', -, hcontents, hwords⟩ := hall [0, 0] spacedParagraph (by decide) rfl rfl
  refine ⟨rfl, e', p', he', hp', by decide +kernel, ?_, hwords.mpr (by decide +kernel)⟩
  rw [hcontents]
  decide +kernel

def wordsAt (address : Address) (e : Element) : Option (List String) :=
  ((e.at? address).filter (·.tag == "paragraph")).map fun p => (words (content p)).map String.ofList

theorem stripping_joins_words : ∃ m e e', readMarkdown "markdown" "*a*\nb" = .ok m ∧
    (do joinTexts (← resolveSplitters (← setNewlines (make "comment" [] none [m])))) = .ok e ∧
    stripNewlines e = .ok e' ∧
    wordsAt [0, 0] e = some ["*a*", "b"] ∧ wordsAt [0, 0] e' = some ["*a*b"] := by
  have hstages : ((do
      let m ← readMarkdown "markdown" "*a*\nb"
      let e ← (do joinTexts (← resolveSplitters (← setNewlines (make "comment" [] none [m]))))
      let e' ← stripNewlines e
      return (wordsAt [0, 0] e, wordsAt [0, 0] e')) : Except Fault _).toOption =
      some (some ["*a*", "b"], some ["*a*b"]) := by
    decide +kernel
  obtain ⟨m, hm, hrest⟩ := bind_ok (ok_of_toOption hstages)
  obtain ⟨e, he, hrest⟩ := bind_ok hrest
  obtain ⟨e', he', hlast⟩ := bind_ok hrest
  obtain ⟨hpre, hafter⟩ := Prod.mk.inj (Except.ok.inj hlast)
  exact ⟨m, e, e', hm, he, he', hpre, hafter⟩

end

end Docweave.Tree
