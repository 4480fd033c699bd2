import Docweave.Markup.Elements
import Docweave.Proofs.Base.Elements
import Docweave.Proofs.Base.Matching
import Mathlib.Data.List.Chain

namespace Docweave

open List
open String (join ofList)

namespace Command

open Pattern

variable {cs gap after : List Char} {w : String} {c : Cursor}

def words : List String :=
  ["@returns","@return","@param","@brief","@description","@details","@version"]

lemma tries_words : Tries (lit "@" ++ keywords) words :=
  (tries_lit "@").append (((((((tries_lit "return").append (tries_lit "s").optional).or (tries_lit "param")).or
    (tries_lit "brief")).or (tries_lit "description")).or (tries_lit "details")).or (tries_lit "version"))

def wordAt (cs : List Char) : Option String := words.find? fun w => w.toList.isPrefixOf cs

lemma wordAt_eq_some (h : wordAt cs = some w) : w ∈ words ∧ w.toList <+: cs := by
  have hp := find?_some h
  exact ⟨mem_of_find?_eq_some h, isPrefixOf_iff_prefix.mp hp⟩

lemma wordAt_eq_none : wordAt cs = none ↔ ∀ w ∈ words, ¬ w.toList <+: cs := by
  simp only [wordAt,find?_eq_none, isPrefixOf_iff_prefix]

def foundWord (c : Cursor) (gap : List Char) (w : String) (after : List Char) : Found :=
  ⟨c.before.reverse ++ gap,w.toList,after,
    ("at_command",⟨c.offset + gap.length,c.offset + gap.length + w.toList.length⟩) :: c.captures⟩

lemma foundAt_word (c : Cursor) :
    word.pattern.foundAt false c = (wordAt c.rest).map fun w =>
      foundWord c [] w (c.rest.drop w.toList.length) := by
  have hm : word.pattern.meet c some = words.findSome? fun w =>
    (c.take? w.toList).bind fun c' => some (c'.record "at_command" c.offset) := tries_words c _
  rw [foundAt_still,hm,wordAt]
  generalize words = ws
  induction ws with
  | nil => rfl
  | cons w ws ih =>
    rw [findSome?_cons,find?_cons]
    cases hp : w.toList.isPrefixOf c.rest with
    | true =>
      obtain ⟨rest,hr⟩ := isPrefixOf_iff_prefix.mp hp
      have hd : c.rest.drop w.toList.length = rest := by rw [← hr,drop_left]
      rw [Cursor.take?_append _ rest c hr.symm]
      simp only [Option.bind_some,Option.map_some,hd]
      exact congrArg some ((Found.between_skip c w.toList rest _).trans (by simp [foundWord,Cursor.skip]))
    | false =>
      rw [Cursor.take?_eq_none _ c fun h => by simp [ isPrefixOf_iff_prefix.mpr h] at hp]
      exact ih

def leftmost : List Char → Option (List Char × String × List Char)
  | [] => none
  | ch :: cs =>
    match wordAt (ch :: cs) with
    | some w => some ([],w,(ch :: cs).drop w.toList.length)
    | none => (leftmost cs).map fun p => (ch :: p.1,p.2)

lemma searchFrom_word (c : Cursor) : word.pattern.searchFrom false c.rest c =
    (leftmost c.rest).map fun p => foundWord c p.1 p.2.1 p.2.2 := by
  generalize hr : c.rest = cs
  induction cs generalizing c with
  | nil =>
    have hf : word.pattern.foundAt false c = none := by rw [foundAt_word,hr]; rfl
    simp [searchFrom,hf,leftmost]
  | cons ch cs ih =>
    rw [searchFrom,foundAt_word,hr,leftmost]
    cases wordAt (ch :: cs) with
    | some w => rfl
    | none =>
      rw [Option.map_none]
      dsimp only
      rw [ih (c.advance ch cs) rfl]
      cases leftmost cs with
      | none => rfl
      | some p => simp [foundWord,Cursor.advance,Nat.add_assoc,Nat.add_left_comm,Nat.add_comm]

lemma leftmost_eq (h : leftmost cs = some (gap,w,after)) :
    w ∈ words ∧ cs = gap ++ w.toList ++ after ∧ leftmost gap = none := by
  induction cs generalizing gap with
  | nil => cases h
  | cons ch cs ih =>
    rw [leftmost] at h
    cases hw : wordAt (ch :: cs) with
    | some v =>
      rw [hw] at h
      cases h
      obtain ⟨hv,rest,hr⟩ := wordAt_eq_some hw
      exact ⟨hv,by rw [← hr]; simp,rfl⟩
    | none =>
      rw [hw] at h
      obtain ⟨⟨gap,v,tail⟩,hp,he⟩ := Option.map_eq_some_iff.mp h
      cases he
      obtain ⟨hv,rfl,hg⟩ := ih hp
      refine ⟨hv,by simp,?_⟩
      have hn : wordAt (ch :: gap) = none := wordAt_eq_none.mpr fun v hv hp =>
        wordAt_eq_none.mp hw v hv (hp.trans (by rw [append_assoc]; exact prefix_append (ch :: gap) _))
      rw [leftmost,hn,hg]
      rfl

end Command

namespace Element

open Command Pattern

def piece (cs : List Char) : List (String × Option String) := if cs = [] then [] else [("text",some (ofList cs))]

def shown (e : Element) : String × Option String := (e.tag,e.text)

inductive Scans : List Char → List (String × Option String) → Prop
  | rest {cs : List Char} : leftmost cs = none → Scans cs (piece cs)
  | word {cs gap after : List Char} {w : String} {ps : List (String × Option String)} :
      leftmost cs = some (gap,w,after) → Scans after ps → Scans cs (piece gap ++ ("at_command",some w) :: ps)

variable {cs : List Char} {ps : List (String × Option String)} {fuel : Nat}

lemma ne_nil_of_mem_words {w : String} (h : w ∈ words) : w.toList ≠ [] := by
  have hw : ∀ w ∈ words, w.toList ≠ [] := by decide
  exact hw w h

lemma mem_setKey {key : String} {v : Value} {l : List (String × Value)} {a : String × Value}
  (h : a ∈ setKey key v l) : a ∈ l ∨ a = (key,v) := by
  induction l with
  | nil => exact .inr (mem_singleton.mp h)
  | cons b l ih =>
    rw [setKey] at h
    split at h
    · next hk =>
        rcases mem_cons.mp h with rfl | h
        · exact .inr (by rw [hk])
        · exact .inl (mem_cons_of_mem _ h)
    · rcases mem_cons.mp h with rfl | h
      · exact .inl mem_cons_self
      · exact (ih h).imp_left (mem_cons_of_mem _)

structure IsCut (e : Element) : Prop where
  tag : e.tag = "text" ∨ e.tag = "at_command"
  leaf : e.children = []
  layout : e.attribute? "layout" = some "span"
  attributes : ∀ a ∈ e.attributes, ∃ text, a = ("layout",.text text) ∨ a = ("transcript",.text text)

lemma isCut_span {tag : String} (ht : tag = "text" ∨ tag = "at_command") (text : Option String) :
    IsCut (Element.set { tag, text } "layout" "span") :=
  ⟨ht,rfl,rfl,fun _ ha => ⟨"span",.inl (mem_singleton.mp ha)⟩⟩

lemma IsCut.note {e : Element} (h : IsCut e) (text : String) : IsCut (e.set "transcript" text) := by
  refine ⟨h.tag,h.leaf,(attribute?_set_ne e (by decide) text).trans h.layout,fun a ha => ?_⟩
  exact (mem_setKey ha).elim (h.attributes a) fun heq => ⟨text,.inr heq⟩

lemma capture_word (gap : List Char) {w : String} (hw : w ∈ words) (after : List Char) :
    Cutting.capture "text" ["at_command"] false (gap ++ w.toList ++ after) {} "at_command"
      ⟨0 + gap.length,0 + gap.length + w.toList.length⟩ =
    .ok ⟨ofList gap,[{ tag := "at_command", text := some w }],(gap ++ w.toList).length⟩ := by
  have ht : tagOf ["at_command"] "at_command" = some "at_command" := by with_unfolding_all rfl
  have hg : Found.slice (gap ++ (w.toList ++ after)) ⟨0,gap.length⟩ = gap :=
    Found.slice_eq [] (w.toList ++ after) _ rfl rfl (Nat.zero_add _).symm
  have hi : Found.slice (gap ++ (w.toList ++ after)) ⟨gap.length,gap.length + w.toList.length⟩ = w.toList :=
    Found.slice_eq gap after _ rfl rfl rfl
  have hne : w ≠ "" := by simpa using ne_nil_of_mem_words hw
  simp [Cutting.capture,ht,hi,hg,Cutting.between,hne]

lemma cutFrom_scans (h : cs.length < fuel) :
    ∃ es, cutFrom "text" Command.word ["at_command"] false fuel cs = .ok es ∧
    Scans cs (es.map shown) ∧ ∀ e ∈ es, IsCut e := by
  induction fuel generalizing cs with
  | zero => cases h
  | succ fuel ih =>
    have hs : Command.word.pattern.search cs = (leftmost cs).map fun p =>
      foundWord (Cursor.start cs) p.1 p.2.1 p.2.2 :=
      searchFrom_word (Cursor.start cs)
    rw [cutFrom,hs]
    cases hl : leftmost cs with
    | none =>
      by_cases hc : cs = []
      · exact ⟨[],by simp [hc]; rfl,by simpa [piece,hc] using Scans.rest hl,forall_mem_nil _⟩
      · exact ⟨[({ tag := "text", text := some (ofList cs) } : Element).set "layout" "span"],by simp [hc]; rfl,
          by have := Scans.rest hl; rwa [piece,if_neg hc] at this,
          forall_mem_singleton.mpr (isCut_span (.inl rfl) _)⟩
    | some p =>
      obtain ⟨gap,w,after⟩ := p
      obtain ⟨hw,rfl,-⟩ := leftmost_eq hl
      have hne := length_pos_iff.mpr (ne_nil_of_mem_words hw)
      obtain ⟨es,he,hsc,hic⟩ := @ih after (by simp only [length_append] at h; omega)
      have hsc := Scans.word hl hsc
      simp only [Option.map_some,Option.getD_some]
      rw [show Command.word.inOrder (foundWord (Cursor.start (gap ++ w.toList ++ after)) gap w after) =
        [("at_command",⟨0 + gap.length,0 + gap.length + w.toList.length⟩)] from rfl,foldlM_cons,capture_word gap hw after,ok_bind,foldlM_nil]
      simp only [pure_bind,drop_left,he,ok_bind]
      by_cases hg : gap = []
      · subst hg
        exact ⟨_,rfl,hsc,forall_mem_cons.mpr ⟨(isCut_span (.inr rfl) _).note _,hic⟩⟩
      · have he : (ofList gap).isEmpty = false := by simpa [String.isEmpty_iff] using hg
        rw [piece,if_neg hg] at hsc
        simp only [isEmpty_cons,Bool.false_eq_true,if_false,he]
        exact ⟨_,rfl,hsc,forall_mem_cons.mpr ⟨(isCut_span (.inl rfl) _).note _,
          forall_mem_cons.mpr ⟨isCut_span (.inr rfl) _,hic⟩⟩⟩

lemma isCut_cut {s : String} {es : List Element} (h : cut "text" Command.word ["at_command"] false s = .ok es) :
    ∀ e ∈ es, IsCut e := by
  obtain ⟨es,hes,-,hc⟩ := cutFrom_scans (Nat.lt_succ_self s.length)
  cases hes.symm.trans h
  exact hc

inductive IsPiece : String × Option String → Prop
  | command {w : String} : w ∈ words → IsPiece ("at_command",some w)
  | text {t : String} : t ≠ "" → Command.word.search t = none → IsPiece ("text",some t)

lemma search_eq_none (h : leftmost cs = none) : Command.word.search (ofList cs) = none := by
  rw [Rule.search,String.toList_ofList]
  exact (searchFrom_word (Cursor.start cs)).trans (by rw [show (Cursor.start cs).rest = cs from rfl,h]; rfl)

lemma isPiece_piece (h : leftmost cs = none) : ∀ p ∈ piece cs, IsPiece p := by
  rw [piece]
  split
  · exact forall_mem_nil _
  · next hc => exact forall_mem_singleton.mpr (.text (by simpa using hc) (search_eq_none h))

lemma Scans.isPiece (h : Scans cs ps) : ∀ p ∈ ps, IsPiece p := by
  induction h with
  | rest hn => exact isPiece_piece hn
  | word hl _ ih =>
    obtain ⟨hw,-,hg⟩ := leftmost_eq hl
    exact forall_mem_append.mpr ⟨isPiece_piece hg,forall_mem_cons.mpr ⟨.command hw,ih⟩⟩

lemma flatMap_piece (cs : List Char) : (piece cs).flatMap (fun p => (p.2.getD "").toList) = cs := by
  rw [piece]
  split <;> simp_all

lemma Scans.flatMap (h : Scans cs ps) : ps.flatMap (fun p => (p.2.getD "").toList) = cs := by
  induction h with
  | rest => exact flatMap_piece _
  | word hl _ ih =>
    obtain ⟨-,rfl,-⟩ := leftmost_eq hl
    rw [flatMap_append,flatMap_piece,flatMap_cons,ih,append_assoc]
    rfl

lemma Scans.isChain (h : Scans cs ps) : ps.IsChain fun p q => p.1 ≠ "text" ∨ q.1 ≠ "text" := by
  induction h with
  | rest =>
    rw [piece]
    split
    · exact .nil
    · exact .singleton _
  | @word _ gap _ w ps _ _ ih =>
    have hc : (("at_command",some w) :: ps).IsChain fun p q : String × Option String => p.1 ≠
      "text" ∨ q.1 ≠ "text" :=
      isChain_cons.mpr ⟨fun _ _ => .inl (by simp),ih⟩
    rw [piece]
    split
    · exact hc
    · exact isChain_cons_cons.mpr ⟨.inr (by simp),hc⟩

lemma Scans.eq_nil (h : Scans [] ps) : ps = [] := by
  cases h with
  | rest => rfl
  | word hl => cases hl

theorem cut_scans (s : String) :
    ∃ es, cut "text" Command.word ["at_command"] false s = .ok es ∧
      Scans s.toList (es.map shown) ∧
      join (es.map fun e => e.text.getD "") = s ∧ (∀ e ∈ es, IsPiece e.shown) ∧
      (es.IsChain fun e e' => e.tag ≠ "text" ∨ e'.tag ≠ "text") ∧ (s = "" → es = []) := by
  have hlength : s.toList.length < s.length + 1 := Nat.lt_succ_self s.length
  obtain ⟨es, hcut, hscan, -⟩ := cutFrom_scans hlength
  refine ⟨es, hcut, hscan, ?_, ?_, ?_, ?_⟩
  · rw [← String.toList_inj, String.toList_join, flatMap_map, ← hscan.flatMap, flatMap_map]
    rfl
  · exact forall_mem_map.mp hscan.isPiece
  · exact (isChain_map shown).mp hscan.isChain
  · rintro rfl
    exact map_eq_nil_iff.mp hscan.eq_nil

end Element

end Docweave
