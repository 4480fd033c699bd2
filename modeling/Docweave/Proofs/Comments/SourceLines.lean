import Docweave.Comment.Scan
import Docweave.Proofs.Comments.TreeReading

namespace Docweave

open List

namespace Text

lemma ne_nil_of_mem_fileLinesFrom (line rest : List Char) : ∀ l ∈ fileLinesFrom line rest, l ≠ [] := by
  fun_induction fileLinesFrom line rest <;> simp_all

lemma ne_empty_of_mem_fileLines (s : String) : ∀ line ∈ fileLines s, line ≠ "" := by
  intro line hl
  rw [fileLines,mem_map] at hl
  obtain ⟨cs,hcs,rfl⟩ := hl
  have hne := ne_nil_of_mem_fileLinesFrom [] s.toList cs hcs
  simpa using hne

lemma not_mem_expandTabsFrom (size col : Nat) (cs : List Char) : '\t' ∉ expandTabsFrom size col cs := by
  fun_induction expandTabsFrom size col cs with
  | case1 => simp
  | case2 col rest w ih => simp [ih]
  | case3 col c rest hc ih =>
    rw [mem_cons,not_or]
    exact ⟨fun h => hc h.symm,ih⟩

lemma expandTabsFrom_ne_nil {size : Nat} (hs : 0 < size) (col : Nat) {cs : List Char}
  (h : cs ≠ []) : expandTabsFrom size col cs ≠ [] := by
  fun_cases expandTabsFrom size col cs with
  | case1 => exact absurd rfl h
  | case2 _ rest w =>
    have hlt := Nat.mod_lt col hs
    have hw : w ≠ 0 := by
      simp only [w]
      split <;> omega
    simp [hw]
  | case3 => exact cons_ne_nil _ _

end Text

namespace Tree

open Comment Element Text

lemma expandLine_ok {n : Nat} {cs : List Char} {e : Element} (tabSize : Int) (h : IsLine n cs e) :
  ∃ e', expandLine tabSize e = .ok e' ∧ IsLine n (expandTabsFrom tabSize.toNat 0 cs) e' := by
  simp only [expandLine,h.text,expandTabs,String.toList_ofList]
  split
  · rename_i hs
    have hcs : expandTabsFrom tabSize.toNat 0 cs = cs := String.ofList_inj.mp hs
    refine ⟨e,rfl,?_⟩
    rw [hcs]
    exact h
  · exact ⟨_,rfl,h.tag,(value?_set_ne e (by decide) _).trans h.number,
      (value?_set_ne e (by decide) _).trans h.part,rfl,h.tail,h.children⟩

lemma areLines_expanded {n : Nat} {ls : List (List Char)} {es : List Element} (tabSize : Int)
  (h : AreLines n ls es) : ∃ es', es.mapM (expandLine tabSize) = .ok es' ∧
    AreLines n (ls.map (expandTabsFrom tabSize.toNat 0)) es' := by
  induction ls generalizing n es with
  | nil =>
    cases es with
    | nil => exact ⟨[],rfl,trivial⟩
    | cons e es => exact absurd h id
  | cons cs ls ih =>
    cases es with
    | nil => exact absurd h id
    | cons e es =>
      obtain ⟨e',he,hln⟩ := expandLine_ok tabSize h.1
      obtain ⟨es',hes,hl⟩ := ih h.2
      refine ⟨e' :: es',?_,hln,hl⟩
      rw [mapM_cons,he,hes]
      rfl

lemma readLines_ok {tabSize : Int} (hs : 0 < tabSize) (src : String) {ls : List String}
  (hne : ∀ line ∈ ls, line ≠ "") : ∃ marked, Tree.readLines tabSize src ⟨ls,none⟩ = .ok marked ∧
    Forall₂ IsStrip (cutLines ((ls.map (expandTabs tabSize)).map String.toList)) marked := by
  obtain ⟨es,hes,hl⟩ := areLines_expanded tabSize (areLines_lineElements (some src) ls)
  have hm : (ls.map String.toList).map (expandTabsFrom tabSize.toNat 0) =
      (ls.map (expandTabs tabSize)).map String.toList := by
    rw [map_map,map_map]
    exact map_congr_left fun line _ => String.toList_ofList.symm
  have hf : ∀ cs ∈ (ls.map String.toList).map (expandTabsFrom tabSize.toNat 0), cs ≠ [] := by
    intro cs hcs
    obtain ⟨cs',hcs',rfl⟩ := mem_map.mp hcs
    obtain ⟨line,hln,rfl⟩ := mem_map.mp hcs'
    exact expandTabsFrom_ne_nil (by omega) 0 (by simpa using hne line hln)
  obtain ⟨marked,hmk,hst⟩ := readFrom_ok hf false hl
  refine ⟨marked,?_,?_⟩
  · simp only [Tree.readLines,hes,markComments,hmk,bind,Except.bind]
    rfl
  · rw [hm] at hst
    exact hst

end Tree

namespace Comment

lemma ne_empty_of_mem_readLines {tabSize : Int} (ht : 0 < tabSize) (text : String) :
  ∀ line ∈ readLines tabSize text, line ≠ "" := by
  intro line hl
  obtain ⟨raw,hm,rfl⟩ := mem_map.mp hl
  have hr : raw.toList ≠ [] := by simpa using Text.ne_empty_of_mem_fileLines _ raw hm
  have he := Text.expandTabsFrom_ne_nil (by omega : 0 < tabSize.toNat) 0 hr
  simpa [Text.expandTabs] using he

lemma no_tab_of_mem_readLines (tabSize : Int) (text : String) :
  ∀ line ∈ readLines tabSize text, '\t' ∉ line.toList := by
  intro line hl
  obtain ⟨raw,-,rfl⟩ := mem_map.mp hl
  rw [Text.expandTabs,String.toList_ofList]
  exact Text.not_mem_expandTabsFrom _ _ _

end Comment

end Docweave
