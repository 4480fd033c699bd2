import Docweave.Proofs.Base.Storage

namespace Docweave

open List
open String (ofList toList_inj append_empty toList_eq_nil_iff toList_append ofList_append
  ofList_toList empty_append toList_ofList)

namespace Path

variable {start rel lead p q cwd root name : String} {kept names ns : List String}

lemma components_empty : components "" = [""] := by decide

lemma normalizeStep_empty (rooted : Bool) (kept : List String) : normalizeStep rooted kept "" = kept := by
  rw [normalizeStep.eq_def,if_pos (Or.inl rfl)]

lemma normalizeStep_proper (h : Proper name) (kept : List String) :
    normalizeStep true kept name = name :: kept := by
  rw [normalizeStep.eq_def,if_neg (not_or.mpr ⟨h.ne_empty,h.ne_here⟩),if_pos h.ne_up]

lemma normalizeStep_up (h : ∀ n ∈ kept, Proper n) : normalizeStep true kept ".." = kept.tail := by
  cases kept with
  | nil => rfl
  | cons n kept =>
    have hn := (h n mem_cons_self).ne_up
    rw [normalizeStep.eq_def,if_neg (by decide),if_neg (by decide)]
    split
    · contradiction
    · rename_i heq
      exact absurd (cons.inj heq).1 hn
    · rename_i heq
      rw [(cons.inj heq).2]
      rfl

lemma walk_append_slash (p q : String) (kept : List String) :
    walk (p ++ "/" ++ q) kept = walk q (walk p kept) := by
  rw [walk,components_append_slash,foldl_append]
  rfl

lemma walk_join (hp : p ≠ "") (hq : isAbsolute q = false) (kept : List String) :
  walk (join p q) kept = walk q (walk p kept) := by
  rw [join,hq,if_neg Bool.false_ne_true,isEmpty_of_ne hp]
  split
  · rename_i hs
    obtain ⟨cs,hcs⟩ := getLast?_eq_some_iff.mp (beq_iff_eq.mp hs)
    obtain rfl : p = ofList cs ++ "/" ++ "" := by
      rw [← toList_inj,hcs]
      simp
    rw [append_empty,walk_append_slash]
    have hw : walk (ofList cs ++ "/") kept = walk (ofList cs) kept := by
      rw [← append_empty (s := ofList cs ++ "/"),walk_append_slash,walk,components_empty,
        foldl_cons,normalizeStep_empty,foldl_nil]
    rw [hw]
  · exact walk_append_slash p q kept

lemma walk_up (h : ∀ n ∈ kept, Proper n) : walk ".." kept = kept.tail := by
  have hup : components ".." = [".."] := by decide
  rw [walk,hup,foldl_cons,foldl_nil,normalizeStep_up h]

lemma proper_walk (p : String) (h : ∀ n ∈ kept, Proper n) : ∀ n ∈ walk p kept, Proper n :=
  proper_normalizeSteps h fun _ => no_slash_components

lemma foldl_names {cs : List String} (h : ∀ c ∈ cs, c = "" ∨ Proper c) (kept : List String) :
  cs.foldl (normalizeStep true) kept = (cs.filter (· ≠ "")).reverse ++ kept := by
  induction cs generalizing kept with
  | nil => rfl
  | cons c cs ih =>
    rw [forall_mem_cons] at h
    rw [foldl_cons,ih h.2]
    rcases h.1 with rfl | hc
    · rw [normalizeStep_empty]
      rfl
    · rw [normalizeStep_proper hc,filter_cons_of_pos (by simpa using hc.ne_empty),reverse_cons,append_assoc]
      rfl

lemma walk_spell (hr : IsRoot root) (h : ∀ n ∈ ns, Proper n) : walk (spell root ns) [] = ns.reverse := by
  obtain ⟨hp,hf⟩ := components_spell hr h
  rw [walk,foldl_names hp,hf,append_nil]

lemma namesOf_spell (hr : IsRoot root) (h : ∀ n ∈ ns, Proper n) : namesOf (spell root ns) = ns :=
  (components_spell hr h).2

def startOf (cwd p : String) : List String := if isAbsolute p then [] else walk cwd []

lemma getLast?_spell (root : String) (hne : names ≠ []) (h : ∀ n ∈ names, Proper n) :
  (spell root names).toList.getLast? ≠ some '/' := by
  obtain ⟨ns,n,rfl⟩ := eq_nil_or_concat names |>.resolve_left hne
  have hn := h n (by simp)
  obtain ⟨cs,c,hcs⟩ := eq_nil_or_concat n.toList |>.resolve_left
    (fun hnl => hn.ne_empty (toList_eq_nil_iff.mp hnl))
  obtain ⟨lead,-,hl⟩ := leads_intercalate ns n
  rw [concat_eq_append] at hcs ⊢
  rw [spell,hl,toList_append,toList_append,hcs,← append_assoc,← append_assoc,getLast?_concat]
  rintro ⟨rfl⟩
  exact hn.no_slash (by rw [hcs]; simp)

lemma parent_spell (hr : IsRoot root) (h : ∀ n ∈ ns ++ [name], Proper n) :
  parent (spell root (ns ++ [name])) = spell root ns := by
  have hnm : '/' ∉ name.toList := (h name (by simp)).no_slash
  have hns : ∀ n ∈ ns, Proper n := fun n hn => h n (mem_append_left _ hn)
  by_cases hne : ns = []
  · subst hne
    have ht : spell root ([] ++ [name]) = ofList (root.toList ++ name.toList) := by
      rw [spell,nil_append,String.intercalate_singleton,ofList_append,ofList_toList,ofList_toList]
    have hh : root.toList = [] ∨ ∃ cs, root.toList = cs ++ ['/'] := by
      rcases hr with rfl | rfl
      · exact .inr ⟨[],rfl⟩
      · exact .inr ⟨['/'],rfl⟩
    rw [parent,ht,cut_of_name hnm hh]
    rcases hr with rfl | rfl <;> rfl
  have ht : spell root (ns ++ [name]) = ofList (((spell root ns).toList ++ ['/']) ++ name.toList) := by
    rw [spell,String.intercalate_append_of_ne_nil hne (cons_ne_nil _ _),← toList_inj,spell]
    simp
  have hl := getLast?_spell root hne hns
  have htr : Text.dropEndWhile (· == '/') ((spell root ns).toList ++ ['/']) = (spell root ns).toList := by
    rw [Text.dropEndWhile,reverse_append,reverse_singleton,singleton_append,dropWhile_cons_of_pos (by decide)]
    cases hcs : (spell root ns).toList.reverse with
    | nil =>
      rw [reverse_eq_nil_iff.mp hcs]
      rfl
    | cons c cs =>
      have hc : (c == '/') = false := by
        rw [beq_eq_false_iff_ne]
        rintro rfl
        rw [← head?_reverse,hcs] at hl
        exact hl rfl
      rw [dropWhile_cons_of_neg (by simp [hc]),← hcs,reverse_reverse]
  have hf : (spell root ns).toList.isEmpty = false := by
    rw [isEmpty_eq_false_iff,ne_eq,toList_eq_nil_iff]
    exact hr.spell_ne_empty ns
  rw [parent,ht,cut_of_name hnm (.inr ⟨_,rfl⟩)]
  simp only [htr,hf,Bool.false_eq_true,if_false,ofList_toList]

section

variable {common up down : List String} {n : Nat} {c : Char}

end

lemma relative_ok (cwd start : String) (h : p ≠ "") : ∃ rel, relative cwd p start = .ok rel := by
  rw [relative,isEmpty_of_ne h]
  exact ⟨_,rfl⟩

end Path

namespace Uri

variable {cs a : List Char}

def isReserved (c : Char) : Bool := ['#','?','\\','\t','\r','\n'].contains c

def shown (cs : List Char) : List Char :=
  ((cs.map fun c => if c = '\\' then '/' else c).filter fun c =>
    c != '\t' && c != '\r' && c != '\n').takeWhile fun c => c != '#' && c != '?'

lemma cutAt_fst (c : Char) (cs : List Char) : ((cutAt c cs).getD (cs,[])).1 = cs.takeWhile (· != c) := by
  have hs := takeWhile_append_dropWhile (p := (· != c)) (l := cs)
  rw [cutAt]
  split
  · rename_i hn
    rw [hn,append_nil] at hs
    exact hs.symm
  · rfl

end Uri

namespace Path

open Uri

variable {c : Char} {p : String} {down : List String}

def load : List String → Nat
  | [] => 0
  | n :: names => n.toList.countP isReserved + load names

variable {kept : List String}

end Path

end Docweave
