import Docweave.Proofs.Jobs.Runs

namespace Docweave

open List

namespace Path

variable {root p : String}

structure Proper (name : String) : Prop where
  ne_empty : name ≠ ""
  ne_here : name ≠ "."
  ne_up : name ≠ ".."
  no_slash : '/' ∉ name.toList

def spell (root : String) (names : List String) : String := root ++ "/".intercalate names

lemma toList_spell (root : String) (ns : List String) :
  (spell root ns).toList = root.toList ++ ['/'].intercalate (ns.map String.toList) := by
  rw [spell,String.toList_append,String.toList_intercalate]
  rfl

lemma not_mem_splitOn (c : Char) (cs : List Char) : ∀ part ∈ cs.splitOn c, c ∉ part := by
  induction cs with
  | nil => simp
  | cons d cs ih =>
    rw [splitOn_cons_eq_if_modifyHead]
    cases hp : cs.splitOn c with
    | nil => exact absurd hp (splitOn_ne_nil c cs)
    | cons part parts =>
      rw [hp,forall_mem_cons] at ih
      split
      · rw [forall_mem_cons]
        exact ⟨not_mem_nil,forall_mem_cons.mpr ih⟩
      rename_i hd
      rw [modifyHead_cons,forall_mem_cons]
      refine ⟨fun hm => ?_,ih.2⟩
      rcases mem_cons.mp hm with rfl | hm
      · exact hd (by simp)
      · exact ih.1 hm

lemma no_slash_components {n : String} (h : n ∈ components p) : '/' ∉ n.toList := by
  obtain ⟨cs,hcs,rfl⟩ := mem_map.mp h
  rw [String.toList_ofList]
  exact not_mem_splitOn '/' p.toList cs hcs

lemma proper_normalizeStep {kept : List String} {component : String} (hk : ∀ n ∈ kept, Proper n)
  (hsl : '/' ∉ component.toList) : ∀ n ∈ normalizeStep true kept component, Proper n := by
  rw [normalizeStep.eq_def]
  split
  · exact hk
  rename_i hs
  rw [not_or] at hs
  split
  · rename_i hup
    rw [forall_mem_cons]
    exact ⟨⟨hs.1,hs.2,hup,hsl⟩,hk⟩
  split
  · simp
  · rename_i rest
    exact absurd rfl (hk ".." mem_cons_self).ne_up
  · rename_i n rest _
    exact fun m hm => hk m (mem_cons_of_mem n hm)

lemma proper_normalizeSteps {components kept : List String} (hk : ∀ n ∈ kept, Proper n)
  (hs : ∀ n ∈ components, '/' ∉ n.toList) : ∀ n ∈ components.foldl (normalizeStep true) kept, Proper n := by
  induction components generalizing kept with
  | nil => exact hk
  | cons c cs ih =>
    rw [forall_mem_cons] at hs
    exact ih (proper_normalizeStep hk hs.1) hs.2

def IsRoot (root : String) : Prop := root = "/" ∨ root = "//"

lemma toList_of_absolute (h : isAbsolute p) : ∃ cs, p.toList = '/' :: cs := by
  rw [isAbsolute,beq_iff_eq] at h
  exact head?_eq_some_iff.mp h

lemma isRoot_rootOf (h : isAbsolute p) : IsRoot (rootOf p) := by
  have hl : (p.toList.takeWhile (· == '/')).length ≠ 0 := by
    obtain ⟨cs,hp⟩ := toList_of_absolute h
    simp [hp]
  rw [rootOf]
  split
  · exact absurd ‹_› hl
  · exact Or.inr rfl
  · exact Or.inl rfl

lemma IsRoot.ne_empty (h : IsRoot root) : root ≠ "" := by
  rcases h with rfl | rfl <;> decide

lemma isEmpty_of_ne (h : p ≠ "") : p.isEmpty = false := by
  rwa [Bool.eq_false_iff,ne_eq,String.isEmpty_iff]

lemma IsRoot.spell_ne_empty (h : IsRoot root) (ns : List String) : spell root ns ≠ "" := by
  rw [spell,ne_eq,String.append_eq_empty_iff]
  exact fun hn => h.ne_empty hn.1

def walk (p : String) (kept : List String) : List String :=
  (components p).foldl (normalizeStep true) kept

lemma normalize_eq (h : isAbsolute p) : normalize p = spell (rootOf p) (walk p []).reverse := by
  have hr := isRoot_rootOf h
  have hrt : decide (rootOf p ≠ "") := by simpa using hr.ne_empty
  have hne := isEmpty_of_ne (hr.spell_ne_empty (walk p []).reverse)
  rw [normalize]
  simp only [hrt]
  exact if_neg (Bool.eq_false_iff.mp hne)

lemma normalize_absolute (h : isAbsolute p) :
  ∃ root ns, IsRoot root ∧ (∀ n ∈ ns, Proper n) ∧ normalize p = spell root ns := by
  refine ⟨_,_,isRoot_rootOf h,fun n hn => ?_,normalize_eq h⟩
  exact proper_normalizeSteps (by simp) (fun _ => no_slash_components) n (mem_reverse.mp hn)

lemma isAbsolute_append (h : isAbsolute p) (q : String) : isAbsolute (p ++ q) := by
  obtain ⟨cs,hp⟩ := toList_of_absolute h
  simp [isAbsolute,hp]

lemma isAbsolute_join {q : String} (h : isAbsolute p) : isAbsolute (join p q) := by
  have hf := isAbsolute_append h
  rw [join]
  split
  · assumption
  · split
    · exact hf q
    · rw [String.append_assoc]
      exact hf _

lemma absolute_spelled {cwd : String} (hc : isAbsolute cwd) (p : String) :
  ∃ root ns, IsRoot root ∧ (∀ n ∈ ns, Proper n) ∧ absolute cwd p = spell root ns := by
  rw [absolute]
  split
  · exact normalize_absolute ‹_›
  · exact normalize_absolute (isAbsolute_join hc)

lemma components_append_slash (p : String) (q : String) :
  components (p ++ "/" ++ q) = components p ++ components q := by
  have ht : (p ++ "/" ++ q).toList = p.toList ++ '/' :: q.toList := by simp
  rw [components,ht,splitOn_append_cons_self,map_append]
  rfl

lemma components_intercalate {ns : List String} (hn : ∀ n ∈ ns, '/' ∉ n.toList)
  (hne : ns ≠ []) : components ("/".intercalate ns) = ns := by
  have hs : (['/'].intercalate (ns.map String.toList)).splitOn '/' = ns.map String.toList :=
    splitOn_intercalate '/' (by simpa using hn) (by simpa using hne)
  rw [components,String.toList_intercalate]
  change List.map String.ofList ((['/'].intercalate (ns.map String.toList)).splitOn '/') = ns
  rw [hs]
  simp

lemma isAbsolute_spell (h : IsRoot root) (ns : List String) : isAbsolute (spell root ns) := by
  rw [isAbsolute,toList_spell]
  rcases h with rfl | rfl <;> rfl

lemma components_spell {ns : List String} (hr : IsRoot root) (hnm : ∀ n ∈ ns, Proper n) :
  (∀ c ∈ components (spell root ns), c = "" ∨ Proper c) ∧ (components (spell root ns)).filter (· ≠ "") = ns := by
  have he : components "" = [""] := by decide
  have hl : (∀ c ∈ components ("/".intercalate ns), c = "" ∨ Proper c) ∧
      (components ("/".intercalate ns)).filter (· ≠ "") = ns := by
    by_cases hne : ns = []
    · subst hne
      rw [String.intercalate_nil,he]
      simp
    · rw [components_intercalate (fun n hn => (hnm n hn).no_slash) hne]
      refine ⟨fun c hc => Or.inr (hnm c hc),filter_eq_self.mpr fun c hc => ?_⟩
      simpa using (hnm c hc).ne_empty
  rcases hr with rfl | rfl
  · have hs : spell "/" ns = "" ++ "/" ++ "/".intercalate ns := rfl
    rw [hs,components_append_slash,he]
    simpa using hl
  · have hs : spell "//" ns = ("" ++ "/" ++ "") ++ "/" ++ "/".intercalate ns := rfl
    rw [hs,components_append_slash,components_append_slash,he]
    simpa using hl

end Path

namespace Files.Store

open Docweave.Path

variable {s : Store} {loc : Place}

lemma follow_names {cs : List String} {start : Place} (hcs : ∀ c ∈ cs, c = "" ∨ Proper c)
  (h : s.follow start cs = .ok loc) : loc = start ++ cs.filter (· ≠ "") := by
  induction cs generalizing start with
  | nil =>
    cases h
    simp
  | cons c cs ih =>
    rw [forall_mem_cons] at hcs
    rw [follow] at h
    split at h
    · cases h
    rcases hcs.1 with rfl | hc
    · rw [if_pos (Or.inl rfl)] at h
      simpa using ih hcs.2 h
    · rw [if_neg (not_or.mpr ⟨hc.ne_empty,hc.ne_here⟩),if_neg hc.ne_up] at h
      rw [ih hcs.2 h,filter_cons_of_pos (by simpa using hc.ne_empty),append_assoc]
      rfl

lemma locate_spell {root : String} {ns : List String} (hr : IsRoot root)
  (hn : ∀ n ∈ ns, Proper n) (h : s.locate (spell root ns) = .ok loc) : loc = ns := by
  obtain ⟨hp,hf⟩ := components_spell hr hn
  rw [locate] at h
  split at h
  · cases h
  · rw [if_pos (isAbsolute_spell hr ns)] at h
    rw [follow_names hp h,hf,nil_append]

lemma read_ok_iff {path : String} {c : Content} : s.read path = .ok c ↔
    ∃ loc, s.locate path = .ok loc ∧ s.isFolderAt loc = false ∧ s.content? loc = some c := by
  rw [read]
  cases s.locate path with
  | error dead => simp
  | ok loc =>
    cases hd : s.isFolderAt loc with
    | true => simp [hd]
    | false => cases hc : s.content? loc <;> simp [hd,hc]

lemma isAbsolute_cwd (s : Store) : Path.isAbsolute s.cwd := by
  rw [Path.isAbsolute,cwd,String.toList_append]
  rfl

lemma absolute_of_locate {path : String} (h : s.locate (s.absolute path) = .ok loc) :
  ∃ root, IsRoot root ∧ s.absolute path = spell root loc := by
  obtain ⟨root,ns,hr,hn,hs⟩ := absolute_spelled s.isAbsolute_cwd path
  have hp : s.absolute path = spell root ns := hs
  rw [hp] at h
  rw [locate_spell hr hn h]
  exact ⟨root,hr,hp⟩

end Files.Store

end Docweave
