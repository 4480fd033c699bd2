import Docweave.Proofs.Base.Paths
import Mathlib.Data.List.TakeWhile

namespace Docweave

open List
open String (empty_append ofList toList_inj toList_ofList toList_append append_empty)

namespace Path

variable {name p : String}

def EndsSlashed (p : String) : Prop := p = "" ∨ ∃ q, p = q ++ "/"

lemma components_name (h : '/' ∉ name.toList) : components name = [name] := by
  rw [components,splitOn_eq_singleton h]
  simp

lemma components_leads (hp : EndsSlashed p) :
  ∃ cs, ∀ name : String, '/' ∉ name.toList → components (p ++ name) = cs ++ [name] := by
  rcases hp with rfl | ⟨q,rfl⟩
  · exact ⟨[],fun name h => by rw [empty_append,components_name h,nil_append]⟩
  · exact ⟨components q,fun name h => by rw [components_append_slash,components_name h]⟩

lemma rootOf_of_relative (h : isAbsolute p = false) : rootOf p = "" := by
  have hl : (p.toList.takeWhile (· == '/')).length = 0 := by
    rw [isAbsolute] at h
    cases hp : p.toList with
    | nil => rfl
    | cons c cs =>
      have hc : ¬ c = '/' := by simpa [hp] using h
      simp [hc]
  rw [rootOf,hl]
  rfl

lemma empty_mem_components (h : isAbsolute p) : "" ∈ components p := by
  obtain ⟨cs,hp⟩ := toList_of_absolute h
  have hs : p = "" ++ "/" ++ ofList cs := by
    rw [← toList_inj,hp]
    simp
  rw [hs,components_append_slash]
  exact mem_append_left _ (by decide)

lemma components_ne_nil (p : String) : components p ≠ [] := by
  rw [components,ne_eq,map_eq_nil_iff]
  exact splitOn_ne_nil '/' p.toList

lemma split_at_end (p : Char → Bool) (cs : List Char) :
  cs = (cs.reverse.dropWhile p).reverse ++ (cs.reverse.takeWhile p).reverse := by
  rw [← reverse_append,takeWhile_append_dropWhile,reverse_reverse]

lemma take_before_end (p : Char → Bool) (cs : List Char) :
  cs.take (cs.length - (cs.reverse.takeWhile p).reverse.length) = (cs.reverse.dropWhile p).reverse := by
  have hs := split_at_end p cs
  generalize (cs.reverse.dropWhile p).reverse = front,(cs.reverse.takeWhile p).reverse = back at hs ⊢
  rw [hs,length_append,Nat.add_sub_cancel,take_left]

lemma dropWhile_ends (c : Char) (cs : List Char) : (cs.reverse.dropWhile (· != c)).reverse = [] ∨
    ∃ pre, (cs.reverse.dropWhile (· != c)).reverse = pre ++ [c] := by
  cases hdr : cs.reverse.dropWhile (· != c) with
  | nil => exact .inl rfl
  | cons d ds =>
    have hd := head?_dropWhile_not (· != c) cs.reverse
    rw [hdr] at hd
    have hs : d = c := by simpa using hd
    exact .inr ⟨ds.reverse,by rw [hs,reverse_cons]⟩

lemma cut_spec (p : String) : p.toList = (cut p).1 ++ (cut p).2 ∧ '/' ∉ (cut p).2 ∧
  ((cut p).1 = [] ∨ ∃ cs, (cut p).1 = cs ++ ['/']) := by
  have hh : (cut p).1 = (p.toList.reverse.dropWhile (· != '/')).reverse := by
    exact take_before_end _ _
  refine ⟨?_,?_,?_⟩
  · rw [hh]
    exact split_at_end _ _
  · intro h
    have hm := mem_takeWhile_imp (mem_reverse.mp h)
    simp at hm
  · rw [hh]
    exact dropWhile_ends '/' p.toList

lemma cut_of_name {head name : List Char} (hn : '/' ∉ name)
  (hh : head = [] ∨ ∃ cs, head = cs ++ ['/']) : cut (ofList (head ++ name)) = (head,name) := by
  have he : (head ++ name).reverse.takeWhile (· != '/') = name.reverse := by
    have ha : ∀ c ∈ name.reverse, (c != '/') := by
      intro c hc
      rw [bne_iff_ne]
      rintro rfl
      exact hn (mem_reverse.mp hc)
    rw [reverse_append,takeWhile_append_of_pos ha]
    rcases hh with rfl | ⟨cs,rfl⟩
    · simp
    · simp
  have hl : (ofList (head ++ name)).length = (head ++ name).length := by
    rw [← String.length_toList,toList_ofList]
  simp only [cut,toList_ofList,he,reverse_reverse,hl,length_append,Nat.add_sub_cancel,take_left]

lemma no_slash_stem (p : String) : '/' ∉ (cutExtension (cut p).2).1 := by
  obtain ⟨-,hs,-⟩ := cut_spec p
  rw [cutExtension]
  split
  · exact fun h => hs (mem_of_mem_take h)
  · exact hs

lemma parent_beside (p : String) : parent ((splitExtension p).1 ++ ".md") = parent p := by
  obtain ⟨-,-,hh⟩ := cut_spec p
  have hn : '/' ∉ (cutExtension (cut p).2).1 ++ ".md".toList := by
    rw [mem_append,not_or]
    exact ⟨no_slash_stem p,by decide⟩
  have hb : (splitExtension p).1 ++ ".md" = ofList ((cut p).1 ++
    ((cutExtension (cut p).2).1 ++ ".md".toList)) := by
    rw [splitExtension,← append_assoc,String.ofList_append,String.ofList_toList]
  rw [parent,hb,cut_of_name hn hh,parent]

lemma dropCommon_self (ns : List String) : dropCommon ns ns = ([],[]) := by
  induction ns with
  | nil => rfl
  | cons n ns ih => rw [dropCommon,if_pos rfl,ih]

lemma relative_self {cwd up : String} (h : relative cwd p p = .ok up) : up = "." := by
  rw [relative] at h
  split at h
  · cases h
  · rw [dropCommon_self] at h
    exact (Except.ok.inj h).symm

lemma join_here (h : '/' ∉ name.toList) : join "." name = "./" ++ name := by
  have hr : isAbsolute name = false := by
    rw [isAbsolute]
    cases hn : name.toList with
    | nil => rfl
    | cons c cs =>
      rw [hn,mem_cons,not_or] at h
      simpa using Ne.symm h.1
  rw [join,hr]
  rfl

lemma proper_of_ending {stem ext : String} (he : 3 ≤ ext.length) (h : '/' ∉ (stem ++ ext).toList) :
  Proper (stem ++ ext) := by
  have hl {short : String} (hs : short.length < 3) : stem ++ ext ≠ short := by
    rintro rfl
    rw [String.length_append] at hs
    omega
  exact ⟨hl (by decide),hl (by decide),hl (by decide),h⟩

lemma exists_name {ext : String} (h : ext.toList <:+ p.toList) (he : '/' ∉ ext.toList) :
  ∃ lead stem, p = lead ++ (stem ++ ext) ∧ EndsSlashed lead ∧ '/' ∉ (stem ++ ext).toList := by
  obtain ⟨hs,hsl,hh⟩ := cut_spec p
  have hb : ext.toList <:+ (cut p).2 := by
    have hsf : (cut p).2 <:+ p.toList := ⟨_,hs.symm⟩
    rcases suffix_or_suffix_of_suffix h hsf with hsh | ⟨front,hf⟩
    · exact hsh
    obtain ⟨pre,hp⟩ := h
    rw [hs,← hf,← append_assoc,append_cancel_right_eq] at hp
    rcases eq_nil_or_concat front with rfl | ⟨cs,c,rfl⟩
    · exact ⟨[],hf.symm⟩
    rw [concat_eq_append] at hp hf
    rw [← hp,← append_assoc] at hh
    rcases hh with hn | ⟨cs',hcs'⟩
    · exact absurd hn (by simp)
    · obtain ⟨-,hc⟩ := append_inj' hcs' rfl
      rw [← hf,hc] at he
      exact absurd (by simp) he
  obtain ⟨stem,hst⟩ := hb
  have hnm : (ofList stem ++ ext).toList = (cut p).2 := by
    rw [toList_append,toList_ofList,hst]
  refine ⟨ofList (cut p).1,ofList stem,?_,?_,?_⟩
  · rw [← toList_inj,toList_append,hnm,toList_ofList]
    exact hs
  · rcases hh with hn | ⟨cs,hcs⟩
    · exact .inl (by rw [hn])
    · exact .inr ⟨ofList cs,by rw [hcs,String.ofList_append]⟩
  · rw [hnm]
    exact hsl

lemma leads_intercalate (ns : List String) (name : String) :
  ∃ lead, EndsSlashed lead ∧ "/".intercalate (ns ++ [name]) = lead ++ name := by
  induction ns with
  | nil => exact ⟨"",.inl rfl,by simp⟩
  | cons n ns ih =>
    obtain ⟨lead,hl,hr⟩ := ih
    have hc : "/".intercalate ((n :: ns) ++ [name]) = n ++ "/" ++ (lead ++ name) := by
      rw [← hr]
      cases ns with
      | nil => exact String.intercalate_cons_cons
      | cons m ns => exact String.intercalate_cons_cons
    refine ⟨n ++ "/" ++ lead,?_,by rw [hc]; simp only [String.append_assoc]⟩
    rcases hl with rfl | ⟨q,rfl⟩
    · exact .inr ⟨n,by rw [append_empty]⟩
    · exact .inr ⟨n ++ "/" ++ q,by simp only [String.append_assoc]⟩

lemma leads_root {root lead : String} (hr : root = "" ∨ IsRoot root) (hl : EndsSlashed lead) :
    EndsSlashed (root ++ lead) := by
  rcases hl with rfl | ⟨q,rfl⟩
  · rw [append_empty]
    rcases hr with rfl | rfl | rfl
    · exact .inl rfl
    · exact .inr ⟨"",rfl⟩
    · exact .inr ⟨"/",rfl⟩
  · exact .inr ⟨root ++ q,by rw [String.append_assoc]⟩

lemma root_of (p : String) : (Simple.of p).root = "" ∨ IsRoot (Simple.of p).root := by
  cases h : isAbsolute p with
  | false => exact .inl (rootOf_of_relative h)
  | true => exact .inr (isRoot_rootOf h)

namespace Simple

variable {p : Simple}

lemma cutName_xml {s : String} (h : s ≠ "") : cutName (s ++ ".xml") = (s,".xml") := by
  have hs : s.toList ≠ [] := fun hn => h (String.toList_eq_nil_iff.mp hn)
  rw [cutName]
  simp [hs]

lemma stem_ne_empty (h : p.name ≠ "") : p.stem ≠ "" := by
  rw [stem,cutName]
  split
  · exact h
  · rename_i hc
    simp only [Bool.or_eq_true,not_or] at hc
    simpa using hc.1.2

lemma withSuffix_xml {q : Simple} (h : p.withSuffix ".xml" = .ok q) :
  q.root = p.root ∧ q.names = p.names.dropLast ++ [p.stem ++ ".xml"] ∧ q.stem = p.stem ∧ q.suffix = ".xml" := by
  rw [withSuffix] at h
  split at h
  · cases h
  rename_i hn
  have hs : p.stem ≠ "" := stem_ne_empty fun he => hn (by rw [he]; rfl)
  cases h
  have hl : Simple.name { p with names := p.names.dropLast ++ [p.stem ++ ".xml"] } = p.stem ++ ".xml" := by
    rw [Simple.name,getLast?_concat]
    rfl
  refine ⟨rfl,rfl,?_,?_⟩
  · rw [Simple.stem,hl,cutName_xml hs]
  · rw [Simple.suffix,hl,cutName_xml hs]

lemma withName_ok {q : Simple} {name : String} (h : p.withName name = .ok q) :
  q.root = p.root ∧ q.names = p.names.dropLast ++ [name] ∧ '/' ∉ name.toList := by
  rw [withName] at h
  split at h
  · cases h
  split at h
  · cases h
  · rename_i hg
    cases h
    simp only [Bool.or_eq_true,not_or] at hg
    exact ⟨rfl,rfl,by simpa using hg.1.2⟩

lemma text_of_names {ns : List String} {name : String} (hr : p.root = "" ∨ IsRoot p.root)
  (hn : p.names = ns ++ [name]) (hne : name ≠ "") : ∃ lead, EndsSlashed lead ∧ p.text = lead ++ name := by
  obtain ⟨lead,hl,ht⟩ := leads_intercalate ns name
  refine ⟨p.root ++ lead,leads_root hr hl,?_⟩
  have hf : (p.root ++ (lead ++ name)).isEmpty = false := by
    rw [Bool.eq_false_iff,ne_eq,String.isEmpty_iff,String.append_eq_empty_iff,String.append_eq_empty_iff]
    exact fun h => hne h.2.2
  rw [text,hn,ht]
  simp only [hf,Bool.false_eq_true,if_false,String.append_assoc]

end Simple
end Path

namespace Files.Store

open Docweave.Path

variable {s s' : Store} {path text : String} {loc q start : Place} {c : Content} {cs : List String}

lemma lookup_put_ne (h : q ≠ loc) (c : Content) (l : List (Place × Content)) :
  (put loc c l).lookup q = l.lookup q := by
  have hq : (q == loc) = false := by simpa using h
  induction l with
  | nil => simp [put,lookup_cons,hq]
  | cons f l ih =>
    obtain ⟨p,d⟩ := f
    by_cases hp : p = loc
    · subst hp
      simp [put,lookup_cons,hq]
    · simp [put,hp,lookup_cons,ih]

structure Changes (s s' : Store) (place : Place) : Prop where
  folders : SameFolders s s'
  others : ∀ q, q ≠ place → s'.content? q = s.content? q

lemma changes_put (s : Store) (loc : Place) (c : Content) :
    Changes s { s with files := put loc c s.files } loc :=
  ⟨⟨rfl,rfl⟩,fun _ hq => lookup_put_ne hq c s.files⟩

lemma write_ok (h : s.write path text = .ok s') : ∃ loc, s.target path = .ok loc ∧ Changes s s' loc ∧
    s'.content? loc = some (.text text) := by
  obtain ⟨loc,ht,rfl⟩ := map_ok h
  exact ⟨loc,ht,changes_put s loc _,lookup_put loc _ s.files⟩

lemma append_ok (h : s.append path text = .ok s') : ∃ loc, s.target path = .ok loc ∧ Changes s s' loc ∧
    s'.content? loc = some (((s.content? loc).getD (.text "")).append text) := by
  obtain ⟨loc,ht,rfl⟩ := map_ok h
  exact ⟨loc,ht,changes_put s loc _,lookup_put loc _ s.files⟩

structure Holds (s : Store) (path : String) (place : Place) (c : Content) : Prop where
  target : s.target path = .ok place
  content : s.content? place = some c

lemma read_iff_holds : s.read path = .ok c ↔ ∃ loc, Holds s path loc c := by
  rw [read_ok_iff]
  constructor
  · rintro ⟨loc,hl,hd,hc⟩
    exact ⟨loc,target_of_locate hl hd,hc⟩
  · rintro ⟨loc,ht,hc⟩
    obtain ⟨hl,hd⟩ := target_ok ht
    exact ⟨loc,hl,hd,hc⟩

lemma Holds.read (h : Holds s path loc c) : s.read path = .ok c :=
  read_iff_holds.mpr ⟨loc,h⟩

lemma Holds.same (h : Holds s path loc c) (hs : SameFolders s s')
  (hc : s'.content? loc = s.content? loc) : Holds s' path loc c :=
  ⟨hs.target h.target,hc.trans h.content⟩

lemma Holds.changes (h : Holds s path loc c) (hs : Changes s s' q) (hq : loc ≠ q) : Holds s' path loc c :=
  h.same hs.folders (hs.others loc hq)

lemma Holds.append {t : String} (h : Holds s path loc (.text t)) (ha : s.append path text = .ok s') :
  Holds s' path loc (.text (t ++ text)) ∧ Changes s s' loc := by
  obtain ⟨q,ht,hc,hcn⟩ := append_ok ha
  obtain rfl : q = loc := Except.ok.inj (ht.symm.trans h.target)
  rw [h.content] at hcn
  exact ⟨⟨hc.folders.target ht,hcn⟩,hc⟩

lemma Holds.write (h : Holds s path loc c) (hw : s.write path text = .ok s') :
  Holds s' path loc (.text text) ∧ Changes s s' loc := by
  obtain ⟨q,ht,hc,hcn⟩ := write_ok hw
  obtain rfl : q = loc := Except.ok.inj (ht.symm.trans h.target)
  exact ⟨⟨hc.folders.target ht,hcn⟩,hc⟩

structure MoreFolders (s s' : Store) : Prop where
  home : s'.home = s.home
  files : s'.files = s.files
  kept : ∀ q, s.isFolderAt q = true → s'.isFolderAt q = true
  vacant : ∀ q, s'.isFolderAt q = true → s.isFolderAt q = true ∨ s.content? q = none

lemma MoreFolders.refl (s : Store) : MoreFolders s s :=
  ⟨rfl,rfl,fun _ h => h,fun _ h => .inl h⟩

lemma MoreFolders.trans {a b c : Store} (hab : MoreFolders a b) (hbc : MoreFolders b c) : MoreFolders a c := by
  refine ⟨hbc.home.trans hab.home,hbc.files.trans hab.files,
    fun q hq => hbc.kept q (hab.kept q hq),fun q hq => ?_⟩
  rcases hbc.vacant q hq with h | h
  · exact hab.vacant q h
  · refine .inr ?_
    rwa [content?,hab.files] at h

lemma moreFolders_addFolder (h : s.content? q = none) : MoreFolders s (s.addFolder q) := by
  rw [addFolder]
  split
  · exact .refl s
  refine ⟨rfl,rfl,fun p hp => ?_,fun p hp => ?_⟩
  · rw [isFolderAt,contains_iff_mem] at hp ⊢
    exact mem_append_left _ hp
  rw [isFolderAt,contains_iff_mem] at hp ⊢
  rcases mem_append.mp hp with hp | hp
  · exact .inl hp
  · obtain rfl := mem_singleton.mp hp
    exact .inr h

lemma moreFolders_makeFoldersFrom {ns : List String} (h : s.makeFoldersFrom start ns = .ok s') :
    MoreFolders s s' := by
  induction ns generalizing s start with
  | nil =>
    obtain rfl := Except.ok.inj h
    exact .refl s
  | cons n ns ih =>
    rw [makeFoldersFrom.eq_def] at h
    dsimp only at h
    split at h
    · exact ih h
    split at h
    · split at h <;> cases h
    · rename_i hc
      have hn : s.content? (start ++ [n]) = none := by simpa using hc
      exact (moreFolders_addFolder hn).trans (ih h)

lemma moreFolders_makeFolders (h : s.makeFolders path = .ok s') : MoreFolders s s' :=
  moreFolders_makeFoldersFrom h

lemma MoreFolders.holds (h : MoreFolders s s') (hs : Holds s path loc c) : Holds s' path loc c := by
  obtain ⟨hl,hd⟩ := target_ok hs.target
  have hc : s'.content? loc = some c := by
    rw [content?,h.files]
    exact hs.content
  refine ⟨target_of_locate ?_ ?_,hc⟩
  · exact locate_of_kept h.home h.kept hl
  · rw [Bool.eq_false_iff]
    intro hnw
    rcases h.vacant loc hnw with ht | hn
    · rw [hd] at ht
      cases ht
    · rw [hs.content] at hn
      cases hn

lemma follow_last {name : String} (hn : Proper name) (h : s.follow start (cs ++ [name]) = .ok loc) :
  loc.getLast? = some name := by
  induction cs generalizing start with
  | nil =>
    rw [nil_append,follow] at h
    split at h
    · cases h
    · rw [if_neg (not_or.mpr ⟨hn.ne_empty,hn.ne_here⟩),if_neg hn.ne_up] at h
      cases h
      exact getLast?_concat
  | cons c cs ih =>
    rw [cons_append,follow] at h
    split at h
    · cases h
    split at h
    · exact ih h
    · split at h
      · exact ih h
      · exact ih h

lemma locate_last {p name : String} (hp : EndsSlashed p) (hn : Proper name)
  (h : s.locate (p ++ name) = .ok loc) : loc.getLast? = some name := by
  obtain ⟨cs,hcs⟩ := components_leads hp
  rw [locate] at h
  split at h
  · cases h
  · rw [hcs _ hn.no_slash] at h
    exact follow_last hn h

lemma follow_simple (h : s.follow start cs = .ok loc) :
  s.follow start (cs.filter fun c => c ≠ "" ∧ c ≠ ".") = .ok loc := by
  induction cs generalizing start with
  | nil => exact h
  | cons c cs ih =>
    rw [follow] at h
    split at h
    · cases h
    rename_i hd
    split at h
    · rename_i hs
      rw [filter_cons_of_neg (by simp; tauto)]
      exact ih h
    rename_i hs
    rw [not_or] at hs
    rw [filter_cons_of_pos (by simp [hs]),follow,if_neg hd,if_neg (not_or.mpr hs)]
    split at h
    · rename_i hup
      rw [if_pos hup]
      exact ih h
    · rename_i hup
      rw [if_neg hup]
      exact ih h

lemma isFolderAt_of_follow (hne : cs ≠ []) (h : s.follow start cs = .ok loc) : s.isFolderAt start := by
  cases cs with
  | nil => exact absurd rfl hne
  | cons c cs =>
    rw [follow] at h
    split at h
    · cases h
    · rename_i hd
      simpa using hd

lemma follow_blank (s : Store) (start : Place) (c : String) (cs : List String) :
  s.follow start ("" :: c :: cs) = s.follow start (c :: cs) := by
  cases hd : s.isFolderAt start with
  | true => rw [follow,if_neg (by simp [hd]),if_pos (Or.inl rfl)]
  | false =>
    rw [follow,follow,hd]
    rfl

lemma follow_append (s : Store) (start : Place) (cs ds : List String) :
  s.follow start (cs ++ ds) = (s.follow start cs).bind fun loc => s.follow loc ds := by
  induction cs generalizing start with
  | nil => rfl
  | cons c cs ih =>
    rw [cons_append,follow,follow]
    split
    · rfl
    split
    · exact ih start
    · split
      · exact ih _
      · exact ih _

def startOf (s : Store) (p : Simple) : Place := if p.root = "" then s.home else []

lemma locate_text {p : Simple} (hr : p.root = "" ∨ IsRoot p.root) (hne : p.names ≠ [])
    (hfl : ∀ n ∈ p.names, n ≠ "")
  (hsl : ∀ n ∈ p.names, '/' ∉ n.toList) : s.locate p.text = s.follow (s.startOf p) p.names := by
  obtain ⟨root,names⟩ := p
  have hc := components_intercalate hsl hne
  have he : components "" = [""] := by decide
  obtain ⟨n,ns,rfl⟩ := exists_cons_of_ne_nil hne
  have ht (h : (root ++ "/".intercalate (n :: ns)).isEmpty = false) :
      Simple.text ⟨root,n :: ns⟩ = root ++ "/".intercalate (n :: ns) := by
    rw [Simple.text,h,if_neg Bool.false_ne_true]
  rcases hr with rfl | hr
  · have hf : ("" ++ "/".intercalate (n :: ns)).isEmpty = false := by
      rw [empty_append,Bool.eq_false_iff,ne_eq,String.isEmpty_iff]
      intro hn
      rw [hn] at hc
      exact hfl n mem_cons_self (cons.inj hc).1.symm
    have hrl : isAbsolute ("" ++ "/".intercalate (n :: ns)) = false := by
      rw [empty_append,Bool.eq_false_iff]
      intro hr
      have hm := empty_mem_components hr
      rw [hc] at hm
      exact hfl "" hm rfl
    rw [ht hf,locate,hf,if_neg Bool.false_ne_true,hrl,empty_append,hc]
    rfl
  have hf : (root ++ "/".intercalate (n :: ns)).isEmpty = false :=
    isEmpty_of_ne (hr.spell_ne_empty (n :: ns))
  have ha : isAbsolute (root ++ "/".intercalate (n :: ns)) :=
    isAbsolute_spell hr (n :: ns)
  have hst : s.startOf ⟨root,n :: ns⟩ = [] := if_neg hr.ne_empty
  rw [ht hf,locate,hf,if_neg Bool.false_ne_true,ha,if_pos rfl,hst]
  rcases hr with rfl | rfl
  · have hs : "/" ++ "/".intercalate (n :: ns) = "" ++ "/" ++ "/".intercalate (n :: ns) := rfl
    rw [hs,components_append_slash,hc]
    exact follow_blank s [] n ns
  · have hs : "//" ++ "/".intercalate (n :: ns) = ("" ++ "/" ++ "") ++ "/" ++ "/".intercalate (n :: ns) := rfl
    rw [hs,components_append_slash,components_append_slash,he,hc]
    rw [singleton_append,cons_append,singleton_append,follow_blank,follow_blank]

lemma simple_names (path : String) : ∀ n ∈ (Simple.of path).names, n ≠ "" ∧ n ≠ "." ∧ '/' ∉ n.toList := by
  intro n hn
  have hb := of_mem_filter hn
  simp only [decide_eq_true_eq] at hb
  exact ⟨hb.1,hb.2,no_slash_components (mem_of_mem_filter hn)⟩

lemma follow_of_locate (h : s.locate path = .ok loc) : s.isFolderAt (s.startOf (.of path)) ∧
    s.follow (s.startOf (.of path)) (Simple.of path).names = .ok loc := by
  have hs : s.startOf (.of path) = if isAbsolute path then [] else s.home := by
    cases ha : isAbsolute path with
    | false => exact if_pos (rootOf_of_relative ha)
    | true => exact if_neg (isRoot_rootOf ha).ne_empty
  rw [locate] at h
  split at h
  · cases h
  · rw [← hs] at h
    exact ⟨isFolderAt_of_follow (components_ne_nil path) h,follow_simple h⟩

lemma Holds.simple (h : Holds s path loc c) : Holds s (Simple.of path).text loc c := by
  obtain ⟨hl,hd⟩ := target_ok h.target
  obtain ⟨hs,hf⟩ := follow_of_locate hl
  have hne : (Simple.of path).names ≠ [] := by
    intro hnl
    rw [hnl] at hf
    obtain rfl := Except.ok.inj hf
    rw [hd] at hs
    cases hs
  refine ⟨target_of_locate ?_ hd,h.content⟩
  rw [locate_text (root_of path) hne (fun n hn => (simple_names path n hn).1) fun n hn =>
    (simple_names path n hn).2.2]
  exact hf

end Files.Store

end Docweave
