import Docweave.Proofs.Base.Paths
import Docweave.Proofs.Comments.SourceLines

namespace Docweave

open List

def total {α : Type} (f : α → Nat) : List α → Nat
  | [] => 0
  | x :: xs => f x + total f xs

lemma total_erase {α : Type} [BEq α] [LawfulBEq α] (f : α → Nat) {x : α} {xs : List α} (h : x ∈ xs) :
  total f xs = f x + total f (xs.erase x) := by
  induction xs with
  | nil => cases h
  | cons y xs ih =>
    by_cases hxy : y = x
    · subst hxy
      rw [erase_cons_head,total]
    · have hm : x ∈ xs := (mem_cons.mp h).resolve_left fun hx => hxy hx.symm
      rw [erase_cons_tail (by simpa using hxy),total,total,ih hm]
      omega

lemma total_congr {α : Type} {f g : α → Nat} {xs : List α}
    (h : ∀ x ∈ xs, f x = g x) : total f xs = total g xs := by
  induction xs with
  | nil => rfl
  | cons x xs ih =>
    rw [forall_mem_cons] at h
    rw [total,total,h.1,ih h.2]

namespace Text

lemma length_fileLinesFrom_le (cs : List Char) : (fileLinesFrom [] cs).length ≤ cs.length := by
  have hf (lines : List (List Char)) (h : ∀ line ∈ lines, line ≠ []) : lines.length ≤ lines.flatten.length := by
    induction lines with
    | nil => exact Nat.le_refl 0
    | cons line lines ih =>
      rw [forall_mem_cons] at h
      have hl := length_pos_iff.mpr h.1
      have hr := ih h.2
      rw [flatten_cons,length_append,length_cons]
      omega
  have h := hf _ (ne_nil_of_mem_fileLinesFrom [] cs)
  rwa [flatten_fileLines] at h

namespace Utf8

lemma follow_used {owed low high used value : Nat} {bytes : List Nat} {c : Char} {length : Nat}
  (h : follow owed low high used value bytes = .char c length) : used ≤ length := by
  fun_induction follow owed low high used value bytes with
  | case1 => simp_all
  | case2 => cases h
  | case3 low high used value b rest owed hb ih =>
    exact Nat.le_of_succ_le (ih h)
  | case4 => cases h

lemma lead_used {bytes : List Nat} {c : Char} {length : Nat} (h : lead bytes = .char c length) : 1 ≤ length := by
  rw [lead.eq_def] at h
  split at h
  · cases h
  split at h
  · cases h
  · split at h
    · cases h
    · exact follow_used h

lemma length_pieceFrom_le (fuel position : Nat) (bytes : List Nat) :
  (pieceFrom fuel position bytes).chars.length + (pieceFrom fuel position bytes).pending.length ≤
    bytes.length := by
  fun_induction pieceFrom fuel position bytes with
  | case1 => simp
  | case2 => simp
  | case3 => simp
  | case4 => simp
  | case5 fuel position bytes hne c length hl rest ih =>
    have hu := lead_used hl
    have hp : 0 < bytes.length := length_pos_iff.mpr fun h => hne h
    have hr : rest.chars.length + rest.pending.length ≤ (bytes.drop length).length := ih
    rw [length_drop] at hr
    simp only [length_cons]
    omega

lemma length_decodeFrom_le (size fuel : Nat) (pending bytes : List Nat) :
  (decodeFrom size fuel pending bytes).chars.length ≤ pending.length + bytes.length := by
  fun_induction decodeFrom size fuel pending bytes with
  | case1 => simp
  | case2 => simp
  | case3 => simp
  | case4 fuel pending bytes hne input piece hf rest ih =>
    have hp : piece.chars.length + piece.pending.length ≤ input.length :=
      length_pieceFrom_le _ _ input
    have hi : input.length = pending.length + (bytes.take size).length := length_append
    have hr : rest.chars.length ≤ piece.pending.length + (bytes.drop size).length := ih
    rw [length_drop] at hr
    rw [length_take] at hi
    simp only [length_append]
    omega

end Utf8

end Text

namespace Files

lemma Content.length_lines_le (c : Content) : c.lines.items.length ≤ c.size := by
  cases c with
  | text s =>
    have hl : (Content.text s).lines.items.length =
        (Text.fileLinesFrom [] (Text.normalizeNewlines s.toList)).length := by
      simp [lines,Text.fileLines]
    rw [hl]
    exact (Text.length_fileLinesFrom_le _).trans (Text.length_normalizeNewlines_le _)
  | bytes bs =>
    have hc : (Text.Utf8.decode bs).chars.length ≤ bs.length := by
      simpa [Text.Utf8.decode] using Text.Utf8.length_decodeFrom_le Text.Utf8.pieceSize (bs.length + 1) [] bs
    have hl (cs : List Char) :
      ((wholeLines (Text.normalizeNewlines cs)).map String.ofList).length ≤ cs.length := by
      rw [length_map]
      exact (length_filter_le _ _).trans ((Text.length_fileLinesFrom_le _).trans
        (Text.length_normalizeNewlines_le _))
    rw [lines]
    split
    · refine (hl _).trans (Nat.le_trans ?_ hc)
      rw [length_dropLast]
      exact Nat.sub_le _ _
    · exact (hl _).trans hc

namespace Store

def sizeAt (s : Store) (place : Place) : Nat := ((s.content? place).map Content.size).getD 0

lemma total_sizeAt_le (s : Store) {places : List Place} (h : places.Nodup) : total s.sizeAt places ≤ s.size := by
  obtain ⟨home,files,folders⟩ := s
  induction files generalizing places with
  | nil =>
    have hz : total (sizeAt ⟨home,[],folders⟩) places = total (fun _ => 0) places :=
      total_congr fun _ _ => rfl
    have hn : total (fun _ => 0) places = 0 := by
      clear hz h
      induction places with
      | nil => rfl
      | cons loc places ih => rw [total,ih]
    rw [hz,hn]
    exact Nat.zero_le _
  | cons f files ih =>
    obtain ⟨q,c⟩ := f
    have ho (places : List Place) (hq : q ∉ places) : total (sizeAt ⟨home,(q,c) :: files,folders⟩) places =
          total (sizeAt ⟨home,files,folders⟩) places := by
      refine total_congr fun loc hp => ?_
      have hne : (loc == q) = false := by
        simpa using fun heq : loc = q => hq (heq ▸ hp)
      simp [sizeAt,content?,lookup_cons,hne]
    have hs : size ⟨home,(q,c) :: files,folders⟩ = c.size + 1 + size ⟨home,files,folders⟩ := rfl
    by_cases hq : q ∈ places
    · have hh : sizeAt ⟨home,(q,c) :: files,folders⟩ q = c.size := by
        simp [sizeAt,content?]
      rw [total_erase _ hq,ho _ (h.not_mem_erase)]
      have hr := ih (h.erase q)
      omega
    · rw [ho _ hq]
      have hr := ih h
      omega

end Store

end Files

namespace Section

lemma length_gather_le (path : String) (current : Option (String × List String))
    (lines : List String)
  (err : Option Fault) : (gather path current lines err).items.length ≤
    lines.length + current.toList.length := by
  fun_induction gather path current lines err with
  | case1 => simp
  | case2 => simp
  | case3 => simp
  | case4 line rest err ih =>
    have ho : ((heading? line).map (·,([] : List String))).toList.length ≤ 1 := by
      cases heading? line <;> simp
    simp only [length_cons]
    omega
  | case5 name lines line rest err ht ih =>
    have ho : ((heading? line).map (·,([] : List String))).toList.length ≤ 1 := by
      cases heading? line <;> simp
    simp only [Stream.cons,length_cons,Option.toList_some]
    omega
  | case6 name lines line rest err ht ih =>
    simp only [Option.toList_some,length_cons] at ih ⊢
    omega

lemma length_read_le (path : String) (lines : Stream String) :
  (read path lines).items.length ≤ lines.items.length := by
  rw [read]
  simpa using length_gather_le path none lines.items lines.fault

end Section

namespace Shelf

open Files

variable {fs : Store} {sh sh' : Shelf} {path : String} {s : Section} {uri base : Option String}
  {loaded : List String}

lemma addAll_cons (path : String) (ns : List String) (s : Section) (rest : List Section) (err : Option Fault)
    (sh : Shelf) : (addAll path ns (s :: rest) err).perform sh = if ns.contains s.name then
        (.error (.repeatedSection s.name path),{ sh with sections := s :: sh.sections })
      else (addAll path (ns ++ [s.name]) rest err).perform ⟨s :: sh.sections,sh.files ++ [path]⟩ := by
  rw [addAll]
  by_cases h : ns.contains s.name
  · rw [if_pos h,if_pos h]
    rfl
  · rw [if_neg h,if_neg h]
    rfl

lemma addAll_ok_iff {ns : List String} {items : List Section} {err : Option Fault} :
  (addAll path ns items err).perform sh = (.ok (),sh') ↔
    err = none ∧ (items.map Section.name).Nodup ∧ (∀ s ∈ items, s.name ∉ ns) ∧
      sh' = ⟨items.reverse ++ sh.sections,sh.files ++ items.map fun _ => path⟩ := by
  induction items generalizing ns sh with
  | nil =>
    cases err with
    | none =>
      have hr : (addAll path ns [] none).perform sh = (.ok (),sh) := rfl
      rw [hr]
      simp [eq_comm]
    | some f =>
      have hr : (addAll path ns [] (some f)).perform sh = (.error f,sh) := rfl
      rw [hr]
      simp
  | cons s rest ih =>
    rw [addAll_cons]
    by_cases h : ns.contains s.name
    · have hm : s.name ∈ ns := by simpa using h
      simp [hm]
    have hm : s.name ∉ ns := by simpa using h
    rw [if_neg h,ih]
    simp only [map_cons,nodup_cons,forall_mem_cons,reverse_cons,append_assoc,mem_append,
      mem_singleton,not_or,mem_map,singleton_append,not_exists,not_and]
    constructor
    · rintro ⟨hf,hnd,hn,hsh⟩
      exact ⟨hf,⟨fun t ht => (hn t ht).2,hnd⟩,⟨hm,fun t ht => (hn t ht).1⟩,hsh⟩
    · rintro ⟨hf,⟨hs,hnd⟩,⟨-,hn⟩,hsh⟩
      exact ⟨hf,hnd,fun t ht => ⟨hn t ht,hs t ht⟩,hsh⟩

def sectionsOf (store : Store) (path : String) : Stream Section := Section.read path (store.lines path)

lemma perform_loadFile (fs : Store) (path : String) (sh : Shelf) : (loadFile fs path).perform sh =
      if sh.files.contains path then (.ok (),sh)
      else (addAll path [] (sectionsOf fs path).items (sectionsOf fs path).fault).perform
        sh := by
  by_cases h : sh.files.contains path
  · rw [if_pos h,loadFile,Act.perform_get_bind,if_pos h]
    rfl
  · rw [if_neg h,loadFile,Act.perform_get_bind,if_neg h]
    rfl

lemma loadFile_ok_iff : (loadFile fs path).perform sh = (.ok (),sh') ↔
    (path ∈ sh.files ∧ sh' = sh) ∨ (path ∉ sh.files ∧ (sectionsOf fs path).fault = none ∧
      ((sectionsOf fs path).items.map Section.name).Nodup ∧
      sh' = ⟨(sectionsOf fs path).items.reverse ++ sh.sections,
        sh.files ++ (sectionsOf fs path).items.map fun _ => path⟩) := by
  rw [perform_loadFile]
  by_cases h : sh.files.contains path
  · have hm : path ∈ sh.files := by simpa using h
    simp [hm,eq_comm]
  · have hm : path ∉ sh.files := by simpa using h
    rw [if_neg h,addAll_ok_iff]
    simp [hm]

def Fetched (store : Store) (file : Option String) (shelf shelf' : Shelf) : Prop :=
  match file with
  | none => shelf' = shelf
  | some path => (loadFile store path).perform shelf = (.ok (),shelf')

lemma tryCatch_ok_iff {a : Act Shelf Unit} {reword : Fault → Fault} :
  (tryCatch a fun err => Act.fail (reword err)).perform sh = (.ok (),sh') ↔ a.perform sh = (.ok (),sh') := by
  rcases h : a.perform sh with ⟨r,s⟩
  cases r with
  | error err =>
    have he : (Act.fail (reword err) : Act Shelf Unit).perform s = (.error (reword err),s) := rfl
    simp [Act.perform_tryCatch_error h,he]
  | ok x => rw [Act.perform_tryCatch_ok h]

lemma fetch_ok_iff {file : Option String} {uri : String} :
  (fetch fs uri base file).perform sh = (.ok (),sh') ↔ Fetched fs file sh sh' := by
  cases file with
  | none =>
    have hr : (fetch fs uri base none).perform sh = (.ok (),sh) := rfl
    simp [Fetched,hr,eq_comm]
  | some path => exact tryCatch_ok_iff

lemma pick_ok_iff {uri : String} {parts : Uri} {file : Option String} :
  (pick uri parts file).perform sh = (.ok s,sh') ↔
    sh' = sh ∧ (sh.sections.filter (fits parts file)).getLast? = some s := by
  rw [pick.eq_def,Act.perform_get_bind]
  cases (sh.sections.filter (fits parts file)).getLast? with
  | none =>
    constructor
    · intro h
      cases h
    · rintro ⟨-,h⟩
      cases h
  | some t =>
    have hr : (pure t : Act Shelf Section).perform sh = (.ok t,sh) := rfl
    simp [hr,eq_comm,and_comm]

lemma find_some (u : String) (base : Option String) : find fs (some u) base = (do
    let parts ← Act.ofExcept (Uri.parse (slashed u))
    let file ← Act.ofExcept (fileOf fs parts base)
    fetch fs u base file
    pick u parts file) := rfl

lemma find_ok_iff : (find fs uri base).perform sh = (.ok s,sh') ↔
    ∃ u parts file, uri = some u ∧ Uri.parse (slashed u) = .ok parts ∧
      fileOf fs parts base = .ok file ∧ Fetched fs file sh sh' ∧
      (sh'.sections.filter (fits parts file)).getLast? = some s := by
  constructor
  · intro h
    cases uri with
    | none => cases h
    | some u =>
      obtain ⟨parts,hp,hr⟩ := Act.ofExcept_bind_ok h
      obtain ⟨file,hfl,hf⟩ := Act.ofExcept_bind_ok hr
      obtain ⟨⟨⟩,s3,hft,hpc⟩ := Act.bind_ok hf
      obtain ⟨rfl,hl⟩ := pick_ok_iff.mp hpc
      exact ⟨u,parts,file,rfl,hp,hfl,fetch_ok_iff.mp hft,hl⟩
  · rintro ⟨u,parts,file,rfl,hp,hfl,hf,hl⟩
    rw [find_some,Act.perform_ofExcept_bind hp,Act.perform_ofExcept_bind hfl,
      Act.perform_bind (fetch_ok_iff.mpr hf)]
    exact pick_ok_iff.mpr ⟨rfl,hl⟩

lemma fileOf_absolute {parts : Uri} (h : fileOf fs parts base = .ok (some path)) :
    ∃ p, path = fs.absolute p := by
  rw [fileOf.eq_def] at h
  split at h
  · cases h
  split at h
  · cases base with
    | none => cases h
    | some base => exact ⟨_,(Option.some.inj (Except.ok.inj h)).symm⟩
  · cases h

lemma find_mem (h : (find fs uri base).perform sh = (.ok s,sh')) : s ∈ sh'.sections := by
  obtain ⟨_,_,_,-,-,-,-,hl⟩ := find_ok_iff.mp h
  exact mem_of_mem_filter (mem_of_getLast? hl)

def sectionCount (store : Store) (path : String) : Nat := (sectionsOf store path).items.length

structure Grown (store : Store) (shelf shelf' : Shelf) (loaded : List String) : Prop where
  nodup : loaded.Nodup
  files : ∀ path ∈ loaded, path ∈ shelf'.files
  absolute : ∀ path ∈ loaded, ∃ p, path = store.absolute p
  sections : shelf.sections <:+ shelf'.sections
  length : shelf'.sections.length = shelf.sections.length + total (sectionCount store) loaded

lemma Grown.refl (fs : Store) (sh : Shelf) : Grown fs sh sh [] :=
  ⟨.nil,by simp,by simp,suffix_rfl,rfl⟩

lemma Grown.load {sh0 : Shelf} (hg : Grown fs sh0 sh loaded) (hpt : ∃ p, path = fs.absolute p)
  (h : (loadFile fs path).perform sh = (.ok (),sh')) : ∃ loaded', Grown fs sh0 sh' loaded' := by
  rcases loadFile_ok_iff.mp h with ⟨-,rfl⟩ | ⟨hn,-,-,rfl⟩
  · exact ⟨loaded,hg⟩
  have hs : sh0.sections <:+ (sectionsOf fs path).items.reverse ++ sh.sections :=
    hg.sections.trans (suffix_append _ _)
  by_cases hi : (sectionsOf fs path).items = []
  · refine ⟨loaded,hg.nodup,?_,hg.absolute,hs,?_⟩
    · intro p hp
      exact mem_append_left _ (hg.files p hp)
    · simpa [hi] using hg.length
  refine ⟨path :: loaded,?_,?_,?_,hs,?_⟩
  · exact nodup_cons.mpr ⟨fun hp => hn (hg.files path hp),hg.nodup⟩
  · rw [forall_mem_cons]
    refine ⟨mem_append_right _ ?_,fun p hp => mem_append_left _ (hg.files p hp)⟩
    obtain ⟨item,hit⟩ := exists_mem_of_ne_nil _ hi
    exact mem_map.mpr ⟨item,hit,rfl⟩
  · rw [forall_mem_cons]
    exact ⟨hpt,hg.absolute⟩
  · rw [length_append,length_reverse,hg.length,total]
    rw [sectionCount]
    omega

lemma Grown.find {sh0 : Shelf} (hg : Grown fs sh0 sh loaded)
  (h : (find fs uri base).perform sh = (.ok s,sh')) : ∃ loaded', Grown fs sh0 sh' loaded' := by
  obtain ⟨_,parts,file,-,-,hfl,hf,-⟩ := find_ok_iff.mp h
  cases file with
  | none =>
    obtain rfl : sh' = sh := hf
    exact ⟨loaded,hg⟩
  | some path => exact hg.load (fileOf_absolute hfl) hf

lemma sectionCount_le (hpt : ∃ p, path = fs.absolute p) : sectionCount fs path = 0 ∨
    ∃ root loc, Path.IsRoot root ∧ path = Path.spell root loc ∧ sectionCount fs path ≤ fs.sizeAt loc := by
  obtain ⟨p,rfl⟩ := hpt
  have hc := Section.length_read_le (fs.absolute p) (fs.lines (fs.absolute p))
  cases hr : fs.read (fs.absolute p) with
  | error err =>
    left
    have hl : (fs.lines (fs.absolute p)).items = [] := by
      rw [Store.lines,hr]
      rfl
    rw [hl] at hc
    exact Nat.le_zero.mp hc
  | ok c =>
    right
    obtain ⟨loc,hp,-,hcn⟩ := Store.read_ok_iff.mp hr
    obtain ⟨root,hrt,hs⟩ := Store.absolute_of_locate hp
    refine ⟨root,loc,hrt,hs,hc.trans ?_⟩
    have hl : fs.lines (fs.absolute p) = c.lines := by rw [Store.lines,hr]
    rw [hl,Store.sizeAt,hcn]
    exact c.length_lines_le

lemma total_sectionCount_le (hn : loaded.Nodup) (hpt : ∀ path ∈ loaded, ∃ p, path = fs.absolute p) :
  ∃ single double : List Place, single.Nodup ∧ double.Nodup ∧
    (∀ loc ∈ single, Path.spell "/" loc ∈ loaded) ∧ (∀ loc ∈ double, Path.spell "//" loc ∈ loaded) ∧
    total (sectionCount fs) loaded ≤ total fs.sizeAt single + total fs.sizeAt double := by
  induction loaded with
  | nil => exact ⟨[],[],.nil,.nil,by simp,by simp,Nat.le_refl 0⟩
  | cons path loaded ih =>
    rw [nodup_cons] at hn
    rw [forall_mem_cons] at hpt
    obtain ⟨single,double,hs,hd,hsl,hdl,hle⟩ := ih hn.2 hpt.2
    have hsl' : ∀ loc ∈ single, Path.spell "/" loc ∈ path :: loaded :=
      fun loc hp => mem_cons_of_mem path (hsl loc hp)
    have hdl' : ∀ loc ∈ double, Path.spell "//" loc ∈ path :: loaded :=
      fun loc hp => mem_cons_of_mem path (hdl loc hp)
    rw [total]
    rcases sectionCount_le hpt.1 with hz | ⟨root,loc,hr,rfl,hc⟩
    · exact ⟨single,double,hs,hd,hsl',hdl',by omega⟩
    rcases hr with rfl | rfl
    · refine ⟨loc :: single,double,?_,hd,?_,hdl',by rw [total]; omega⟩
      · exact nodup_cons.mpr ⟨fun hp => hn.1 (hsl loc hp),hs⟩
      · rw [forall_mem_cons]
        exact ⟨mem_cons_self,hsl'⟩
    · refine ⟨single,loc :: double,hs,?_,hsl',?_,by rw [total]; omega⟩
      · exact nodup_cons.mpr ⟨fun hp => hn.1 (hdl loc hp),hd⟩
      · rw [forall_mem_cons]
        exact ⟨mem_cons_self,hdl'⟩

lemma Grown.length_le (hg : Grown fs sh sh' loaded) :
    sh'.sections.length ≤ 2 * fs.size + sh.sections.length := by
  obtain ⟨single,double,hs,hd,-,-,hle⟩ := total_sectionCount_le hg.nodup hg.absolute
  have hsn := fs.total_sizeAt_le hs
  have hdb := fs.total_sizeAt_le hd
  rw [hg.length]
  omega

end Shelf

end Docweave
