import Docweave.Proofs.Jobs.Extraction

namespace Docweave

open List

namespace Section

lemma path_of_gather {path : String} {current : Option (String × List String)} {ls : List String}
  {fault : Option Fault} {s : Section} (h : s ∈ (gather path current ls fault).items) : s.path = path := by
  induction ls generalizing current with
  | nil =>
    cases current with
    | none => cases h
    | some p =>
      cases fault with
      | none => rw [mem_singleton.mp h]
      | some f => cases h
  | cons line ls ih =>
    cases current with
    | none =>
      exact ih h
    | some p =>
      rw [gather] at h
      split at h
      · rcases mem_cons.mp h with rfl | hr
        · rfl
        · exact ih hr
      · exact ih h

lemma gather_at_top {path top : String} (ht : isTop top) (current : Option (String × List String))
  (ls rest : List String) : ∃ pre, (gather path current (ls ++ top :: rest) none).items =
    pre ++ (gather path none (top :: rest) none).items := by
  induction ls generalizing current with
  | nil =>
    cases current with
    | none => exact ⟨[],rfl⟩
    | some p => exact ⟨[_],by rw [nil_append,gather_top ht]; rfl⟩
  | cons line ls ih =>
    cases current with
    | none => exact ih _
    | some p =>
      cases hl : isTop line with
      | true =>
        obtain ⟨pre,hp⟩ := ih ((heading? line).map (·,[]))
        refine ⟨⟨path,p.1,closeLines p.2⟩ :: pre,?_⟩
        rw [cons_append,gather_top hl]
        exact congrArg (_ :: ·) hp
      | false =>
        obtain ⟨pre,hp⟩ := ih (some (p.1,p.2 ++ [line]))
        have hb : gather path (some p) ([line] ++ (ls ++ top :: rest)) none =
            gather path (some (p.1,p.2 ++ [line])) (ls ++ top :: rest) none :=
          gather_body (forall_mem_singleton.mpr hl)
        exact ⟨pre,(congrArg Stream.items hb).trans hp⟩

end Section

namespace Tree.Extracted

open Text Section

lemma sections_of_fragments (path : String) (xs : List Extracted) :
  ∃ heads, heads.Sublist (gather path none (xs.flatMap fragmentLines) none).items ∧
    Forall₂ (fun x s => s.name = x.name ∧ (ReadsAs x s → x.Quiet)) xs heads := by
  induction xs with
  | nil => exact ⟨[],nil_sublist _,.nil⟩
  | cons x xs ih =>
    obtain ⟨heads,hs,hh⟩ := ih
    have hr (current : Option (String × List String)) (ls : List String) :
        heads.Sublist (gather path current (ls ++ xs.flatMap fragmentLines) none).items := by
      cases xs with
      | nil =>
        obtain rfl := forall₂_nil_left_iff.mp hh
        exact nil_sublist _
      | cons y ys =>
        obtain ⟨pre,hp⟩ := gather_at_top (isTop_name y.name) current ls
          (fileLines (y.body ++ "\n") ++ ys.flatMap fragmentLines)
        rw [flatMap_fragmentLines] at hs ⊢
        rw [hp]
        exact hs.trans (sublist_append_right _ _)
    rw [gather_fragment]
    by_cases hq : ∀ line ∈ fileLines (x.body ++ "\n"), isTop line = false
    · have hx : x.Quiet := (quiet_iff x).mpr hq
      rw [gather_body hq,nil_append]
      cases xs with
      | nil =>
        exact ⟨[⟨path,x.name,fileLines (x.body ++ "\n")⟩],List.Sublist.refl _,.cons ⟨rfl,fun _ => hx⟩ .nil⟩
      | cons y ys =>
        refine ⟨⟨path,x.name,closeLines (fileLines (x.body ++ "\n"))⟩ :: heads,?_,.cons ⟨rfl,fun _ => hx⟩ hh⟩
        rw [gather_next]
        exact hs.cons_cons _
    obtain ⟨pre,line,after,hl,hp,ht⟩ := exists_first_top hq
    refine ⟨⟨path,x.name,closeLines pre⟩ :: heads,?_,.cons ⟨rfl,?_⟩ hh⟩
    · rw [hl,append_assoc,gather_body hp,cons_append,gather_top ht,nil_append]
      exact (hr none (line :: after)).cons_cons _
    · exact fun h => absurd h (not_reads_of_top hl ht)

end Tree.Extracted

namespace Uri

lemma parse_local {s : String} {cs : List Char} (h : clean s = ['d','o','c',':','/','/','#'] ++ cs) :
    parse s = .ok { scheme := "doc", fragment := String.ofList cs } := by
  rw [parse,h]
  rfl

lemma authority_of_dotted {s : String} {cs : List Char} {parts : Uri}
  (h : clean s = ['d','o','c',':','/','/','.'] ++ cs) (hp : parse s = .ok parts) : parts.authority ≠ "" := by
  rw [parse,h] at hp
  obtain ⟨_,-,rfl⟩ := map_ok hp
  have hc : (String.ofList (cutAuthority (['/','/','.'] ++ cs)).1).toList.head? = some '.' := by
    rw [String.toList_ofList]
    rfl
  intro he
  have hs : String.ofList (cutAuthority (['/','/','.'] ++ cs)).1 = "" := he
  rw [hs] at hc
  cases hc

end Uri

namespace Shelf

open Files

variable {store st : Store} {ps : List String} {p file : String} {sh sh' : Shelf} {s : Section}

def namesIn (store : Store) (path : String) : List String :=
  (sectionsOf store path).items.map Section.name

abbrev itemsIn (store : Store) (path : String) : List Section := (sectionsOf store path).items

abbrev stock (store : Store) (ps : List String) : List Section := ps.flatMap (itemsIn store)

lemma stock_cons (st : Store) (p : String) (ps : List String) :
    stock st (p :: ps) = itemsIn st p ++ stock st ps :=
  flatMap_cons

lemma stock_concat (st : Store) (ps : List String) (p : String) :
    stock st (ps ++ [p]) = stock st ps ++ itemsIn st p := by
  rw [stock,flatMap_append,flatMap_singleton]

structure Loadable (store : Store) (path : String) : Prop where
  sound : (sectionsOf store path).fault = none
  distinct : (namesIn store path).Nodup

structure Stocked (store : Store) (ps : List String) (shelf : Shelf) : Prop where
  loadable : ∀ p ∈ ps, Loadable store p
  files : ∀ p, p ∈ shelf.files ↔ p ∈ ps ∧ itemsIn store p ≠ []
  first : ∀ fits : Section → Bool, (shelf.sections.filter fits).getLast? =
    (stock store ps).find? fits

lemma stocked_nil (st : Store) : Stocked st [] {} :=
  ⟨forall_mem_nil _,by simp,fun _ => rfl⟩

lemma Stocked.load (h : Stocked st ps sh)
  (hl : (loadFile st p).perform sh = (.ok (),sh')) : Stocked st (ps ++ [p]) sh' := by
  rcases loadFile_ok_iff.mp hl with ⟨hm,rfl⟩ | ⟨hnw,hfl,hn,rfl⟩
  · have hp := (h.files p).mp hm
    refine ⟨?_,fun q => ?_,fun fits => ?_⟩
    · simpa [or_imp,forall_and] using ⟨h.loadable,h.loadable p hp.1⟩
    · rw [h.files,mem_append,mem_singleton]
      constructor
      · exact fun hq => ⟨.inl hq.1,hq.2⟩
      · rintro ⟨hq | rfl,hne⟩
        · exact ⟨hq,hne⟩
        · exact ⟨hp.1,hne⟩
    · rw [h.first,stock_concat,find?_append]
      cases hf : (stock st ps).find? fits with
      | some s => rfl
      | none =>
        rw [find?_eq_none] at hf
        rw [find?_eq_none.mpr fun s hs => hf s (mem_flatMap.mpr ⟨p,hp.1,hs⟩)]
        rfl
  refine ⟨?_,fun q => ?_,fun fits => ?_⟩
  · simpa [or_imp,forall_and] using ⟨h.loadable,(⟨hfl,hn⟩ : Loadable st p)⟩
  · rw [mem_append,h.files,mem_append,mem_singleton,mem_map]
    constructor
    · rintro (⟨hq,hne⟩ | ⟨s,hs,rfl⟩)
      · exact ⟨.inl hq,hne⟩
      · exact ⟨.inr rfl,ne_nil_of_mem hs⟩
    · rintro ⟨hq | rfl,hne⟩
      · exact .inl ⟨hq,hne⟩
      · obtain ⟨s,hs⟩ := exists_mem_of_ne_nil _ hne
        exact .inr ⟨s,hs,rfl⟩
  · rw [filter_append,filter_reverse,getLast?_append,h.first,getLast?_reverse,
      head?_filter,stock_concat,find?_append]

lemma Stocked.load_ok_iff (h : Stocked st ps sh) :
  (∃ sh', (loadFile st p).perform sh = (.ok (),sh')) ↔ Loadable st p := by
  constructor
  · rintro ⟨sh',hl⟩
    exact (h.load hl).loadable p (by simp)
  · intro hp
    by_cases hm : p ∈ sh.files
    · exact ⟨sh,loadFile_ok_iff.mpr (.inl ⟨hm,rfl⟩)⟩
    · exact ⟨_,loadFile_ok_iff.mpr (.inr ⟨hm,hp.sound,hp.distinct,rfl⟩)⟩

lemma path_of_mem (h : s ∈ itemsIn st p) : s.path = p :=
  Section.path_of_gather h

lemma mem_of_found {fits : Section → Bool} (h : (stock st ps).find? fits = some s) : s ∈ itemsIn st s.path := by
  obtain ⟨p,-,hp⟩ := mem_flatMap.mp (mem_of_find?_eq_some h)
  rwa [path_of_mem hp]

lemma find?_in_file {name : String} (h : file ∈ ps) :
  (stock st ps).find? (fun s => s.name == name && file == s.path) =
    (itemsIn st file).find? (·.name == name) := by
  induction ps with
  | nil => cases h
  | cons p ps ih =>
    rw [stock_cons,find?_append]
    by_cases hp : p = file
    · subst hp
      have hsm : (itemsIn st p).find? (fun s => s.name == name && p == s.path) =
          (itemsIn st p).find? (·.name == name) := by
        rw [← head?_filter,← head?_filter]
        exact congrArg List.head? (filter_congr fun s hs => by simp [path_of_mem hs])
      rw [hsm]
      cases hfn : (itemsIn st p).find? (·.name == name) with
      | some s => rfl
      | none =>
        rw [Option.none_or,find?_eq_none]
        intro s hs hf
        obtain ⟨q,-,hq⟩ := mem_flatMap.mp hs
        rw [Bool.and_eq_true,beq_iff_eq,beq_iff_eq] at hf
        rw [path_of_mem hq] at hf
        rw [← hf.2] at hq
        exact find?_eq_none.mp hfn s hq (by simpa using hf.1)
    have hn : (itemsIn st p).find? (fun s => s.name == name && file == s.path) = none := by
      rw [find?_eq_none]
      intro s hs
      simp [path_of_mem hs,Ne.symm hp]
    rw [hn,ih ((mem_cons.mp h).resolve_left (Ne.symm hp))]
    rfl

lemma find?_first {name : String} (h : file ∈ ps) :
  (∃ s, (stock st ps).find? (·.name == name) = some s ∧ s.path = file) ↔
    (∀ p ∈ ps.takeWhile (· ≠ file), name ∉ namesIn st p) ∧ name ∈ namesIn st file := by
  have hn (q : String) : name ∈ namesIn st q ↔ ∃ s, (itemsIn st q).find? (·.name == name) = some s := by
    rw [← Option.isSome_iff_exists,namesIn]
    simp
  induction ps with
  | nil => cases h
  | cons p ps ih =>
    rw [stock_cons,find?_append]
    by_cases hp : p = file
    · subst hp
      rw [takeWhile_cons_of_neg (by simp)]
      constructor
      · rintro ⟨s,hs,hpt⟩
        refine ⟨forall_mem_nil _,?_⟩
        cases hf : (itemsIn st p).find? (·.name == name) with
        | some t => exact (hn p).mpr ⟨t,hf⟩
        | none =>
          rw [hf] at hs
          have hnm := find?_some hs
          exact mem_map.mpr ⟨s,hpt ▸ mem_of_found hs,by simpa using hnm⟩
      · rintro ⟨-,hnm⟩
        obtain ⟨s,hs⟩ := (hn p).mp hnm
        exact ⟨s,by rw [hs]; rfl,path_of_mem (mem_of_find?_eq_some hs)⟩
    rw [takeWhile_cons_of_pos (by simpa using hp),forall_mem_cons]
    cases hf : (itemsIn st p).find? (·.name == name) with
    | some s =>
      refine iff_of_false ?_ fun hno => hno.1.1 ((hn p).mpr ⟨s,hf⟩)
      rintro ⟨t,ht,hpt⟩
      cases ht
      exact hp ((path_of_mem (mem_of_find?_eq_some hf)).symm.trans hpt)
    | none =>
      have ha : name ∉ namesIn st p := by
        rw [hn p,hf]
        simp
      rw [and_iff_right ha]
      exact ih ((mem_cons.mp h).resolve_left (Ne.symm hp))

lemma eq_of_name (h : Loadable st file) {t : Section} (hs : s ∈ itemsIn st file)
  (ht : t ∈ itemsIn st file) (hn : s.name = t.name) : s = t :=
  inj_on_of_nodup_map h.distinct hs ht hn

lemma find?_of_mem (h : Loadable st file) (hs : s ∈ itemsIn st file) :
  (itemsIn st file).find? (·.name == s.name) = some s := by
  obtain ⟨t,ht⟩ : ∃ t, (itemsIn st file).find? (·.name == s.name) = some t := by
    rw [← Option.isSome_iff_exists,find?_isSome]
    exact ⟨s,hs,beq_self_eq_true _⟩
  have hn : t.name = s.name := by simpa using find?_some ht
  rw [ht,eq_of_name h (mem_of_find?_eq_some ht) hs hn]

end Shelf

namespace Tree.Extracted

open Docweave.Shelf

def uri (path : String) (x : Extracted) : String := "doc://" ++ path ++ "#" ++ x.name

lemma clean_uri (path : String) (x : Extracted) : Uri.clean (slashed (x.uri path)) =
    ['d','o','c',':','/','/'] ++ ((path.toList ++ '#' :: x.name.toList).map fun c =>
      if c = '\\' then '/' else c).filter fun c => c != '\t' && c != '\r' && c != '\n' := by
  have hl : (x.uri path).toList = ['d','o','c',':','/','/'] ++ (path.toList ++ '#' :: x.name.toList) := by
    simp [uri]
  rw [Uri.clean,slashed,String.toList_ofList,hl]
  rfl

lemma clean_local (x : Extracted) : Uri.clean (slashed (x.uri "")) =
  ['d','o','c',':','/','/','#'] ++ x.name.toList := by
  have hk : ∀ c ∈ '#' :: x.name.toList, c ≠ '\\' ∧ c ≠ '\t' ∧ c ≠ '\r' ∧ c ≠ '\n' := by
    rw [forall_mem_cons]
    refine ⟨by decide,fun c hc => ?_⟩
    have hch := isNameChar_name x c hc
    refine ⟨?_,?_,?_,?_⟩ <;> rintro rfl <;> exact absurd hch (by decide)
  have hm : ('#' :: x.name.toList).map (fun c => if c = '\\' then '/' else c) = '#' :: x.name.toList := by
    conv_rhs => rw [← map_id ('#' :: x.name.toList)]
    exact map_congr_left fun c hc => if_neg (hk c hc).1
  have hf : ('#' :: x.name.toList).filter (fun c => c != '\t' && c != '\r' && c != '\n') =
    '#' :: x.name.toList := by
    rw [filter_eq_self]
    intro c hc
    simp [hk c hc]
  rw [clean_uri,String.toList_empty,nil_append,hm,hf]
  rfl

lemma clean_dotted (x : Extracted) {path : String} (h : path.toList.head? = some '.') :
  ∃ rest, Uri.clean (slashed (x.uri path)) = ['d','o','c',':','/','/','.'] ++ rest := by
  obtain ⟨cs,hcs⟩ := head?_eq_some_iff.mp h
  rw [clean_uri,hcs]
  exact ⟨_,rfl⟩

lemma parse_local (x : Extracted) :
    Uri.parse (slashed (x.uri "")) = .ok { scheme := "doc", fragment := x.name } := by
  rw [Uri.parse_local x.clean_local,String.ofList_toList]

end Tree.Extracted

namespace Shelf

open Files Docweave.Tree

variable {store st : Store} {ps qs : List String} {sh sh' : Shelf} {x : Extracted} {s : Section}
  {file src ref : String}

def Own (file : String) (x : Extracted) (s : Section) : Prop := s.path = file ∧ x.ReadsAs s

def Leads (store : Store) (source reference file : String) (x : Extracted) : Prop :=
  ∃ parts, Uri.parse (slashed (x.uri reference)) = .ok parts ∧ parts.fragment = x.name ∧
    fileOf store parts (some source) = .ok (some file)

lemma file_of_dotted {parts : Uri} {base : Option String} {found : Option String}
  (hd : ref.toList.head? = some '.') (hp : Uri.parse (slashed (x.uri ref)) = .ok parts)
  (h : fileOf st parts base = .ok found) : ∃ path, found = some path := by
  obtain ⟨rest,hc⟩ := x.clean_dotted hd
  have ha := Uri.authority_of_dotted hc hp
  rw [fileOf.eq_def,if_neg ha] at h
  split at h
  · cases base with
    | none => cases h
    | some base => exact ⟨_,(Except.ok.inj h).symm⟩
  · cases h

lemma first_finds_own_iff (h : Stocked st ps sh) (hd : ref.toList.head? = some '.') :
  (find st (some (x.uri ref)) (some src)).perform sh = (.ok s,sh') ∧ Own file x s ↔
    Leads st src ref file x ∧ (loadFile st file).perform sh = (.ok (),sh') ∧
      s ∈ itemsIn st file ∧ x.ReadsAs s := by
  rw [find_ok_iff]
  constructor
  · rintro ⟨⟨u,parts,found,hu,hp,hfl,hf,hl⟩,hpt,hr⟩
    cases hu
    obtain ⟨path,rfl⟩ := file_of_dotted hd hp hfl
    have hst := h.load hf
    rw [hst.first] at hl
    have hft := find?_some hl
    rw [fits,Bool.and_eq_true,beq_iff_eq] at hft
    obtain rfl : path = file := by
      rw [← hpt]
      exact beq_iff_eq.mp hft.2
    exact ⟨⟨parts,hp,hft.1.symm.trans hr.1,hfl⟩,hf,hpt ▸ mem_of_found hl,hr⟩
  · rintro ⟨⟨parts,hp,hfr,hfl⟩,hf,hs,hr⟩
    refine ⟨⟨_,parts,some file,rfl,hp,hfl,hf,?_⟩,path_of_mem hs,hr⟩
    have hst := h.load hf
    have hm : file ∈ ps ++ [file] := by simp
    rw [hst.first]
    have hft : fits parts (some file) = fun s => s.name == x.name && file == s.path := by
      funext t
      rw [fits,hfr]
      rfl
    rw [hft,find?_in_file hm,← hr.1]
    exact find?_of_mem (hst.loadable file hm) hs

lemma later_finds_own_iff (h : Stocked st ps sh) (hf : file ∈ ps) {base : Option String} :
  (find st (some (x.uri "")) base).perform sh = (.ok s,sh') ∧ Own file x s ↔
    sh' = sh ∧ (∀ p ∈ ps.takeWhile (· ≠ file), x.name ∉ namesIn st p) ∧
      s ∈ itemsIn st file ∧ x.ReadsAs s := by
  have ha : fits { scheme := "doc", fragment := x.name } none = (·.name == x.name) := by
    funext t
    exact Bool.and_true _
  rw [find_ok_iff]
  constructor
  · rintro ⟨⟨u,parts,found,hu,hpt,hfn,hft,hl⟩,hp,hr⟩
    cases hu
    cases x.parse_local.symm.trans hpt
    obtain rfl : none = found := Except.ok.inj hfn
    obtain rfl : sh' = sh := hft
    rw [ha,h.first] at hl
    obtain ⟨hpr,-⟩ := (find?_first hf).mp ⟨s,hl,hp⟩
    exact ⟨rfl,hpr,hp ▸ mem_of_found hl,hr⟩
  · rintro ⟨rfl,hpr,hs,hr⟩
    have hn : x.name ∈ namesIn st file := mem_map.mpr ⟨s,hs,hr.1⟩
    obtain ⟨t,ht,hp⟩ := (find?_first hf).mpr ⟨hpr,hn⟩
    have hsm : t.name = x.name := by simpa using find?_some ht
    obtain rfl := eq_of_name (h.loadable file hf) (hp ▸ mem_of_found ht) hs (hsm.trans hr.1.symm)
    refine ⟨⟨_,_,none,rfl,x.parse_local,rfl,rfl,?_⟩,path_of_mem hs,hr⟩
    rw [ha,h.first]
    exact ht

lemma Stocked.loadAll (h : Stocked st ps sh)
  (hl : (qs.forM (loadFile st)).perform sh = (.ok (),sh')) : Stocked st (ps ++ qs) sh' := by
  induction qs generalizing ps sh with
  | nil =>
    obtain ⟨-,rfl⟩ := Act.pure_ok hl
    rw [append_nil]
    exact h
  | cons q qs ih =>
    obtain ⟨_,sh1,hq,hr⟩ := Act.bind_ok hl
    rw [append_cons]
    exact ih (h.load hq) hr

lemma Stocked.exists_loadAll (h : Stocked st ps sh) (hqs : ∀ q ∈ qs, Loadable st q) :
  ∃ sh', (qs.forM (loadFile st)).perform sh = (.ok (),sh') := by
  induction qs generalizing ps sh with
  | nil => exact ⟨sh,rfl⟩
  | cons q qs ih =>
    rw [forall_mem_cons] at hqs
    obtain ⟨sh1,hq⟩ := h.load_ok_iff.mpr hqs.1
    obtain ⟨sh2,hr⟩ := ih (h.load hq) hqs.2
    exact ⟨sh2,(Act.perform_bind hq fun _ => qs.forM (loadFile st)).trans hr⟩

lemma takeWhile_of_mem (h : file ∈ ps) : (ps ++ qs).takeWhile (· ≠ file) = ps.takeWhile (· ≠ file) := by
  rw [takeWhile_append,if_neg]
  intro hl
  have ha := ( takeWhile_prefix (· ≠ file)).eq_of_length hl
  simpa using takeWhile_eq_self_iff.mp ha file h

abbrev Mark : Type := Extracted × List String

def followMarkers (store : Store) (source : String) : String → List Mark → Act Shelf (List Section)
  | _, [] => return []
  | path, (x,asked) :: marks => do
    let s ← find store (some (x.uri path)) (some source)
    asked.forM (loadFile store)
    return s :: (← followMarkers store source "" marks)

variable {asked : List String} {ms : List Mark}

lemma followMarkers_cons_ok_iff {path : String} {found : List Section} :
  (followMarkers st src path ((x,asked) :: ms)).perform sh = (.ok found,sh') ↔
    ∃ s rest sh1 sh2, found = s :: rest ∧ (find st (some (x.uri path)) (some src)).perform sh = (.ok s,sh1) ∧
      (asked.forM (loadFile st)).perform sh1 = (.ok (),sh2) ∧
      (followMarkers st src "" ms).perform sh2 = (.ok rest,sh') := by
  constructor
  · intro h
    obtain ⟨s,sh1,hs,hr⟩ := Act.bind_ok h
    obtain ⟨_,sh2,ha,hr1⟩ := Act.bind_ok hr
    obtain ⟨rest,sh3,hl,rfl,rfl⟩ := Act.map_ok hr1
    exact ⟨s,rest,sh1,sh2,rfl,hs,ha,hl⟩
  · rintro ⟨s,rest,sh1,sh2,rfl,hs,ha,hr⟩
    rw [followMarkers,Act.perform_bind hs,Act.perform_bind ha,Act.perform_bind hr]
    rfl

def Unclaimed (store : Store) (ps : List String) (file : String) (x : Extracted) : Prop :=
  ∀ p ∈ ps.takeWhile (· ≠ file), x.name ∉ namesIn store p

def HasSection (store : Store) (file : String) (x : Extracted) : Prop :=
  ∃ s ∈ itemsIn store file, x.ReadsAs s

lemma later_of_own {found : List Section} (h : Stocked st ps sh) (hf : file ∈ ps)
  (hrn : (followMarkers st src "" ms).perform sh = (.ok found,sh'))
  (ho : Forall₂ (fun m s => Own file m.1 s) ms found) : Stocked st (ps ++ ms.flatMap Prod.snd) sh' ∧
    ∀ m ∈ ms, Unclaimed st ps file m.1 ∧ HasSection st file m.1 := by
  induction ms generalizing ps sh found with
  | nil =>
    obtain ⟨-,rfl⟩ := Act.pure_ok hrn
    rw [flatMap_nil,append_nil]
    exact ⟨h,forall_mem_nil _⟩
  | cons m ms ih =>
    obtain ⟨s,rest,sh1,sh2,rfl,hs,ha,hl⟩ := followMarkers_cons_ok_iff.mp hrn
    obtain ⟨hx,hrs⟩ := forall₂_cons.mp ho
    obtain ⟨rfl,hu,hmm,hr⟩ := (later_finds_own_iff h hf).mp ⟨hs,hx⟩
    obtain ⟨hst,hm⟩ := ih (h.loadAll ha) (mem_append_left _ hf) hl hrs
    rw [flatMap_cons,← append_assoc]
    refine ⟨hst,forall_mem_cons.mpr ⟨⟨hu,s,hmm,hr⟩,fun y hy => ?_⟩⟩
    have hy' := hm y hy
    rw [Unclaimed,takeWhile_of_mem hf] at hy'
    exact hy'

lemma exists_later_own (h : Stocked st ps sh) (hf : file ∈ ps) (ha : ∀ m ∈ ms, ∀ p ∈ m.2, Loadable st p)
  (hm : ∀ m ∈ ms, Unclaimed st ps file m.1 ∧ HasSection st file m.1) :
  ∃ found sh', (followMarkers st src "" ms).perform sh = (.ok found,sh') ∧
    Forall₂ (fun m s => Own file m.1 s) ms found := by
  induction ms generalizing ps sh with
  | nil => exact ⟨[],sh,rfl,.nil⟩
  | cons m ms ih =>
    rw [forall_mem_cons] at ha hm
    obtain ⟨⟨hu,s,hmm,hr⟩,hm⟩ := hm
    obtain ⟨hs,hon⟩ : (find st (some (m.1.uri "")) (some src)).perform sh = (.ok s,sh) ∧
        Own file m.1 s := (later_finds_own_iff h hf).mpr ⟨rfl,hu,hmm,hr⟩
    obtain ⟨sh1,hl⟩ := h.exists_loadAll ha.1
    obtain ⟨rest,sh2,hrs,ho⟩ := ih (h.loadAll hl) (mem_append_left _ hf) ha.2 fun y hy => by
        rw [Unclaimed,takeWhile_of_mem hf]
        exact hm y hy
    exact ⟨s :: rest,sh2,followMarkers_cons_ok_iff.mpr ⟨s,rest,_,_,rfl,hs,hl,hrs⟩,.cons hon ho⟩

structure Moved where
  source : String
  reference : String
  file : String
  marks : List Mark
  dotted : reference.toList.head? = some '.'

def followAll (store : Store) : List Moved → Act Shelf (List (List Section))
  | [] => return []
  | f :: fs => do
    let found ← followMarkers store f.source f.reference f.marks
    return found :: (← followAll store fs)

namespace Moved

variable {f : Moved}

def comments (f : Moved) : List Extracted := f.marks.map Prod.fst

def loads (f : Moved) : List String :=
  (f.marks.head?.map fun _ => f.file).toList ++ f.marks.flatMap Prod.snd

def Owns (f : Moved) (found : List Section) : Prop :=
  Forall₂ (fun m s => Own f.file m.1 s) f.marks found

structure Answered (store : Store) (f : Moved) : Prop where
  leads : ∀ x ∈ f.comments.head?, Leads store f.source f.reference f.file x
  loadable : f.comments ≠ [] → Loadable store f.file
  sections : ∀ x ∈ f.comments, HasSection store f.file x

structure Fits (store : Store) (ps : List String) (f : Moved) : Prop where
  settled : f.Answered store
  loadable : ∀ m ∈ f.marks, ∀ p ∈ m.2, Loadable store p
  unclaimed : ∀ x ∈ f.comments.tail, Unclaimed store (ps ++ f.loads) f.file x

lemma fits_of_own {found : List Section} (h : Stocked st ps sh)
  (hrn : (followMarkers st f.source f.reference f.marks).perform sh = (.ok found,sh'))
  (ho : f.Owns found) : Stocked st (ps ++ f.loads) sh' ∧ f.Fits st ps := by
  obtain ⟨src,ref,file,ms,hd⟩ := f
  cases ms with
  | nil =>
    obtain ⟨-,rfl⟩ := Act.pure_ok hrn
    refine ⟨by simpa [loads] using h,⟨nofun,fun hne => absurd rfl hne,forall_mem_nil _⟩,
      forall_mem_nil _,forall_mem_nil _⟩
  | cons m ms =>
    obtain ⟨s,rest,sh1,sh2,rfl,hs,ha,hlt⟩ := followMarkers_cons_ok_iff.mp hrn
    obtain ⟨hx,hrs⟩ := forall₂_cons.mp ho
    obtain ⟨hls,hlo,hmm,hr⟩ := (first_finds_own_iff h hd).mp ⟨hs,hx⟩
    have hf : file ∈ ps ++ [file] := by simp
    have hst := h.load hlo
    obtain ⟨he,hm⟩ := later_of_own (hst.loadAll ha) (mem_append_left _ hf) hlt hrs
    have hl : ps ++ loads ⟨src,ref,file,m :: ms,hd⟩ = ps ++ [file] ++ m.2 ++ ms.flatMap Prod.snd := by
      simp [loads]
    have hld := he.loadable
    rw [hl]
    refine ⟨he,⟨?_,fun _ => hst.loadable file hf,?_⟩,fun y hy p hp => ?_,fun x hx => ?_⟩
    · rintro y ⟨rfl⟩
      exact hls
    · refine forall_mem_cons.mpr ⟨⟨s,hmm,hr⟩,forall_mem_map.mpr fun y hy => ?_⟩
      exact (hm y hy).2
    · refine hld p ?_
      rw [append_assoc]
      exact mem_append_right _ (mem_flatMap.mpr ⟨y,hy,hp⟩)
    · obtain ⟨y,hy,rfl⟩ := mem_map.mp hx
      rw [hl,Unclaimed,takeWhile_of_mem (mem_append_left _ hf)]
      exact (hm y hy).1

lemma exists_own (h : Stocked st ps sh) (hf : f.Fits st ps) :
  ∃ found sh', (followMarkers st f.source f.reference f.marks).perform sh = (.ok found,sh') ∧ f.Owns found := by
  obtain ⟨src,ref,file,ms,hd⟩ := f
  obtain ⟨hst,ha,hu⟩ := hf
  cases ms with
  | nil => exact ⟨[],sh,rfl,.nil⟩
  | cons m ms =>
    rw [forall_mem_cons] at ha
    have hfl : file ∈ ps ++ [file] := by simp
    obtain ⟨sh1,hl⟩ := h.load_ok_iff.mpr (hst.loadable (cons_ne_nil _ _))
    obtain ⟨s,hm,hr⟩ := hst.sections m.1 mem_cons_self
    obtain ⟨hs,hon⟩ := (first_finds_own_iff h hd).mpr ⟨hst.leads m.1 rfl,hl,hm,hr⟩
    obtain ⟨sh2,hl'⟩ := (h.load hl).exists_loadAll ha.1
    have hld : ps ++ loads ⟨src,ref,file,m :: ms,hd⟩ = ps ++ [file] ++ m.2 ++ ms.flatMap Prod.snd := by
      simp [loads]
    have hlt : ∀ y ∈ ms, Unclaimed st (ps ++ [file] ++ m.2) file y.1 ∧ HasSection st file y.1 := by
      intro y hy
      have hm : y.1 ∈ ms.map Prod.fst := mem_map.mpr ⟨y,hy,rfl⟩
      have hy' := hu y.1 hm
      rw [hld,Unclaimed,takeWhile_of_mem (mem_append_left _ hfl)] at hy'
      exact ⟨hy',hst.sections y.1 (mem_cons_of_mem _ hm)⟩
    obtain ⟨rest,sh3,hrs,ho⟩ :=
      exists_later_own ((h.load hl).loadAll hl') (mem_append_left _ hfl) ha.2 hlt
    exact ⟨s :: rest,sh3,followMarkers_cons_ok_iff.mpr ⟨s,rest,_,_,rfl,hs,hl',hrs⟩,.cons hon ho⟩

def IsExtracted (store : Store) (f : Moved) : Prop :=
  ∃ j r r' j' text target new, r.path = f.source ∧ r.extract = true ∧ j.settings.dryRun = false ∧
    j.store.read r.path = .ok (.text text) ∧ (Job.overwriteOne r).perform j = (.ok r',j') ∧
    r'.extractPath = some (some target) ∧ ".md".toList <:+ target.toList ∧
    sourceComments (Path.Simple.of r.path).text (Content.text text).lines = .ok f.comments ∧
    j'.store.read r.path = .ok (.text new) ∧ Comment.Marked f.reference f.comments new ∧
    store.read f.file = j'.store.read target

lemma IsExtracted.sections (hf : f.IsExtracted st) :
  sectionsOf st f.file = Section.gather f.file none (f.comments.flatMap Extracted.fragmentLines) none := by
  obtain ⟨j,r,r',j',text,target,new,-,he,hd,hr,hrn,ht,hmd,hc,-,-,hfl⟩ := hf
  obtain ⟨ps,ref,new',started,hsr,hc',-,-,-,hcn,hto,hm⟩ :=
    Job.overwriteOne_extracts he hd hr hrn ht hmd
  obtain hs : f.comments = Comment.extracts ps :=
    Except.ok.inj (hc.symm.trans hc')
  rw [hs]
  exact Extracted.read_extract hcn hto hsr.no_return (hfl.trans hm)

lemma IsExtracted.settled_iff (hf : f.IsExtracted st) :
  f.Answered st ↔ (∀ x ∈ f.comments.head?, Leads st f.source f.reference f.file x) ∧
    (∀ x ∈ f.comments, x.Quiet) ∧ (f.comments.map Extracted.name).Nodup := by
  have hsc := hf.sections
  constructor
  · rintro ⟨hl,hld,hhs⟩
    obtain ⟨heads,hsb,hh⟩ := Extracted.sections_of_fragments f.file f.comments
    rw [← hsc] at hsb
    have hn : heads.map Section.name = f.comments.map Extracted.name :=
      Extracted.names_of_named (hh.imp fun _ _ hx => hx.1)
    by_cases hne : f.comments = []
    · rw [hne]
      exact ⟨nofun,forall_mem_nil _,nodup_nil⟩
    have hlo := hld hne
    refine ⟨hl,fun x hx => ?_,?_⟩
    · obtain ⟨head,hhd,hnm,hq⟩ := forall₂_mem_right hh.flip hx
      obtain ⟨s,hs,hr⟩ := hhs x hx
      obtain rfl := eq_of_name hlo hs (hsb.subset hhd) (hr.1.trans hnm.symm)
      exact hq hr
    · rw [← hn]
      exact hlo.distinct.sublist (hsb.map _)
  · rintro ⟨hl,hq,hnd⟩
    have hr := (Extracted.gather_fragments f.file f.comments).mpr hq
    rw [← hsc] at hr
    refine ⟨hl,fun _ => ⟨?_,?_⟩,fun x hx => ?_⟩
    · rw [hsc]
      exact Section.fault_gather_none _ _ _
    · rw [namesIn,Extracted.names_of_reads hr]
      exact hnd
    · obtain ⟨s,hs,hx'⟩ := forall₂_mem_right hr.flip hx
      exact ⟨s,hs,hx'⟩

lemma followAll_own_iff {fs : List Moved} (h : Stocked st ps sh) :
  (∃ found sh', (followAll st fs).perform sh = (.ok found,sh') ∧ Forall₂ Owns fs found) ↔
    ∀ pre f after, fs = pre ++ f :: after → f.Fits st (ps ++ pre.flatMap loads) := by
  induction fs generalizing ps sh with
  | nil => exact iff_of_true ⟨[],sh,rfl,.nil⟩ fun pre f after hno => by simp at hno
  | cons f fs ih =>
    constructor
    · rintro ⟨found,sh',hrn,ho⟩
      obtain ⟨ss,sh1,hfr,hr⟩ := Act.bind_ok hrn
      obtain ⟨sss,sh2,hl,rfl,rfl⟩ := Act.map_ok hr
      obtain ⟨hf,hfs⟩ := forall₂_cons.mp ho
      obtain ⟨hst,hft⟩ := fits_of_own h hfr hf
      have ha := (ih hst).mp ⟨sss,sh2,hl,hfs⟩
      intro pre g after hs
      cases pre with
      | nil =>
        cases hs
        rwa [flatMap_nil,append_nil]
      | cons f' pre =>
        cases hs
        rw [flatMap_cons,← append_assoc]
        exact ha pre g after rfl
    · intro ha
      have hft := ha [] f fs rfl
      rw [flatMap_nil,append_nil] at hft
      obtain ⟨ss,sh1,hfr,hf⟩ := exists_own h hft
      obtain ⟨hst,-⟩ := fits_of_own h hfr hf
      obtain ⟨sss,sh2,hl,hfs⟩ := (ih hst).mpr fun pre g after hs => by
        have hg := ha (f :: pre) g after (congrArg (f :: ·) hs)
        rwa [flatMap_cons,← append_assoc] at hg
      refine ⟨ss :: sss,sh2,?_,.cons hf hfs⟩
      rw [followAll,Act.perform_bind hfr,Act.perform_bind hl]
      rfl

end Moved

end Shelf

end Docweave
