import Docweave.Proofs.Sections.Lookups
import Docweave.Proofs.Sections.Routes

namespace Docweave

open List

namespace Act

variable {σ α β : Type} {R : σ → σ → Prop}

lemma Keeps.forM [Frame R] {f : α → Act σ PUnit} (hf : ∀ x, (f x).Keeps R) (xs : List α) :
  (xs.forM f).Keeps R := by
  induction xs with
  | nil => exact keeps_pure _
  | cons x xs ih => exact (hf x).bind fun _ => ih

lemma bind_after {a : Act σ α} {f : α → Act σ β} (hf : ∀ x s, ((f x).perform s).2 = s) (s : σ) :
  ((a >>= f).perform s).2 = (a.perform s).2 := by
  rcases hrn : (a >>= f).perform s with ⟨r,s'⟩
  rcases bind_cases hrn with ⟨err,hfl,-⟩ | ⟨x,s1,hx,hr⟩
  · rw [hfl]
  · have hs := hf x s1
    rw [hr] at hs
    rw [hx,hs]

end Act

namespace Uri

def Rooted (cs : List Char) : Prop := cs = [] ∨ cs.head? = some '/'

lemma Rooted.takeWhile {cs : List Char} (h : Rooted cs) {p : Char → Bool} (hp : p '/') :
    Rooted (cs.takeWhile p) := by
  cases cs with
  | nil => exact .inl rfl
  | cons c cs =>
    obtain rfl : c = '/' := by simpa [Rooted] using h
    rw [takeWhile_cons_of_pos hp]
    exact .inr rfl

lemma Rooted.cutParameters {cs : List Char} (h : Rooted cs) : Rooted (cutParameters cs).1 := by
  rw [Uri.cutParameters]
  split
  · exact h
  rename_i before after hc
  rcases h with rfl | hs
  · cases hc
  -- the last component is shorter than the path, so the slash at the start is kept
  obtain ⟨rest,rfl⟩ := head?_eq_some_iff.mp hs
  have hsh : ((('/' :: rest).reverse.takeWhile (· != '/')).reverse).length ≤ rest.length := by
    rw [reverse_cons,takeWhile_append]
    split
    · simp
    · have hle := (takeWhile_sublist (p := (· != '/')) (l := rest.reverse)).length_le
      simpa using hle
  obtain ⟨n,hn⟩ : ∃ n, ('/' :: rest).length -
      ((('/' :: rest).reverse.takeWhile (· != '/')).reverse).length = n + 1 :=
    ⟨rest.length - ((('/' :: rest).reverse.takeWhile (· != '/')).reverse).length,by
      rw [length_cons]
      omega⟩
  right
  rw [hn]
  rfl

lemma parse_parts {s : String} {parts : Uri} (h : parse s = .ok parts) :
  ∃ scheme rest authority after path, cutScheme (clean s) = (scheme,rest) ∧
    cutAuthority rest = (authority,after) ∧ parts.authority = String.ofList authority ∧
    path = (after.takeWhile (· != '#')).takeWhile (· != '?') ∧
    (parts.path.toList = path ∨ parts.path.toList = (cutParameters path).1) := by
  rw [parse] at h
  rcases hs : cutScheme (clean s) with ⟨scheme,rest⟩
  rcases ha : cutAuthority rest with ⟨authority,after⟩
  rw [hs] at h
  dsimp only at h
  rw [ha] at h
  obtain ⟨_,-,hl⟩ := bind_ok h
  have hp := Except.ok.inj hl
  refine ⟨scheme,rest,authority,after,_,rfl,ha,by rw [← hp],rfl,?_⟩
  rw [← hp]
  simp only [cutAt_fst,String.toList_ofList]
  split
  · exact .inr rfl
  · exact .inl rfl

lemma rooted_path {s : String} {parts : Uri} (h : parse s = .ok parts) (ha : parts.authority ≠ "") :
  Rooted parts.path.toList := by
  obtain ⟨scheme,rest,authority,after,path,-,hct,hat,rfl,hp⟩ := parse_parts h
  have hs : after = [] ∨ ∃ c cs, after = c :: cs ∧ (c = '/' ∨ c = '?' ∨ c = '#') := by
    rw [cutAuthority.eq_def] at hct
    split at hct
    · rename_i inside
      cases hct
      cases hd : inside.dropWhile _ with
      | nil => exact .inl rfl
      | cons c cs =>
        have hc := head?_dropWhile_not (fun c => !(c == '/' || c == '?' || c == '#')) inside
        rw [hd] at hc
        exact .inr ⟨c,cs,rfl,by simpa [or_iff_not_imp_left] using hc⟩
    · cases hct
      exact absurd hat ha
  have hr : Rooted ((after.takeWhile (· != '#')).takeWhile (· != '?')) := by
    rcases hs with rfl | ⟨c,cs,rfl,rfl | rfl | rfl⟩
    · exact .inl rfl
    · exact Rooted.takeWhile (Rooted.takeWhile (.inr rfl) (by decide)) (by decide)
    · exact .inl rfl
    · exact .inl rfl
  rcases hp with hp | hp
  · rwa [hp]
  · rw [hp]
    exact hr.cutParameters

end Uri

namespace Path

variable {p q : String}

lemma parent_of_names {root : String} {names : List String} (hr : IsRoot root)
  (h : ∀ n ∈ names, Proper n) : parent (spell root names) = spell root names.dropLast := by
  rcases eq_nil_or_concat names with rfl | ⟨ns,n,rfl⟩
  · rcases hr with rfl | rfl <;> decide
  · rw [concat_eq_append] at h ⊢
    rw [dropLast_concat]
    exact parent_spell hr h

lemma walk_append (hq : Uri.Rooted q.toList) (kept : List String) :
    walk (p ++ q) kept = walk q (walk p kept) := by
  rcases hq with hn | hs
  · obtain rfl : q = "" := String.toList_eq_nil_iff.mp hn
    rw [String.append_empty]
    exact (normalizeStep_empty true _).symm
  obtain ⟨cs,hcs⟩ := head?_eq_some_iff.mp hs
  obtain rfl : q = "" ++ "/" ++ String.ofList cs := by
    rw [← String.toList_inj,hcs]
    simp
  rw [← String.append_assoc,← String.append_assoc,String.append_empty,walk_append_slash,walk_append_slash,
    walk.eq_def "",components_empty]
  exact congrArg (walk _) (normalizeStep_empty true _).symm

end Path

namespace Shelf

open Files Act

variable {fs fs' store store' : Store} {sh sh' shelf : Shelf} {path : String} {parts : Uri}

inductive Call where
  | load (paths : List String)
  | loadFile (path : String)
  | find (uri base : Option String)
  | resolve (e : Element)

def Call.after (store : Store) (shelf : Shelf) : Call → Shelf
  | .load paths => ((Shelf.load store paths).perform shelf).2
  | .loadFile path => ((Shelf.loadFile store path).perform shelf).2
  | .find uri base => ((Shelf.find store uri base).perform shelf).2
  | .resolve e => ((Shelf.resolve store e).perform shelf).2

def afterAll : List (Store × Call) → Shelf → Shelf
  | [], shelf => shelf
  | (store,call) :: later, shelf => afterAll later (call.after store shelf)

def target? (store : Store) (uri base : Option String) : Option String :=
  uri.bind fun u => (Uri.parse (slashed u)).toOption.bind fun parts =>
    (fileOf store parts base).toOption.bind id

def Call.loads (store : Store) : Call → List String
  | .load paths => paths.flatMap fun path => filesAt store (store.absolute path)
  | .loadFile path => [path]
  | .find uri base => (target? store uri base).toList
  | .resolve e => (target? store (e.attribute? "uri") (e.attribute? "source")).toList

def loadAll (store : Store) (paths : List String) : Act Shelf Unit := paths.forM (loadFile store)

lemma loadAll_cons (path : String) (paths : List String) :
    loadAll fs (path :: paths) = loadFile fs path >>= fun _ => loadAll fs paths := rfl

lemma loadAll_append (paths later : List String) :
  loadAll fs (paths ++ later) = loadAll fs paths >>= fun _ => loadAll fs later := by
  induction paths with
  | nil => exact (pure_bind _ _).symm
  | cons path paths ih => rw [cons_append,loadAll_cons,loadAll_cons,ih,bind_assoc]

lemma load_cons (path : String) (paths : List String) : load fs (path :: paths) =
  loadAll fs (filesAt fs (fs.absolute path)) >>= fun _ => load fs paths := by
  rfl

lemma load_eq (paths : List String) :
  load fs paths = loadAll fs (paths.flatMap fun path => filesAt fs (fs.absolute path)) := by
  induction paths with
  | nil =>
    rw [load,loadAll,flatMap_nil,forM_eq_forM,forM_nil,forM_nil]
  | cons path paths ih => rw [load_cons,flatMap_cons,loadAll_append,ih]

lemma pick_after (uri : String) (parts : Uri) (file : Option String) (sh : Shelf) :
  ((pick uri parts file).perform sh).2 = sh := by
  rw [pick.eq_def,perform_get_bind]
  split <;> rfl

lemma fetch_after (uri : String) (base file : Option String) (sh : Shelf) :
  ((fetch fs uri base file).perform sh).2 = ((loadAll fs file.toList).perform sh).2 := by
  cases file with
  | none => rfl
  | some path =>
    have ho : ((loadAll fs [path]).perform sh).2 = ((loadFile fs path).perform sh).2 :=
      bind_after (fun _ _ => rfl) sh
    rw [Option.toList_some,ho,fetch]
    rcases hrn : (tryCatch (loadFile fs path) fun err => Act.fail (explain uri base err)).perform sh with ⟨r,sh1⟩
    rcases tryCatch_cases hrn with ⟨_,hok,-⟩ | ⟨err,sh2,hf,hr⟩
    · rw [hok]
    · cases hr
      rw [hf]

lemma find_after (uri base : Option String) (sh : Shelf) : ((find fs uri base).perform sh).2 =
    ((loadAll fs (target? fs uri base).toList).perform sh).2 := by
  cases uri with
  | none => rfl
  | some u =>
    rw [find_some,target?,Option.bind_some]
    cases Uri.parse (slashed u) with
    | error err => rfl
    | ok parts =>
      rw [perform_ofExcept_bind rfl]
      cases hf : fileOf fs parts base with
      | error err =>
        rw [Except.toOption,Option.bind_some,hf]
        rfl
      | ok file =>
        rw [perform_ofExcept_bind rfl,bind_after fun _ => pick_after u parts file,fetch_after,
          Except.toOption,Option.bind_some,hf]
        rfl

lemma Call.after_eq (c : Call) (sh : Shelf) : c.after fs sh = ((loadAll fs (c.loads fs)).perform sh).2 := by
  cases c with
  | load paths => rw [after,load_eq,loads]
  | loadFile path => exact (bind_after (fun _ _ => rfl) sh).symm
  | find uri base => exact find_after uri base sh
  | resolve e =>
    refine Eq.trans ?_ (find_after _ _ sh)
    refine bind_after (fun s sh' => ?_) sh
    exact bind_after (fun _ _ => rfl) sh' |>.trans (by cases fs.relative s.path "." <;> rfl)

def Noted (shelf : Shelf) : Prop := ∀ s ∈ shelf.sections, s.path ∈ shelf.files

structure Grows (shelf shelf' : Shelf) : Prop where
  sections : shelf.sections <:+ shelf'.sections
  files : shelf.files <+: shelf'.files
  noted : Noted shelf → Noted shelf'

instance : Frame Grows where
  refl _ := ⟨suffix_rfl,prefix_rfl,id⟩
  trans hab hbc := ⟨hab.sections.trans hbc.sections,hab.files.trans hbc.files,hbc.noted ∘ hab.noted⟩

lemma grows_addAll {ns : List String} {items : List Section} {err : Option Fault}
    (hp : ∀ s ∈ items, s.path = path)
  (hnm : ns ≠ [] → path ∈ sh.files) : Grows sh ((addAll path ns items err).perform sh).2 := by
  induction items generalizing ns sh with
  | nil =>
    cases err with
    | none => exact keeps_pure _ sh
    | some err => exact keeps_fail err sh
  | cons s rest ih =>
    rw [forall_mem_cons] at hp
    rw [addAll_cons]
    split
    · rename_i hr
      have hm : path ∈ sh.files := hnm (by rintro rfl; cases hr)
      refine ⟨suffix_cons _ _,prefix_rfl,fun hn => ?_⟩
      exact forall_mem_cons.mpr ⟨by rwa [hp.1],hn⟩
    refine Frame.trans (R := Grows) ⟨suffix_cons _ _,prefix_append _ _,fun hn => ?_⟩
      (ih hp.2 fun _ => mem_append_right _ (mem_singleton.mpr rfl))
    refine forall_mem_cons.mpr ⟨?_,fun t ht => mem_append_left _ (hn t ht)⟩
    rw [hp.1]
    exact mem_append_right _ (mem_singleton.mpr rfl)

lemma grows_loadFile (fs : Store) (path : String) : (loadFile fs path).Keeps Grows := by
  intro sh
  rw [perform_loadFile]
  split
  · exact Frame.refl sh
  · exact grows_addAll (fun s hs => path_of_mem hs) fun h => absurd rfl h

lemma Call.grows (fs : Store) (c : Call) (sh : Shelf) : Grows sh (c.after fs sh) := by
  rw [c.after_eq]
  exact Keeps.forM (grows_loadFile fs) _ sh

lemma grows_afterAll (history : List (Store × Call)) (sh : Shelf) : Grows sh (afterAll history sh) := by
  induction history generalizing sh with
  | nil => exact Frame.refl sh
  | cons step later ih =>
    obtain ⟨fs,c⟩ := step
    exact Frame.trans (c.grows fs sh) (ih _)

lemma noted_afterAll (history : List (Store × Call)) : Noted (afterAll history {}) :=
  (grows_afterAll history {}).noted (forall_mem_nil _)

lemma Noted.loadFile (h : Noted sh) {s : Section} (hs : s ∈ sh.sections) (fs : Store) :
  (loadFile fs s.path).perform sh = (.ok (),sh) :=
  loadFile_ok_iff.mpr (.inl ⟨h s hs,rfl⟩)

lemma fileOf_home (h : fs'.home = fs.home) (parts : Uri) (base : Option String) :
  fileOf fs' parts base = fileOf fs parts base := by
  simp only [fileOf,Store.absolute,Store.cwd,h]

lemma path_of_fits {s : Section} (h : fits parts (some path) s) : s.path = path := by
  rw [fits,Bool.and_eq_true] at h
  exact (beq_iff_eq.mp h.2).symm

lemma exists_oldest {p : Section → Bool} {l : List Section} {s : Section} (h : (l.filter p).getLast? = some s) :
  ∃ newer older, l = newer ++ s :: older ∧ p s ∧ ∀ t ∈ older, p t = false := by
  induction l with
  | nil => cases h
  | cons t l ih =>
    cases hl : (l.filter p).getLast? with
    | none =>
      have hn : l.filter p = [] := getLast?_eq_none_iff.mp hl
      rw [filter_cons,hn] at h
      split at h
      · cases h
        refine ⟨[],l,rfl,‹_›,fun u hu => ?_⟩
        exact Bool.eq_false_iff.mpr (filter_eq_nil_iff.mp hn u hu)
      · cases h
    | some u =>
      have hsm : ((t :: l).filter p).getLast? = some u := by
        rw [filter_cons]
        split
        · rw [getLast?_cons,hl]
          rfl
        · exact hl
      cases hsm.symm.trans h
      obtain ⟨newer,older,rfl,hs,ho⟩ := ih hl
      exact ⟨t :: newer,older,rfl,hs,ho⟩

theorem found_section_stays (before later : List (Store × Call)) (hhome : store'.home = store.home)
    {uri base : Option String} {s : Section}
    (h : (find store uri base).perform (afterAll before {}) = (.ok s, shelf)) :
    (find store' uri base).perform (afterAll later shelf) = (.ok s, afterAll later shelf) ∧
    shelf.sections <:+ (afterAll later shelf).sections ∧
    (∃ u parts file newer older, uri = some u ∧ Uri.parse (slashed u) = .ok parts ∧
      fileOf store parts base = .ok file ∧ (afterAll later shelf).sections = newer ++ s :: older ∧
      fits parts file s = true ∧ ∀ t ∈ older, fits parts file t = false) ∧
    ∀ t ∈ (afterAll later shelf).sections, ∀ any : Store,
      (loadFile any t.path).perform (afterAll later shelf) = (.ok (), afterAll later shelf) := by
  obtain ⟨u, parts, file, rfl, hparts, hfile, hfetched, hlast⟩ := find_ok_iff.mp h
  have hgrew : Grows (afterAll before {}) shelf := by
    have hcall := Call.grows store (.find (some u) base) (afterAll before {})
    rwa [Call.after, h] at hcall
  have hgrows := grows_afterAll later shelf
  have hnoted : Noted (afterAll later shelf) := hgrows.noted (hgrew.noted (noted_afterAll before))
  have hlater : ((afterAll later shelf).sections.filter (fits parts file)).getLast? = some s := by
    obtain ⟨newer, hnewer⟩ := hgrows.sections
    rw [← hnewer, filter_append, getLast?_append, hlast]
    rfl
  obtain ⟨newer, older, hsections, hfits, holder⟩ := exists_oldest hlater
  have hs : s ∈ (afterAll later shelf).sections := by
    rw [hsections]
    exact mem_append_right _ mem_cons_self
  refine ⟨find_ok_iff.mpr ⟨u, parts, file, rfl, hparts, ?_, ?_, hlater⟩, hgrows.sections,
    ⟨u, parts, file, newer, older, rfl, hparts, hfile, hsections, hfits, holder⟩,
      fun t ht any => hnoted.loadFile ht any⟩
  · rw [fileOf_home hhome, hfile]
  · cases file with
    | none => rfl
    | some path =>
        rw [Fetched, ← path_of_fits hfits]
        exact hnoted.loadFile hs store'

section

def shelved : Store :=
  ((Store.empty ["w"]).provide "d/a.md" (.text "# x\nof a\n# y\nlast\n")).provide "d/b.md" (.text "# x\nof b\n")

def reshelved : Store := (Store.empty ["w"]).provide "d/a.md" (.text "# x\nother\n")

def sectionOfA : Section := ⟨"/w/d/a.md","x",["of a"]⟩

end

theorem found_section_stays_at_edited_file :
    let before := [(shelved, .loadFile "/w/none.md"), (shelved, .load ["d/b.md"])]
    let later := [(reshelved, .load ["d/a.md"]), (reshelved, .find (some "doc://#none") none)]
    ∃ shelf, (find shelved (some "doc://./a.md#x") (some "d/a.h")).perform (afterAll before {}) =
        (.ok sectionOfA, shelf) ∧
      (find reshelved (some "doc://./a.md#x") (some "d/a.h")).perform (afterAll later shelf) =
        (.ok sectionOfA, afterAll later shelf) := by
  intro before later
  have hfound : (find shelved (some "doc://./a.md#x") (some "d/a.h")).perform (afterAll before {}) =
      (.ok sectionOfA, _) := perform_of_toOption (by decide +kernel)
  have hhome : reshelved.home = shelved.home := by decide +kernel
  have hlater := (found_section_stays before later hhome hfound).1
  exact ⟨_, hfound, hlater⟩

def Undisturbed (store : Store) : List Call → Shelf → Prop
  | [], _ => True
  | c :: later, shelf => (∃ shelf', (loadAll store (c.loads store)).perform shelf = (.ok (),shelf')) ∧
      Undisturbed store later (c.after store shelf)

lemma Undisturbed.stocked {history : List Call} {ps : List String} (h : Undisturbed fs history sh)
  (hs : Stocked fs ps sh) : ∃ ps', Stocked fs ps' (afterAll (history.map (fs,·)) sh) := by
  induction history generalizing ps sh with
  | nil => exact ⟨ps,hs⟩
  | cons c later ih =>
    obtain ⟨⟨sh',hld⟩,hl⟩ := h
    have ha : c.after fs sh = sh' := by rw [c.after_eq,hld]
    rw [ha] at hl
    obtain ⟨ps',hps'⟩ := ih hl (hs.loadAll hld)
    refine ⟨ps',?_⟩
    rw [map_cons,afterAll,ha]
    exact hps'

def destination (store : Store) (base : String) (parts : Uri) : List String :=
  let folder := (Path.namesOf (store.absolute base)).dropLast
  let start := if parts.authority = ".." then folder.dropLast else folder
  (Path.walk parts.path start.reverse).reverse

lemma fileOf_dotted (hdt : parts.authority = "." ∨ parts.authority = "..")
  (hpt : Uri.Rooted parts.path.toList) (base : String) : ∃ root, Path.IsRoot root ∧
    fileOf fs parts (some base) = .ok (some (Path.spell root (destination fs base parts))) := by
  obtain ⟨root,ns,hr,hnm,hb⟩ := Path.absolute_spelled fs.isAbsolute_cwd base
  have ha : fs.absolute base = Path.spell root ns := hb
  have hp : ∀ n ∈ ns.dropLast, Path.Proper n := fun n hn => hnm n (dropLast_subset _ hn)
  have hd : Path.isAbsolute (Path.spell root ns.dropLast) := Path.isAbsolute_spell hr _
  have hne : parts.authority ≠ "" := by rcases hdt with h | h <;> rw [h] <;> decide
  have hf (folder : String) (start : List String) (hd : Path.isAbsolute folder = true)
      (hs : Path.walk folder [] = start) :
      ∃ root, Path.IsRoot root ∧
        fs.absolute (folder ++ parts.path) = Path.spell root (Path.walk parts.path start).reverse := by
    have hw := Path.isAbsolute_append hd parts.path
    refine ⟨_,Path.isRoot_rootOf hw,?_⟩
    rw [Store.absolute,Path.absolute,if_pos hw,Path.normalize_eq hw,Path.walk_append hpt,hs]
  rw [fileOf,if_neg hne,if_pos hdt,destination,ha,Path.parent_of_names hr hnm,Path.namesOf_spell hr hnm]
  dsimp only
  by_cases hup : parts.authority = ".."
  · have hsm : Path.spell root ns.dropLast ≠ "" := by
      intro he
      rw [he] at hd
      exact absurd hd (by decide)
    have hwl : Path.walk (Path.join (Path.spell root ns.dropLast) "..") [] = ns.dropLast.dropLast.reverse := by
      rw [Path.walk_join hsm (by decide),Path.walk_spell hr hp,
        Path.walk_up fun n hn => hp n (mem_reverse.mp hn),tail_reverse]
    obtain ⟨root',hr',heq⟩ := hf _ _ (Path.isAbsolute_join hd) hwl
    rw [if_pos hup,if_pos hup,heq]
    exact ⟨root',hr',rfl⟩
  · obtain ⟨root',hr',heq⟩ := hf _ _ hd (Path.walk_spell hr hp)
    rw [if_neg hup,if_neg hup,heq]
    exact ⟨root',hr',rfl⟩

lemma explain_read {err : Fault} (h : fs.read path = .error err) (uri base : String) :
    explain uri (some base) err = if Path.hasNull path then .nullInPath else .unreadable uri base err := by
  have hr (other : Fault) (hs : other.category.isSystem = true) :
    explain uri (some base) (Store.refusal path other) =
        if Path.hasNull path then .nullInPath else .unreadable uri base
          (Store.refusal path other) := by
    rw [explain,Store.refusal]
    by_cases hn : Path.hasNull path = true
    · rw [if_pos hn,if_pos hn]
      rfl
    · rw [if_neg hn,if_neg hn,if_pos hs]
      rfl
  rw [Store.read] at h
  split at h
  · rename_i dead _
    obtain rfl := Except.error.inj h
    cases dead with
    | missing => exact hr (.noFile path) rfl
    | notFolder => exact hr (.notDirectory path) rfl
  split at h
  · obtain rfl := Except.error.inj h
    exact hr (.isDirectory path) rfl
  · split at h
    · cases h
    · obtain rfl := Except.error.inj h
      exact hr (.noFile path) rfl

lemma sectionsOf_closed {err : Fault} (h : fs.read path = .error err) : sectionsOf fs path = ⟨[],some err⟩ := by
  rw [sectionsOf,Store.lines,h]
  rfl

section

variable {ps : List String} {uri base path : String} {parts : Uri}

lemma find_closed (hs : Stocked fs ps sh) (hp : Uri.parse (slashed uri) = .ok parts)
  (hfi : fileOf fs parts (some base) = .ok (some path)) {err : Fault} (hr : fs.read path = .error err) :
  ((find fs (some uri) (some base)).perform sh).1 = .error (explain uri (some base) err) := by
  have hsc := sectionsOf_closed hr
  have hn : sh.files.contains path = false := by
    rw [Bool.eq_false_iff,ne_eq,contains_iff_mem,hs.files,itemsIn,hsc]
    exact fun h => h.2 rfl
  have hl : (loadFile fs path).perform sh = (.error err,sh) := by
    rw [perform_loadFile,hn,hsc]
    rfl
  rw [find_some,perform_ofExcept_bind hp,perform_ofExcept_bind hfi]
  rcases hrn : (fetch fs uri (some base) (some path) >>= fun _ =>
    pick uri parts (some path)).perform sh with ⟨r,sh1⟩
  have hf : (fetch fs uri (some base) (some path)).perform sh = (.error (explain uri (some base) err),sh) := by
    rcases hf : (fetch fs uri (some base) (some path)).perform sh with ⟨r,sh1⟩
    rcases tryCatch_cases hf with ⟨_,hok,-⟩ | ⟨err',sh2,hfl,hrs⟩
    · cases hok.symm.trans hl
    · obtain ⟨hft,rfl⟩ := Prod.mk.inj (hfl.symm.trans hl)
      obtain rfl := Except.error.inj hft
      exact hrs.symm
  rcases bind_cases hrn with ⟨err',hfl,rfl⟩ | ⟨x,sh2,hok,-⟩
  · obtain rfl := Except.error.inj (Prod.mk.inj (hfl.symm.trans hf)).1
    rfl
  · cases hok.symm.trans hf

lemma find_open (hs : Stocked fs ps sh) (hp : Uri.parse (slashed uri) = .ok parts)
    (hfl : fileOf fs parts (some base) = .ok (some path)) (hld : Loadable fs path) :
    ((find fs (some uri) (some base)).perform sh).1 =
      match (sectionsOf fs path).items.find? (·.name == parts.fragment) with
      | some s => .ok s
      | none => .error (.noSection uri parts.quoted s!"file \"{path}\"") := by
  obtain ⟨sh',hsh'⟩ := hs.load_ok_iff.mpr hld
  have hst := hs.load hsh'
  have hf : Fetched fs (some path) sh sh' := hsh'
  have hl : (sh'.sections.filter (fits parts (some path))).getLast? =
      (sectionsOf fs path).items.find? (·.name == parts.fragment) := by
    rw [hst.first]
    exact find?_in_file (by simp)
  rw [find_some,perform_ofExcept_bind hp,perform_ofExcept_bind hfl,
    perform_bind (fetch_ok_iff.mpr hf),pick.eq_def,perform_get_bind,hl]
  cases (sectionsOf fs path).items.find? (·.name == parts.fragment) <;> rfl

end

structure Tells (store : Store) (uri base path name : String) (outcome : Except Fault Section) : Prop where
  closed : ∀ fault, store.read path = .error fault →
    outcome = .error (if Path.hasNull path then .nullInPath else .unreadable uri base fault)
  found : Loadable store path → ∀ s, outcome = .ok s ↔ s ∈ (sectionsOf store path).items ∧ s.name = name
  absent : Loadable store path → ((∃ fault, outcome = .error fault ∧ fault.category = .value) ↔
    ∀ s ∈ (sectionsOf store path).items, s.name ≠ name)

lemma tells_find {ps : List String} {uri base : String} (hs : Stocked fs ps sh)
    (hp : Uri.parse (slashed uri) = .ok parts) (hf : fileOf fs parts (some base) = .ok (some path)) :
    Tells fs uri base path parts.fragment ((find fs (some uri) (some base)).perform sh).1 where
  closed err hr := by rw [find_closed hs hp hf hr,explain_read hr]
  found hl s := by
    rw [find_open hs hp hf hl]
    constructor
    · intro h
      split at h
      · rename_i t ht
        cases h
        exact ⟨mem_of_find?_eq_some ht,by simpa using find?_some ht⟩
      · cases h
    · rintro ⟨hm,hnm⟩
      rw [← hnm,find?_of_mem hl hm]
  absent hl := by
    rw [find_open hs hp hf hl]
    constructor
    · rintro ⟨err,h,-⟩
      split at h
      · cases h
      · rename_i hn
        simpa using hn
    · intro h
      have hn : (sectionsOf fs path).items.find? (·.name == parts.fragment) = none := by
        simpa using h
      rw [hn]
      exact ⟨_,rfl,rfl⟩

theorem dotted_finds_in_file {history : List Call} (h : Undisturbed store history {}) {uri : String}
    {parts : Uri} (hparts : Uri.parse (slashed uri) = .ok parts)
    (hdots : parts.authority = "." ∨ parts.authority = "..") (base : String) :
    ∃ root, Path.IsRoot root ∧
      Tells store uri base (Path.spell root (destination store base parts)) parts.fragment
        ((find store (some uri) (some base)).perform (afterAll (history.map (store, ·)) {})).1 := by
  have hne : parts.authority ≠ "" := by rcases hdots with h | h <;> rw [h] <;> decide
  obtain ⟨root, hroot, hfile⟩ := @fileOf_dotted store parts hdots (Uri.rooted_path hparts hne) base
  obtain ⟨ps, hs⟩ := h.stocked (stocked_nil store)
  exact ⟨root, hroot, tells_find hs hparts hfile⟩

section

def earlier : List Call :=
  [.load ["d/b.md"],.find (some "doc://#none") none,.find (some "doc://../d/a.md#y") (some "d/c.h")]

def uriOfA : Uri := { scheme := "doc", authority := ".", path := "/a.md", fragment := "x" }

def uriWithNull : Uri := { scheme := "doc", authority := ".", path := "/a\x00.md", fragment := "x" }

lemma undisturbed_earlier : Undisturbed shelved earlier {} :=
  ⟨⟨_,perform_of_toOption (by decide +kernel)⟩,⟨_,perform_of_toOption (by decide +kernel)⟩,
    ⟨_,perform_of_toOption (by decide +kernel)⟩,trivial⟩

end

theorem dotted_finds_in_file_after_other : Undisturbed shelved earlier {} ∧
    ∃ root, Path.IsRoot root ∧
      Tells shelved "doc://./a.md#x" "d/a.h" (Path.spell root ["w", "d", "a.md"]) "x"
        ((find shelved (some "doc://./a.md#x") (some "d/a.h")).perform
          (afterAll (earlier.map (shelved, ·)) {})).1 := by
  have hparts : Uri.parse (slashed "doc://./a.md#x") = .ok uriOfA := ok_of_toOption (by decide +kernel)
  have hdestination : destination shelved "d/a.h" uriOfA = ["w", "d", "a.md"] := by decide +kernel
  obtain ⟨root, hroot, htells⟩ := dotted_finds_in_file undisturbed_earlier hparts (.inl rfl) "d/a.h"
  rw [hdestination] at htells
  exact ⟨undisturbed_earlier, root, hroot, htells⟩

theorem dotted_with_null_is_bad_value : Uri.parse (slashed "doc://./a\x00.md#x") = .ok uriWithNull ∧
    fileOf shelved uriWithNull (some "d/a.h") = .ok (some "/w/d/a\x00.md") ∧
    (∃ fault, shelved.read "/w/d/a\x00.md" = .error fault) ∧
    ∃ fault, ((find shelved (some "doc://./a\x00.md#x") (some "d/a.h")).perform {}).1 =
      .error fault ∧
      fault.category.isSystem = false ∧ fault.category = .value := by
  have hparts : Uri.parse (slashed "doc://./a\x00.md#x") = .ok uriWithNull := ok_of_toOption (by decide +kernel)
  have hfile : fileOf shelved uriWithNull (some "d/a.h") = .ok (some "/w/d/a\x00.md") :=
    ok_of_toOption (by decide +kernel)
  have hnone : (shelved.read "/w/d/a\x00.md").toOption = none := by decide +kernel
  have hnull : Path.hasNull "/w/d/a\x00.md" = true := by decide
  cases hread : shelved.read "/w/d/a\x00.md" with
  | ok c =>
      rw [hread] at hnone
      cases hnone
  | error fault =>
      have houtcome := (tells_find (stocked_nil shelved) hparts hfile).closed fault hread
      rw [if_pos hnull] at houtcome
      exact ⟨hparts, hfile, ⟨fault, rfl⟩, .nullInPath, houtcome, rfl, rfl⟩

end Shelf

end Docweave
