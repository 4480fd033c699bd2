import Docweave.Proofs.Jobs.Stages

namespace Docweave

open List

namespace Act

variable {σ α β : Type} {s s1 : σ}

lemma perform_bind {a : Act σ α} {x : α} (h : a.perform s = (.ok x,s1)) (f : α → Act σ β) :
    (a >>= f).perform s = (f x).perform s1 := by
  rw [perform_bind_eq,h]
  rfl

lemma perform_ofExcept_eq (a : Except Fault α) (s : σ) : (ofExcept a).perform s = (a,s) := by
  cases a <;> rfl

lemma perform_ofExcept {a : Except Fault α} {x : α} (h : a = .ok x) : (ofExcept a).perform s = (.ok x,s) := by
  rw [perform_ofExcept_eq,h]

lemma perform_get_bind (f : σ → Act σ β) : ((get : Act σ σ) >>= f).perform s = (f s).perform s := rfl

lemma perform_ofExcept_bind {a : Except Fault α} {x : α} (h : a = .ok x) (f : α → Act σ β) :
    (ofExcept a >>= f).perform s = (f x).perform s := perform_bind (perform_ofExcept h) f

lemma ofExcept_ok_iff {a : Except Fault α} {x : α} : (ofExcept a).perform s = (.ok x,s1) ↔
    a = .ok x ∧ s1 = s := by
  rw [perform_ofExcept_eq,Prod.mk.injEq,eq_comm (a := s)]

lemma perform_mapM_ofExcept_eq (f : α → Except Fault β) (xs : List α) (s : σ) :
    (xs.mapM fun x => ofExcept (f x)).perform s = (xs.mapM f,s) := by
  induction xs with
  | nil => rfl
  | cons x xs ih =>
    rw [mapM_cons,mapM_cons]
    cases f x with
    | error err => rfl
    | ok y =>
      rw [perform_ofExcept_bind rfl,perform_bind_eq,ih]
      cases xs.mapM f <;> rfl

lemma perform_mapM_ofExcept {f : α → Except Fault β} {xs : List α} {ys : List β}
    (h : xs.mapM f = .ok ys) : (xs.mapM fun x => ofExcept (f x)).perform s = (.ok ys,s) := by
  rw [perform_mapM_ofExcept_eq,h]

end Act

namespace Files.Store

variable {s s' : Store} {path : String} {loc : Place}

structure SameFolders (s s' : Store) : Prop where
  home : s'.home = s.home
  folders : s'.folders = s.folders

lemma SameFolders.refl (s : Store) : SameFolders s s := ⟨rfl,rfl⟩

lemma SameFolders.trans {a b c : Store} (hab : SameFolders a b) (hbc : SameFolders b c) : SameFolders a c :=
  ⟨hbc.home.trans hab.home,hbc.folders.trans hab.folders⟩

lemma SameFolders.isFolderAt (h : SameFolders s s') (loc : Place) : s'.isFolderAt loc = s.isFolderAt loc := by
  rw [Store.isFolderAt,Store.isFolderAt,h.folders]

lemma follow_of_kept (h : ∀ q, s.isFolderAt q → s'.isFolderAt q) {cs : List String}
    {start : Place} (hf : s.follow start cs = .ok loc) : s'.follow start cs = .ok loc := by
  induction cs generalizing start with
  | nil => exact hf
  | cons c cs ih =>
    rw [Store.follow] at hf ⊢
    split at hf
    · cases hf
    rename_i hd
    have hk : s'.isFolderAt start := h start (by simpa using hd)
    rw [if_neg (by simp [hk])]
    split at hf
    · rename_i hs
      rw [if_pos hs]
      exact ih hf
    rename_i hs
    rw [if_neg hs]
    split at hf
    · rename_i hup
      rw [if_pos hup]
      exact ih hf
    · rename_i hup
      rw [if_neg hup]
      exact ih hf

lemma locate_of_kept (hh : s'.home = s.home) (hk : ∀ q, s.isFolderAt q → s'.isFolderAt q)
    (hl : s.locate path = .ok loc) : s'.locate path = .ok loc := by
  rw [Store.locate] at hl ⊢
  split at hl
  · cases hl
  · rename_i he
    rw [if_neg he,hh]
    exact follow_of_kept hk hl

lemma SameFolders.locate (h : SameFolders s s') (hl : s.locate path = .ok loc) : s'.locate path = .ok loc :=
  locate_of_kept h.home (fun q hq => (h.isFolderAt q).trans hq) hl

lemma target_ok (h : s.target path = .ok loc) : s.locate path = .ok loc ∧ s.isFolderAt loc = false := by
  rw [target] at h
  split at h
  · cases h
  rename_i found hl
  split at h
  · cases h
  · rename_i hd
    cases h
    exact ⟨hl,by simpa using hd⟩

lemma target_of_locate (hl : s.locate path = .ok loc) (hf : s.isFolderAt loc = false) :
    s.target path = .ok loc := by
  rw [target,hl]
  simp [hf]

lemma SameFolders.target (h : SameFolders s s') (ht : s.target path = .ok loc) : s'.target path = .ok loc := by
  obtain ⟨hl,hf⟩ := target_ok ht
  exact target_of_locate (h.locate hl) ((h.isFolderAt loc).trans hf)

lemma write_of_target (h : s.target path = .ok loc) (text : String) :
    s.write path text = .ok { s with files := put loc (.text text) s.files } := by
  rw [write,writeContent,h]
  rfl

end Files.Store

namespace Job

open Element Docweave.Tree Files

def xmlPath (path : Path.Simple) (stage : String) : Except Fault Path.Simple := do
  let xml ← path.withSuffix ".xml"
  xml.withName (xml.stem ++ stage ++ xml.suffix)

def stageNames : List String :=
  ["_lines","_comments","_md","_resolved","_single","_trees","_manipulated","_output"]

def Writable (store : Store) (path : Path.Simple) : Prop :=
  ∀ stage ∈ stageNames, ∃ target place,
    xmlPath path stage = .ok target ∧ store.target target.text = .ok place

lemma writable_of_checked {fs : Store} {path : Path.Simple}
    (h : stageNames.all (fun stage => ((xmlPath path stage).toOption.bind fun target =>
      (fs.target target.text).toOption).isSome)) : Writable fs path := by
  intro stage hs
  obtain ⟨loc,hp⟩ := Option.isSome_iff_exists.mp (all_eq_true.mp h stage hs)
  obtain ⟨target,ht,hp⟩ := Option.bind_eq_some_iff.mp hp
  exact ⟨target,loc,ok_of_toOption ht,ok_of_toOption hp⟩

def Spelled (path : Path.Simple) (es : List Element) : Prop :=
  ∃ text, (fileElement "file" path.text es).xml = .ok text

structure Follows (s s' : Job) : Prop where
  settings : s'.settings = s.settings
  store : s.store.SameFolders s'.store

lemma Follows.refl (s : Job) : Follows s s := ⟨rfl,.refl _⟩

lemma Follows.trans {a b c : Job} (hab : Follows a b) (hbc : Follows b c) : Follows a c :=
  ⟨hbc.settings.trans hab.settings,hab.store.trans hbc.store⟩

variable {s s' : Job} {path : Path.Simple} {es es' : List Element}

lemma changeStore_ok {f : Store → Except Fault Store} {u : Unit} (h : (changeStore f).perform s = (.ok u,s')) :
    ∃ store, f s.store = .ok store ∧ s' = { s with store } := by
  obtain ⟨store,s1,hs,hm⟩ := Act.bind_ok h
  have hr := Act.get_bind_ok hs
  obtain ⟨hf,rfl⟩ := Act.ofExcept_ok_iff.mp hr
  exact ⟨store,hf,(Prod.mk.inj hm).2.symm⟩

lemma writeXml_eq (path : Path.Simple) (stage : String) (es : List Element) : writeXml path stage es =
    (Act.ofExcept (xmlPath path stage) >>= fun target => Act.ofExcept (fileElement "file" path.text es).xml >>=
      fun text => changeStore (·.write target.text text)) := by
  rw [xmlPath]
  cases hx : path.withSuffix ".xml" with
  | error fault =>
    rw [writeXml,hx]
    rfl
  | ok xml =>
    rw [writeXml,hx]
    rfl

lemma writeXml_ok_iff {stage : String} :
    (writeXml path stage es).perform s = (.ok (),s') ↔ ∃ target text store, xmlPath path stage = .ok target ∧
      (fileElement "file" path.text es).xml = .ok text ∧ s.store.write target.text text = .ok store ∧
      s' = { s with store } := by
  rw [writeXml_eq]
  constructor
  · intro h
    obtain ⟨target,hp,hr⟩ := Act.ofExcept_bind_ok h
    obtain ⟨text,ht,hc⟩ := Act.ofExcept_bind_ok hr
    obtain ⟨store,hs,rfl⟩ := changeStore_ok hc
    exact ⟨target,text,store,hp,ht,hs,rfl⟩
  · rintro ⟨target,text,store,hp,ht,hs,rfl⟩
    have hrn : (ofStore (·.write target.text text)).perform s = (.ok store,s) := Act.perform_ofExcept hs
    rw [Act.perform_ofExcept_bind hp,Act.perform_ofExcept_bind ht,changeStore,Act.perform_bind hrn]
    rfl

lemma Writable.follows {s' : Job} (h : Writable s.store path) (hf : Follows s s') : Writable s'.store path := by
  intro stage hs
  obtain ⟨target,loc,hp,ht⟩ := h stage hs
  exact ⟨target,loc,hp,hf.store.target ht⟩

lemma writeXml_run (stage : String) (hw : Writable s.store path) (hs : stage ∈ stageNames)
    (hx : Spelled path es) : ∃ s', (writeXml path stage es).perform s = (.ok (),s') ∧ Follows s s' := by
  obtain ⟨target,loc,hp,htg⟩ := hw stage hs
  obtain ⟨text,ht⟩ := hx
  have hst := Store.write_of_target htg text
  exact ⟨_,writeXml_ok_iff.mpr ⟨target,text,_,hp,ht,hst,rfl⟩,rfl,rfl,rfl⟩

lemma stage_run (name : String) {f : Element → Act Job Element} {s1 : Job}
    (hf : (es.mapM f).perform s = (.ok es',s1)) (hs : Follows s s1) (hw : Writable s.store path)
    (hn : name ∈ stageNames) (hx : Spelled path es') :
    ∃ s', (stage path name f es).perform s = (.ok es',s') ∧ Follows s s' := by
  obtain ⟨s2,hwr,hs2⟩ := writeXml_run name (hw.follows hs) hn hx
  refine ⟨s2,?_,hs.trans hs2⟩
  rw [stage,Act.perform_bind hf,Act.perform_bind hwr]
  rfl

lemma plainStage_run (name : String) {f : Element → Except Fault Element}
    (hf : es.mapM f = .ok es') (hw : Writable s.store path) (hn : name ∈ stageNames)
    (hx : Spelled path es') : ∃ s', (plainStage path name f es).perform s = (.ok es',s') ∧ Follows s s' :=
  stage_run name (Act.perform_mapM_ofExcept hf) (.refl s) hw hn hx

end Job

namespace Tree

open Element

lemma resolveAll_settled {fs : Files.Store} {d : Edition} {e : Element} (h : waiting d e = [])
    (sh : Shelf) : (resolveAll d fs e).perform sh = (.ok e,sh) := by
  have hr (fuel : Nat) : resolveRounds d fs (fuel + 1) e = pure e := by
    rw [resolveRounds,h]
    rfl
  have hrn : (resolveAll d fs e).perform sh =
      (resolveRounds d fs (2 * fs.size + sh.sections.length + 2) e).perform sh := rfl
  rw [hrn,hr]
  rfl

end Tree

namespace Job

open Element Docweave.Tree Files

variable {s : Job} {path : Path.Simple}

lemma resolveEach_settled {es : List Element} (h : ∀ e ∈ es, waiting .final e = []) :
    ∃ s', (es.mapM fun e => withShelf (resolveAll .final · e)).perform s = (.ok es,s') ∧ Follows s s' := by
  induction es generalizing s with
  | nil => exact ⟨s,rfl,.refl s⟩
  | cons e es ih =>
    rw [forall_mem_cons] at h
    let s1 : Job := { s with shelf := some (s.shelf.getD {}) }
    have hf : (withShelf (resolveAll .final · e)).perform s = (.ok e,s1) := by
      have hrn : (withShelf (resolveAll .final · e)).perform s =
        ((resolveAll .final s.store e).perform (s.shelf.getD {})).map id
          (fun sh => { s with shelf := some sh }) := rfl
      rw [hrn,resolveAll_settled h.1]
      rfl
    obtain ⟨s2,hr,hs2⟩ := ih (s := s1) h.2
    refine ⟨s2,?_,Follows.trans (b := s1) ⟨rfl,rfl,rfl⟩ hs2⟩
    rw [mapM_cons,Act.perform_bind hf,Act.perform_bind hr]
    rfl

lemma readComments_run {marked es : List Element}
    (hr : Tree.readLines 4 path.text (s.store.lines path.text) = .ok marked)
    (hes : (gatherComments {} marked).mapM (fun e => do
      extract "extract" "extract" (← settleComment "lines" e)) = .ok es)
    (hw : Writable s.store path) (hx : Spelled path (gatherComments {} marked))
    (hx' : Spelled path es) :
    ∃ s', (readComments path).perform s = (.ok es,s') ∧ Follows s s' := by
  obtain ⟨s1,hl,hs1⟩ := writeXml_run "_lines" hw (by decide) hx
  obtain ⟨s2,hst,hs2⟩ :=
    plainStage_run "_comments" hes (hw.follows hs1) (by decide) hx'
  refine ⟨s2,?_,hs1.trans hs2⟩
  rw [readComments,Act.perform_get_bind,Act.perform_ofExcept_bind hr,Act.perform_bind hl]
  exact hst

end Job

end Docweave
