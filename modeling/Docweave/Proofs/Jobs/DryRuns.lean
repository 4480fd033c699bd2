import Docweave.Proofs.Jobs.Extraction

namespace Docweave.Job

open Element Docweave.Tree Files Store Act List

def lookedInto (j : Job) : List String := ((reports j).filter (·.overwrote)).map Report.path

def Settings.stages (settings : Settings) : List String := stagesFor settings.adHoc settings.extract

def Stored (stages : List String) (store : Store) (source : String) : Prop :=
  ∀ stage ∈ stages, ∃ place, StageAt [stage] store source place ∧ (store.content? place).isSome = true

section

variable {stages : List String} {src : String} {j j' : Job}

lemma Stored.later (h : Stored stages j.store src) (hd : SameFolders j.store j'.store)
    (hp : NoneGone j.store j'.store) : Stored stages j'.store src := by
  intro stage hs
  obtain ⟨loc,hpl,hsm⟩ := h stage hs
  exact ⟨loc,(stageAt_iff hd).mpr hpl,hp loc hsm⟩

structure Builds (source : String) (stages : List String) (j j' : Job) : Prop where
  folders : SameFolders j.store j'.store
  present : NoneGone j.store j'.store
  stored : Stored stages j'.store source

lemma Builds.trans {stages' : List String} {j1 : Job} (h : Builds src stages j j1)
    (h' : Builds src stages' j1 j') : Builds src (stages ++ stages') j j' := by
  refine ⟨h.folders.trans h'.folders,fun q hq => h'.present q (h.present q hq),?_⟩
  intro stage hs
  rcases mem_append.mp hs with hm | hm
  · exact h.stored.later h'.folders h'.present stage hm
  · exact h'.stored stage hm

def Stores {α : Type} (source : String) (stages : List String) (a : Act Job α) : Prop :=
  ∀ j x j', a.perform j = (.ok x,j') → Builds source stages j j'

lemma stores_of_keeps {α : Type} {a : Act Job α} (h : a.Keeps (Touches stageNames src none)) :
    Stores src [] a := by
  intro j x j' hr
  have ht := h.of_perform hr
  exact ⟨ht.folders,ht.present,fun _ hs => absurd hs not_mem_nil⟩

lemma Stores.bind {α β : Type} {a : Act Job α} {f : α → Act Job β} {first rest : List String}
    (ha : Stores src first a) (hf : ∀ x, Stores src rest (f x)) : Stores src (first ++ rest) (a >>= f) := by
  intro j y j' h
  obtain ⟨x,j1,hx,hr⟩ := Act.bind_ok h
  exact (ha _ _ _ hx).trans (hf x _ _ _ hr)

lemma writeXml_stores {stage : String} (hs : stage ∈ stageNames) (es : List Element) :
    Stores src [stage] (writeXml (.of src) stage es) := by
  intro j _ j' h
  have ht : Touches stageNames src none j j' := (writeXml_keeps hs es).of_perform h
  refine ⟨ht.folders,ht.present,fun stage' hs' => ?_⟩
  obtain rfl := mem_singleton.mp hs'
  obtain ⟨xml,text,fs,hpt,-,hst,rfl⟩ := writeXml_ok_iff.mp h
  obtain ⟨loc,hp,hc,hcn⟩ := write_ok hst
  refine ⟨loc,⟨stage',mem_singleton_self _,xml,hpt,?_⟩,by simp [hcn]⟩
  exact hc.folders.locate (target_ok hp).1

lemma stagewise_stores : Stagewise dry fun stages _ a => Stores src stages a where
  pure x := stores_of_keeps (keeps_pure x)
  fail err := stores_of_keeps (keeps_fail err)
  shelf f := stores_of_keeps (withShelf_keeps f)
  get _ hf := fun j => hf j j
  bind ha hf h := h ▸ ha.bind hf

lemma extractStaged_stores (ref : Option String) : Stores src readingStages (extractStaged src none ref) :=
  (stagewise_stores.readComments fun _ hs => writeXml_stores (mem_append_left _ hs)).bind fun _ =>
    stores_of_keeps (extractElements_keeps ref _)

lemma writeSource_stored {r : Report} {ref : Option String} {sheet : Sheet}
    (ht : r.extractPath.getD none = none) (h : (writeSource r ref).perform j = (.ok sheet,j')) :
    Stored (stagesFor j.settings.adHoc r.extract) j'.store r.path := by
  rw [writeSource,perform_get_bind] at h
  dsimp only at h
  rw [ht] at h
  cases hm : j.settings.adHoc with
  | true => exact fun _ hs => absurd hs not_mem_nil
  | false =>
    cases he : r.extract with
    | true =>
      rw [he,hm] at h
      exact (extractStaged_stores _ _ _ _ h).stored
    | false =>
      rw [he,hm] at h
      obtain ⟨_,j1,-,hrs⟩ := Act.bind_ok h
      obtain ⟨_,j2,hr,-,rfl⟩ := Act.map_ok hrs
      exact (stagewise_stores.renderStaged (fun _ => writeXml_stores) _ _ _ hr).stored

end

section

variable {cfg : Settings} {stages : List String} {α β : Type} {j j' : Job} {r : Report}

structure Look (stages : List String) (seen : List String) (failed : Option String) (j j' : Job) :
    Prop where
  settings : j'.settings = j.settings
  folders : SameFolders j.store j'.store
  looked : lookedInto j' = lookedInto j ++ seen
  present : NoneGone j.store j'.store
  others : ∀ place, (∀ source ∈ seen ++ failed.toList, ¬ StageAt stages j.store source place) →
    j'.store.content? place = j.store.content? place
  stored : ∀ source ∈ seen, Stored stages j'.store source
  scratch : j'.scratch = j.scratch ++ failed.toList

lemma look_refl (j : Job) : Look stages [] none j j where
  settings := rfl
  folders := .refl _
  looked := (append_nil _).symm
  present := fun _ h => h
  others := fun _ _ => rfl
  stored := fun _ h => absurd h not_mem_nil
  scratch := (append_nil _).symm

lemma Look.trans {seen seen' : List String} {failed : Option String} {j1 : Job} (h : Look stages seen none j j1)
    (h' : Look stages seen' failed j1 j') : Look stages (seen ++ seen') failed j j' where
  settings := h'.settings.trans h.settings
  folders := h.folders.trans h'.folders
  looked := by rw [h'.looked,h.looked,append_assoc]
  present := fun q hq => h'.present q (h.present q hq)
  others := by
    intro loc hp
    have hl : ∀ src ∈ seen' ++ failed.toList, ¬ StageAt stages j1.store src loc := by
      intro src hs
      rw [stageAt_iff h.folders]
      exact hp src (by rw [append_assoc]; exact mem_append_right _ hs)
    rw [h'.others loc hl]
    refine h.others loc fun src hs => hp src ?_
    rw [Option.toList_none,append_nil] at hs
    exact mem_append_left _ (mem_append_left _ hs)
  stored := by
    intro src hs
    rcases mem_append.mp hs with hm | hm
    · exact (h.stored src hm).later h'.folders h'.present
    · exact h'.stored src hm
  scratch := by rw [h'.scratch,h.scratch,Option.toList_none,append_nil]

def Looks (settings : Settings) (a : Act Job α) : Prop :=
  ∀ j result j', j.settings = settings → a.perform j = (result,j') →
    ∃ seen failed, (failed = none ↔ ∃ x, result = .ok x) ∧ Look settings.stages seen failed j j'

lemma looks_pure (x : α) : Looks cfg (pure x : Act Job α) := by
  intro j res j' _ h
  cases h
  exact ⟨[],none,⟨fun _ => ⟨x,rfl⟩,fun _ => rfl⟩,look_refl j⟩

lemma Looks.bind {a : Act Job α} {f : α → Act Job β} (ha : Looks cfg a)
    (hf : ∀ x, Looks cfg (f x)) : Looks cfg (a >>= f) := by
  intro j res j' hs h
  rcases bind_cases h with ⟨err,hfa,rfl⟩ | ⟨x,j1,hx,hr⟩
  · obtain ⟨seen,failed,hfl,hl⟩ := ha _ _ _ hs hfa
    exact ⟨seen,failed,by simpa using hfl,hl⟩
  · obtain ⟨seen,failed,hfl,hl⟩ := ha _ _ _ hs hx
    obtain rfl := hfl.mpr ⟨x,rfl⟩
    obtain ⟨seen',failed',hfl',hl'⟩ := hf x _ _ _ (hl.settings.trans hs) hr
    exact ⟨seen ++ seen',failed',hfl',hl.trans hl'⟩

lemma Looks.foldlM {f : β → α → Act Job β} (hf : ∀ y x, Looks cfg (f y x)) (xs : List α)
    (y : β) : Looks cfg (xs.foldlM f y) := by
  induction xs generalizing y with
  | nil => exact looks_pure y
  | cons x xs ih =>
    exact (hf y x).bind ih

lemma Starts.of_dry {res : Except Fault (Report × Option String)} (hd : j.settings.dryRun)
    (h : Starts r j res j') : res = .ok ({ r with extractPath := some none },none) ∧ j' = j := by
  cases h with
  | off => exact ⟨rfl,rfl⟩
  | nowhere hno => simp [hd] at hno
  | opens ha => exact absurd (hd.symm.trans ha.wet) (by decide)

lemma Touches.cleared {src path : String} {target : Option String}
    (h : Touches stages src target (j.scratched path) j') : Touches stages src target j j'.cleared := by
  refine ⟨h.settings,h.folders,h.reports,h.present,h.others,?_⟩
  rw [Job.cleared,h.scratch]
  exact dropLast_concat

lemma Overwrites.of_dry {res : Except Fault Report} (hd : j.settings.dryRun)
    (h : Overwrites r j res j') :
    (∃ err, res = .error err ∧ Touches (stagesFor j.settings.adHoc r.extract) r.path none
      (j.scratched r.path) j') ∨
      ∃ r', res = .ok r' ∧ Touches (stagesFor j.settings.adHoc r.extract) r.path none j j' ∧
        r'.path = r.path ∧
        r'.overwrote = r.overwrote ∧
        Stored (stagesFor j.settings.adHoc r.extract) j'.store r.path := by
  cases h with
  | unstarted hs =>
    obtain ⟨hr,-⟩ := hs.of_dry hd
    cases hr
  | unfinished hs hsh | unwritten hs hsh =>
    obtain ⟨hr,rfl⟩ := hs.of_dry hd
    cases hr
    exact .inl ⟨_,rfl,writeSource_touches hsh⟩
  | discarded hs hsh =>
    obtain ⟨hr,rfl⟩ := hs.of_dry hd
    cases hr
    have hst := writeSource_stored (by rfl) hsh
    exact .inr ⟨_,rfl,(writeSource_touches hsh).cleared,rfl,rfl,hst⟩
  | written hs hsh _ hno =>
    obtain ⟨hr,rfl⟩ := hs.of_dry hd
    rw [(writeSource_touches hsh).settings] at hno
    cases hno.symm.trans hd

lemma lookedInto_report (j : Job) (r : Report) :
    lookedInto { j with events := j.events ++ [.reported r.finished] } =
      lookedInto j ++ if r.overwrote then [r.path] else [] := by
  cases ho : r.overwrote with
  | true => simp [lookedInto,reports,Report.finished,ho]
  | false => simp [lookedInto,reports,Report.finished,ho]

lemma looks_report (s : Summary) (h : r.overwrote = false) : Looks cfg (report s r) := by
  intro j res j' _ hr
  cases hr
  have hl := lookedInto_report j r
  rw [h] at hl
  refine ⟨[],none,⟨fun _ => ⟨_,rfl⟩,fun _ => rfl⟩,?_⟩
  exact { look_refl j with looked := hl }

lemma looks_overwrite (hd : cfg.dryRun) (s : Summary) (he : r.extract = cfg.extract)
    (ho : r.overwrote) : Looks cfg (do report s (← overwriteOne r)) := by
  intro j res j' hs h
  have hj : j.settings.dryRun := hs ▸ hd
  have hst : cfg.stages = stagesFor j.settings.adHoc r.extract := by
    rw [Settings.stages,hs,he]
  rw [hst]
  rcases bind_cases h with ⟨err,hf,rfl⟩ | ⟨r',j1,hok,hr⟩
  · rcases (overwriteOne_overwrites hf).of_dry hj with ⟨_,-,ht⟩ | ⟨_,hno,-⟩
    · refine ⟨[],some r.path,by simp,ht.settings,ht.folders,?_,ht.present,?_,fun _ hno => absurd hno not_mem_nil,
        ht.scratch⟩
      · rw [lookedInto,ht.reports,append_nil]
        rfl
      · intro loc hp
        exact ht.others loc (hp _ mem_cons_self) (not_targetAt_none _ _)
    · cases hno
  rcases (overwriteOne_overwrites hok).of_dry hj with ⟨_,hno,-⟩ | ⟨_,hr',ht,hpt,hov,hsr⟩
  · cases hno
  cases hr'
  cases hr
  refine ⟨[r.path],none,by simp,ht.settings,ht.folders,?_,ht.present,?_,?_,?_⟩
  · rw [lookedInto_report,hov,ho,hpt,lookedInto,ht.reports]
    rfl
  · intro loc hp
    exact ht.others loc (hp _ mem_cons_self) (not_targetAt_none _ _)
  · intro src hsc
    obtain rfl := mem_singleton.mp hsc
    exact hsr
  · rw [Option.toList_none,append_nil]
    exact ht.scratch

lemma looks_visitFile (hd : cfg.dryRun) (s : Summary) (path : String) : Looks cfg (visitFile s path) := by
  intro j res j' hs h
  rw [visitFile,perform_get_bind] at h
  dsimp only at h
  split at h
  · exact looks_overwrite hd s (by rw [hs]) (by assumption) _ _ _ hs h
  · rename_i hw
    exact looks_report s (Bool.eq_false_iff.mpr hw) _ _ _ hs h

lemma looks_visitFolder (hd : cfg.dryRun) (fuel : Nat) (s : Summary) (loc : Place)
    (path : String) : Looks cfg (visitFolder fuel s loc path) := by
  induction fuel generalizing s loc path with
  | zero => exact looks_pure s
  | succ fuel ih =>
    intro j res j' hs h
    rw [visitFolder,perform_get_bind] at h
    exact ((Looks.foldlM (fun s name => looks_visitFile hd s _) _ s).bind fun s =>
      Looks.foldlM (fun s name => ih s _ _) _ s) _ _ _ hs h

lemma looks_visitOne (hd : cfg.dryRun) (s : Summary) (path : String) : Looks cfg (visit.visitOne s path) := by
  intro j res j' hs h
  rw [visit.visitOne,perform_get_bind] at h
  exact looks_overwrite hd s (by rw [hs]) rfl _ _ _ hs h

lemma looks_visit (hd : cfg.dryRun) (s : Summary) (path : String) : Looks cfg (visit s path) := by
  intro j res j' hs h
  rw [visit,perform_get_bind] at h
  split at h
  · split at h
    · exact looks_visitFolder hd _ s _ _ _ _ _ hs h
    · exact looks_visitOne hd s _ _ _ _ hs h
  · exact looks_visitOne hd s _ _ _ _ hs h

lemma run_look {paths : List String} {res : Except Fault Unit} (hd : j.settings.dryRun)
    (h : (run paths).perform j = (res,j')) : ∃ failed, (failed = none ↔ res = .ok ()) ∧
      Look j.settings.stages (lookedInto j') failed { j with events := [] } j' := by
  have hr : (modify fun j => { j with events := [] } : Act Job Unit).perform j =
      (.ok (),{ j with events := [] }) := rfl
  rw [run,perform_bind hr] at h
  have hv : Looks j.settings (paths.foldlM visit {}) := Looks.foldlM (looks_visit hd) paths {}
  have hs : { j with events := [] }.settings = j.settings := rfl
  rcases bind_cases h with ⟨err,hfl,rfl⟩ | ⟨summary,j1,hok,hls⟩
  · obtain ⟨seen,failed,hf,hl⟩ := hv _ _ _ hs hfl
    obtain rfl : lookedInto j' = seen := hl.looked
    exact ⟨failed,by simpa using hf,hl⟩
  obtain ⟨seen,failed,hf,hl⟩ := hv _ _ _ hs hok
  obtain rfl := hf.mpr ⟨summary,rfl⟩
  cases hls
  obtain rfl : lookedInto j1 = seen := hl.looked
  exact ⟨none,by simp,{ hl with }⟩

end

section

variable {paths : List String} {j j' : Job} {result : Except Fault Unit}

def Unchanged (j j' : Job) (source stage : String) : Prop :=
  ∃ place c, StageAt [stage] j.store source place ∧ j.store.content? place = some c ∧
    j'.store.content? place = some c

lemma stageAt_unique {fs : Store} {src stage : String} {loc loc' : Place}
    (h : StageAt [stage] fs src loc) (h' : StageAt [stage] fs src loc') : loc' = loc := by
  obtain ⟨_,hm,xml,hx,hp⟩ := h
  obtain rfl := mem_singleton.mp hm
  obtain ⟨_,hm',xml',hx',hp'⟩ := h'
  obtain rfl := mem_singleton.mp hm'
  cases hx.symm.trans hx'
  exact Except.ok.inj (hp'.symm.trans hp)

theorem dry_run_keeps_files_iff (hdry : j.settings.dryRun = true)
    (h : (run paths).perform j = (result, j')) :
    ∃ failed : Option String, (failed = none ↔ result = .ok ()) ∧
      j'.scratch = j.scratch ++ failed.toList ∧
      SameFolders j.store j'.store ∧
      (∀ place, (∀ source ∈ lookedInto j' ++ failed.toList,
        ¬ StageAt j.settings.stages j.store source place) →
        j'.store.content? place = j.store.content? place) ∧
      (((∀ place, j'.store.content? place = j.store.content? place) ∧ j'.scratch = j.scratch) ↔
        result = .ok () ∧ ∀ source ∈ lookedInto j', ∀ stage ∈ j.settings.stages,
          Unchanged j j' source stage) := by
  obtain ⟨failed, hfailed, hlook⟩ := run_look hdry h
  refine ⟨failed, hfailed, hlook.scratch, hlook.folders, hlook.others, ?_⟩
  constructor
  · rintro ⟨hsame, hscratch⟩
    have hnone : failed = none := by
      rw [hlook.scratch, append_right_eq_self] at hscratch
      exact Option.toList_eq_nil_iff.mp hscratch
    refine ⟨hfailed.mp hnone, fun source hsource stage hstage => ?_⟩
    obtain ⟨place, hplace, hsome⟩ := hlook.stored source hsource stage hstage
    obtain ⟨c, hc⟩ := Option.isSome_iff_exists.mp hsome
    exact ⟨place, c, (stageAt_iff hlook.folders).mp hplace, (hsame place).symm.trans hc, hc⟩
  · rintro ⟨hok, hkept⟩
    obtain rfl := hfailed.mpr hok
    refine ⟨fun place => ?_, ?_⟩
    · by_cases hplace : ∃ source ∈ lookedInto j', StageAt j.settings.stages j.store source place
      · obtain ⟨source, hsource, stage, hstage, hxml⟩ := hplace
        obtain ⟨place', c, hplace', hbefore, hafter⟩ := hkept source hsource stage hstage
        obtain rfl := stageAt_unique hplace' ⟨stage, mem_singleton_self _, hxml⟩
        rw [hbefore, hafter]
      · refine hlook.others place fun source hsource hstage => hplace ⟨source, ?_, hstage⟩
        simpa using hsource
    · rw [hlook.scratch, Option.toList_none, append_nil]

end

def dryJob (adHoc : Bool) : Job :=
  { extractJob "int x;\n" with settings := { adHoc, dryRun := true } }

lemma run_of_toOption {paths : List String} {j : Job} (h : ((run paths).perform j).1.toOption = some ()) :
    (run paths).perform j = (.ok (),((run paths).perform j).2) :=
  Prod.ext (ok_of_toOption h) rfl

theorem dry_run_keeps_files_iff_by_items :
    ∃ j', (run ["d/a.h"]).perform (dryJob true) = (.ok (), j') ∧
      (∀ place, j'.store.content? place = (dryJob true).store.content? place) ∧
      j'.scratch = [] := by
  have hrun : (run ["d/a.h"]).perform (dryJob true) = (.ok (), ((run ["d/a.h"]).perform (dryJob true)).2) :=
    run_of_toOption (by decide +kernel)
  obtain ⟨_, -, -, -, -, hiff⟩ := dry_run_keeps_files_iff rfl hrun
  refine ⟨_, hrun, hiff.mpr ⟨rfl, fun source _ stage hstage => ?_⟩⟩
  exact absurd hstage not_mem_nil

theorem dry_run_leaves_stages_at_code :
    ∃ j', (run ["d/a.h"]).perform (dryJob false) = (.ok (), j') ∧
      (dryJob false).store.content? ["d", "a_lines.xml"] = none ∧
      (j'.store.content? ["d", "a_lines.xml"]).isSome = true := by
  refine ⟨_, run_of_toOption ?_, rfl, ?_⟩
  · decide +kernel
  · decide +kernel

end Docweave.Job
