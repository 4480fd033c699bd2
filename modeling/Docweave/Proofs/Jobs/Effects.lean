import Docweave.Job.Run
import Docweave.Proofs.Base.Storage

namespace Docweave

namespace Act

variable {σ α β : Type} {R : σ → σ → Prop} {a : Act σ α} {f : α → Act σ β} {s' s : σ}

class Frame (R : σ → σ → Prop) : Prop where
  refl : ∀ s, R s s
  trans : ∀ {a b c}, R a b → R b c → R a c

def Keeps (a : Act σ α) (R : σ → σ → Prop) : Prop := ∀ s, R s (a.perform s).2

lemma Keeps.of_perform (h : a.Keeps R) {r : Except Fault α} (hr : a.perform s = (r,s')) : R s s' := by
  have hs := h s
  rwa [hr] at hs

lemma keeps_modify {f : σ → σ} (h : ∀ s, R s (f s)) : (modify f : Act σ Unit).Keeps R := h

section

variable [Frame R]

lemma keeps_pure (x : α) : (pure x : Act σ α).Keeps R := fun s => Frame.refl s

lemma keeps_fail (err : Fault) : (fail err : Act σ α).Keeps R := fun s => Frame.refl s

lemma keeps_get : (get : Act σ σ).Keeps R := fun s => Frame.refl s

lemma keeps_ofExcept (a : Except Fault α) : (ofExcept a : Act σ α).Keeps R := by
  cases a with
  | error err => exact keeps_fail err
  | ok x => exact keeps_pure x

lemma Keeps.bind (ha : a.Keeps R) (hf : ∀ x, (f x).Keeps R) : (a >>= f).Keeps R := by
  intro s
  rcases hrn : (a >>= f).perform s with ⟨r,s'⟩
  rcases bind_cases hrn with ⟨err,hfl,-⟩ | ⟨x,s1,hx,hr⟩
  · exact ha.of_perform hfl
  · exact Frame.trans (ha.of_perform hx) ((hf x).of_perform hr)

lemma keeps_ofExcept_bind {a : Except Fault α}
    (hf : ∀ x, a = .ok x → (f x).Keeps R) : (ofExcept a >>= f).Keeps R := by
  cases a with
  | error err => exact keeps_fail err
  | ok x => exact hf x rfl

end

lemma ofExcept_error {a : Except Fault α} {err : Fault} (h : (ofExcept a).perform s = (.error err,s')) :
    a = .error err ∧ s' = s := by
  cases a with
  | error _ =>
    obtain ⟨hf,rfl⟩ := Prod.mk.inj h
    exact ⟨hf,rfl⟩
  | ok x => cases h

lemma tryCatch_cases {f : Fault → Act σ α} {r : Except Fault α} (h : (tryCatch a f).perform s = (r,s')) :
    (∃ x, a.perform s = (.ok x,s') ∧ r = .ok x) ∨
      ∃ err s1, a.perform s = (.error err,s1) ∧ (f err).perform s1 = (r,s') := by
  rcases ha : a.perform s with ⟨res,s1⟩
  cases res with
  | error err => exact .inr ⟨err,s1,rfl,(perform_tryCatch_error ha).symm.trans h⟩
  | ok x =>
    cases (perform_tryCatch_ok ha).symm.trans h
    exact .inl ⟨x,rfl,rfl⟩

lemma Keeps.tryCatch [Frame R] {a : Act σ α} {f : Fault → Act σ α} (ha : a.Keeps R)
    (hf : ∀ err, (f err).Keeps R) : (tryCatch a f).Keeps R := by
  intro s
  rcases hrn : (MonadExcept.tryCatch a f).perform s with ⟨r,s'⟩
  rcases tryCatch_cases hrn with ⟨x,hx,-⟩ | ⟨err,s1,hfl,hr⟩
  · exact ha.of_perform hx
  · exact Frame.trans (ha.of_perform hfl) ((hf err).of_perform hr)

end Act

namespace Files.Store

variable {s s' : Store} {path text : String} {loc : Place}

lemma SameFolders.symm (h : SameFolders s s') : SameFolders s' s := ⟨h.home.symm,h.folders.symm⟩

lemma SameFolders.locate_iff (h : SameFolders s s') : s'.locate path = .ok loc ↔ s.locate path = .ok loc :=
  ⟨h.symm.locate,h.locate⟩

def NoneGone (s s' : Store) : Prop := ∀ q, (s.content? q).isSome = true → (s'.content? q).isSome = true

lemma noneGone_put (s : Store) (loc : Place) (c : Content) :
    NoneGone s { s with files := put loc c s.files } := by
  intro q hq
  by_cases hp : q = loc
  · subst hp
    rw [content?,lookup_put]
    rfl
  · rwa [content?,lookup_put_ne hp]

lemma write_noneGone (h : s.write path text = .ok s') : NoneGone s s' := by
  obtain ⟨loc,-,rfl⟩ := map_ok h
  exact noneGone_put s loc _

lemma append_noneGone (h : s.append path text = .ok s') : NoneGone s s' := by
  obtain ⟨loc,-,rfl⟩ := map_ok h
  exact noneGone_put s loc _

lemma content_of_new (h : s.exists? path = false) (hp : s.locate path = .ok loc) : s.content? loc = none := by
  rw [exists?,Bool.or_eq_false_iff,isFile,hp] at h
  exact Option.not_isSome_iff_eq_none.mp (Bool.eq_false_iff.mp h.2)

lemma write_new {q : Place} {c : Content} (hn : s.exists? path = false) (h : s.write path text = .ok s')
    (hc : s.content? q = some c) : s'.content? q = some c := by
  obtain ⟨loc,hp,hch,-⟩ := write_ok h
  rw [hch.others q,hc]
  rintro rfl
  rw [content_of_new hn (target_ok hp).1] at hc
  cases hc

end Files.Store

namespace Job

open Element Docweave.Tree Files Store Act

def readingStages : List String := ["_lines","_comments"]

def dried (j : Job) : Job := { j with settings := { j.settings with dryRun := true } }

def altered (v : Settings → Settings) (j : Job) : Job := { j with settings := v j.settings }

def dry (s : Settings) : Settings := { s with dryRun := true }

structure Stagewise (v : Settings → Settings) (P : List String → (α : Type) → Act Job α → Prop) : Prop where
  pure : ∀ {α : Type} (x : α), P [] α (pure x)
  fail : ∀ {α : Type} (fault : Fault), P [] α (fail fault)
  shelf : ∀ {α : Type} (f : Store → Act Shelf α), P [] α (withShelf f)
  get : ∀ {α : Type} {f : Job → Act Job α} {stages : List String}, (∀ j : Job, f (j.altered v) = f j) →
    (∀ j, P stages α (f j)) → P stages α (get >>= f)
  bind : ∀ {α β : Type} {a : Act Job α} {f : α → Act Job β} {first rest stages : List String}, P first α a →
    (∀ x, P rest β (f x)) → stages = first ++ rest → P stages β (a >>= f)

namespace Stagewise

variable {v : Settings → Settings} {P : List String → (α : Type) → Act Job α →
  Prop} {α β : Type} {path : Path.Simple} {name src : String}

section

variable (hP : Stagewise v P)

include hP

lemma ofExcept (a : Except Fault α) : P [] α (Act.ofExcept a) := by
  cases a with
  | error err => exact hP.fail err
  | ok x => exact hP.pure x

lemma mapM {f : α → Act Job β} (hf : ∀ x, P [] β (f x)) (xs : List α) :
    P [] (List β) (xs.mapM f) := by
  induction xs with
  | nil => exact hP.pure []
  | cons x xs ih =>
    rw [List.mapM_cons]
    exact hP.bind (hf x) (fun _ => hP.bind ih (fun _ => hP.pure _) rfl) rfl

lemma foldlM {f : β → α → Act Job β} (hf : ∀ y x, P [] β (f y x)) (xs : List α) (y : β) :
    P [] β (xs.foldlM f y) := by
  induction xs generalizing y with
  | nil => exact hP.pure y
  | cons x xs ih =>
    exact hP.bind (hf y x) ih rfl

lemma stage (hw : ∀ es, P [name] Unit (writeXml path name es))
    {f : Element → Act Job Element} (hf : ∀ e, P [] _ (f e))
    (es : List Element) : P [name] _ (stage path name f es) :=
  hP.bind (hP.mapM hf es) (fun _ => hP.bind (hw _) (fun _ => hP.pure _) rfl) rfl

lemma plainStage (hw : ∀ es, P [name] Unit (writeXml path name es))
    (f : Element → Except Fault Element) (es : List Element) : P [name] _ (plainStage path name f es) :=
  hP.stage hw (fun e => hP.ofExcept (f e)) es

lemma readComments (hw : ∀ stage ∈ readingStages, ∀ es, P [stage] Unit (writeXml path stage es)) :
    P readingStages _ (readComments path) := by
  refine hP.get (fun _ => rfl) fun _ => hP.bind (hP.ofExcept _) (fun _ => ?_) rfl
  exact hP.bind (hw _ (by decide) _) (fun _ => hP.plainStage (hw _ (by decide)) _ _) rfl

end

lemma renderStaged (hP : Stagewise dry P)
    (hw : ∀ stage ∈ stageNames, ∀ es, P [stage] Unit (writeXml (.of src) stage es)) :
    P stageNames _ (renderStaged src) := by
  have hr := hP.readComments fun stage hs => hw stage (List.mem_append_left _ hs)
  refine hP.get (fun _ => rfl) fun _ => hP.bind hr (fun _ => ?_) rfl
  refine hP.bind (hP.plainStage (hw _ (by decide)) _ _) (fun _ => ?_) rfl
  refine hP.bind (hP.stage (hw _ (by decide)) (fun _ => hP.shelf _) _) (fun _ => ?_) rfl
  refine hP.bind (hP.plainStage (hw _ (by decide)) _ _) (fun _ => ?_) rfl
  refine hP.bind (hP.plainStage (hw _ (by decide)) _ _) (fun _ => ?_) rfl
  refine hP.bind (hP.plainStage (hw _ (by decide)) _ _) (fun _ => ?_) rfl
  refine hP.bind (hP.mapM (fun _ => hP.ofExcept _) _) (fun _ => ?_) rfl
  exact hP.bind (hw _ (by decide) _) (fun _ => hP.pure _) rfl

end Stagewise

variable {f : Store → Except Fault Store} {r : Report} {R : Job → Job → Prop}

def StageAt (stages : List String) (store : Store) (source : String) (place : Place) : Prop :=
  ∃ stage ∈ stages, ∃ xml, xmlPath (.of source) stage = .ok xml ∧ store.locate xml.text = .ok place

def TargetAt (store : Store) (target : Option String) (place : Place) : Prop :=
  ∃ path ∈ target, store.locate path = .ok place

variable {stages : List String} {src : String} {tgt : Option String} {j j' : Job}

lemma not_targetAt_none (s : Store) (loc : Place) : ¬ TargetAt s none loc := by
  rintro ⟨_,hn,_⟩
  cases hn

lemma stageAt_iff (h : SameFolders j.store j'.store) {loc : Place} :
    StageAt stages j'.store src loc ↔ StageAt stages j.store src loc := by
  simp only [StageAt,h.locate_iff]

lemma targetAt_iff (h : SameFolders j.store j'.store) {loc : Place} :
    TargetAt j'.store tgt loc ↔ TargetAt j.store tgt loc := by
  simp only [TargetAt,h.locate_iff]

structure Touches (stages : List String) (source : String) (target : Option String) (j j' : Job) :
    Prop where
  settings : j'.settings = j.settings
  folders : SameFolders j.store j'.store
  reports : reports j' = reports j
  present : NoneGone j.store j'.store
  others : ∀ place, ¬ StageAt stages j.store source place → ¬ TargetAt j.store target place →
    j'.store.content? place = j.store.content? place
  scratch : j'.scratch = j.scratch

lemma touches_of_store (hst : j'.settings = j.settings) (hs : j'.store = j.store)
    (hr : reports j' = reports j) (hk : j'.scratch = j.scratch) : Touches stages src tgt j j' := by
  refine ⟨hst,?_,hr,?_,fun _ _ _ => by rw [hs],hk⟩
  · rw [hs]
    exact .refl _
  · rw [hs]
    exact fun _ h => h

instance : Frame (Touches stages src tgt) := by
  refine ⟨fun j => touches_of_store rfl rfl rfl rfl,fun {a b c} hab hbc => ?_⟩
  refine ⟨hbc.settings.trans hab.settings,hab.folders.trans hbc.folders,hbc.reports.trans hab.reports,
    fun q hq => hbc.present q (hab.present q hq),fun q hs ht => ?_,hbc.scratch.trans hab.scratch⟩
  rw [hbc.others q (mt (stageAt_iff hab.folders).mp hs) (mt (targetAt_iff hab.folders).mp ht)]
  exact hab.others q hs ht

lemma perform_changeStore {store : Store} (h : f j.store = .ok store) :
    (changeStore f).perform j = (.ok (),{ j with store }) := by
  rw [changeStore,ofStore,bind_assoc,perform_get_bind,h]
  rfl

lemma changeStore_cases {r : Except Fault Unit} (h : (changeStore f).perform j = (r,j')) :
    (∃ err, f j.store = .error err ∧ r = .error err ∧ j' = j) ∨
      ∃ store, f j.store = .ok store ∧ r = .ok () ∧ j' = { j with store } := by
  cases hf : f j.store with
  | error err =>
    have hr : (changeStore f).perform j = (.error err,j) := by
      rw [changeStore,ofStore,bind_assoc,perform_get_bind,hf]
      rfl
    cases hr.symm.trans h
    exact .inl ⟨err,rfl,rfl,rfl⟩
  | ok store =>
    cases (perform_changeStore hf).symm.trans h
    exact .inr ⟨store,rfl,rfl,rfl⟩

lemma changeStore_error {err : Fault} (h : (changeStore f).perform j = (.error err,j')) :
    f j.store = .error err ∧ j' = j := by
  rcases changeStore_cases h with ⟨_,hf,hr,rfl⟩ | ⟨_,_,hr,_⟩
  · exact ⟨Except.error.inj hr ▸ hf,rfl⟩
  · cases hr

lemma changeStore_keeps [Frame R] (h : ∀ j store, f j.store = .ok store → R j { j with store }) :
    (changeStore f).Keeps R := by
  intro j
  rcases hr : (changeStore f).perform j with ⟨r,j'⟩
  rcases changeStore_cases hr with ⟨err,-,-,rfl⟩ | ⟨store,hs,-,rfl⟩
  · exact Frame.refl _
  · exact h j store hs

lemma writeXml_keeps {stage : String} (hst : stage ∈ stages) (es : List Element) :
    (writeXml (.of src) stage es).Keeps (Touches stages src tgt) := by
  rw [writeXml_eq]
  refine keeps_ofExcept_bind fun xml hx => keeps_ofExcept_bind fun text _ => changeStore_keeps fun k fs hs => ?_
  obtain ⟨loc,hp,hc,-⟩ := write_ok hs
  refine ⟨rfl,hc.folders,rfl,write_noneGone hs,fun q hq _ => hc.others q ?_,rfl⟩
  rintro rfl
  exact hq ⟨stage,hst,xml,hx,(target_ok hp).1⟩

lemma withShelf_keeps {α : Type} (f : Store → Act Shelf α) : (withShelf f).Keeps (Touches stages src tgt) :=
  keeps_get.bind fun _ _ => touches_of_store rfl rfl rfl rfl

lemma stagewise_touches : Stagewise dry fun _ _ a => a.Keeps (Touches stages src tgt) :=
  ⟨keeps_pure,keeps_fail,withShelf_keeps,fun _ hf => keeps_get.bind hf,fun ha hf _ => ha.bind hf⟩

lemma readComments_keeps (h : readingStages ⊆ stages) :
    (readComments (.of src)).Keeps (Touches stages src tgt) :=
  stagewise_touches.readComments fun _ hs => writeXml_keeps (h hs)

lemma renderStaged_keeps : (renderStaged src).Keeps (Touches stageNames src tgt) :=
  stagewise_touches.renderStaged fun _ hs => writeXml_keeps hs

lemma addFragment_keeps (first last : Option Int) (texts : List String) :
    (addFragment tgt first last texts).Keeps (Touches stages src tgt) := by
  cases tgt with
  | none => exact keeps_pure _
  | some path =>
    refine keeps_get.bind fun job => ?_
    split
    · exact keeps_pure _
    refine (changeStore_keeps fun k fs hs => ?_).bind fun _ => keeps_pure _
    obtain ⟨loc,hp,hc,-⟩ := append_ok hs
    refine ⟨rfl,hc.folders,rfl,append_noneGone hs,fun q _ hq => hc.others q ?_,rfl⟩
    rintro rfl
    exact hq ⟨path,rfl,(target_ok hp).1⟩

def OnJob (R : Job → Job → Prop) (s s' : Job × String) : Prop := R s.1 s'.1

instance [Frame R] : Frame (OnJob R) := ⟨fun s => Frame.refl s.1,Frame.trans (R := R)⟩

def addTo (target : Option String) (x : Extracted) : Act (Job × String) String :=
  let add : Act Job String := do
    match x.text with
    | some text => addFragment target (some x.first) (some x.last) [text]
    | none => Act.fail (.missing "text")
  add.within Prod.fst fun j s => (j,s.2)

def writeText (text : String) : Act (Job × String) Unit := modify fun s => (s.1,s.2 ++ text)

def settle (run : Except Fault Unit × Job × String) : Act Job Sheet := do
  set run.2.1
  Act.ofExcept run.1
  return { text := run.2.2 }

def extractElements (target reference : Option String) (es : List Element) : Act Job Sheet := do
  let job ← get
  settle ((extractEach (addTo target) writeText job.settings.dryRun reference es).perform (job,""))

lemma extractStaged_eq (src : String) (tgt ref : Option String) : extractStaged src tgt ref =
      readComments (.of src) >>= extractElements tgt ref := rfl

lemma perform_settle (run : Except Fault Unit × Job × String) (j : Job) :
    (settle run).perform j = (run.1.map fun _ => { text := run.2.2 }, run.2.1) := by
  obtain ⟨res,job,text⟩ := run
  cases res <;> rfl

lemma extractEach_keeps [Frame R] {add : Extracted → Act (Job × String) String}
    {write : String → Act (Job × String) Unit} (ha : ∀ x, (add x).Keeps (OnJob R))
    (hw : ∀ text, (write text).Keeps (OnJob R)) (dryRun : Bool) (path : Option String)
    (es : List Element) : (extractEach add write dryRun path es).Keeps (OnJob R) := by
  induction es generalizing path with
  | nil => exact keeps_pure _
  | cons e es ih =>
    refine (keeps_ofExcept _).bind fun x => ?_
    cases x with
    | none =>
      dsimp only
      split
      · exact (hw _).bind fun _ => ih path
      · exact keeps_fail _
    | some x =>
      refine (ha x).bind fun name => ?_
      cases dryRun with
      | true => exact ih (some "")
      | false =>
        exact (keeps_ofExcept _).bind fun text => (hw text).bind fun _ => ih (some "")

lemma addTo_keeps (x : Extracted) : (addTo tgt x).Keeps (OnJob (Touches stages src tgt)) := by
  intro s
  obtain ⟨first,last,text⟩ := x
  cases text with
  | none => exact touches_of_store rfl rfl rfl rfl
  | some text => exact addFragment_keeps _ _ _ s.1

lemma extractElements_keeps (ref : Option String) (es : List Element) :
    (extractElements tgt ref es).Keeps (Touches stages src tgt) := by
  have hw (text : String) : (writeText text).Keeps (OnJob (Touches stages src tgt)) :=
    fun s => Frame.refl s.1
  intro j
  rw [extractElements,perform_get_bind,perform_settle]
  exact extractEach_keeps addTo_keeps hw _ ref es (j,"")

lemma extractStaged_keeps (ref : Option String) (h : readingStages ⊆ stages) :
    (extractStaged src tgt ref).Keeps (Touches stages src tgt) :=
  (readComments_keeps h).bind (extractElements_keeps ref)

lemma print_keeps (text : String) : (print text).Keeps (Touches stages src tgt) := by
  rw [print]
  split
  · exact keeps_pure _
  · exact keeps_modify fun j => touches_of_store rfl rfl (by simp [reports]) rfl

lemma injectPiece_keeps (path : String) (s : Sheet) (p : Comment.Piece) :
    (injectPiece path s p).Keeps (Touches stages src tgt) := by
  cases p with
  | code line => exact keeps_pure _
  | block b =>
    have hr : (readBlock path b).Keeps (Touches stages src tgt) :=
      ((withShelf_keeps _).tryCatch fun _ => keeps_fail _).bind fun _ => keeps_pure _
    exact hr.bind fun _ => keeps_get.bind fun _ => (print_keeps _).bind fun _ =>
      (keeps_ofExcept _).bind fun _ => keeps_pure _

lemma injectAdHoc_keeps (path : String) : (injectAdHoc path).Keeps (Touches stages src tgt) := by
  refine (keeps_get.bind fun _ => keeps_pure _).bind fun stream => ?_
  refine (stagewise_touches.foldlM (injectPiece_keeps path) _ {}).bind fun sheet => ?_
  split
  · exact keeps_fail _
  · exact keeps_pure _

lemma extractPieces_keeps (path : Option String) (pieces : List Comment.Piece) :
    (extractPieces tgt path pieces).Keeps (Touches stages src tgt) := by
  induction pieces generalizing path with
  | nil => exact keeps_pure _
  | cons p pieces ih =>
    cases p with
    | code line => exact (ih path).bind fun _ => keeps_pure _
    | block b =>
      refine (keeps_ofExcept _).bind fun numbers => ?_
      refine (addFragment_keeps _ _ _).bind fun name => keeps_get.bind fun job => ?_
      have hr (text : String) : (do
          return text ++ (← extractPieces tgt (some "") pieces) :
            Act Job String).Keeps (Touches stages src tgt) :=
        (ih (some "")).bind fun _ => keeps_pure _
      split
      · exact hr ""
      · cases path with
        | none => exact keeps_fail _
        | some path => exact (keeps_ofExcept _).bind hr

lemma extractAdHoc_keeps (path : String) (ref : Option String) :
    (extractAdHoc path tgt ref).Keeps (Touches stages src tgt) := by
  refine (keeps_get.bind fun _ => keeps_pure _).bind fun stream => ?_
  refine (extractPieces_keeps ref stream.items).bind fun text => ?_
  split
  · exact keeps_fail _
  · exact keeps_pure _

def stagesFor (adHoc extract : Bool) : List String :=
  if adHoc then [] else if extract then readingStages else stageNames

lemma writeSource_touches {ref : Option String} {res : Except Fault Sheet}
    (h : (writeSource r ref).perform j = (res,j')) :
    Touches (stagesFor j.settings.adHoc r.extract) r.path (r.extractPath.getD none) j j' := by
  rw [writeSource,perform_get_bind] at h
  dsimp only at h
  have hs : (modify fun j : Job => { j with shelf := some (j.shelf.getD {}) } : Act Job Unit).Keeps
      (Touches (stagesFor j.settings.adHoc r.extract) r.path (r.extractPath.getD none)) :=
    fun _ => touches_of_store rfl rfl rfl rfl
  cases he : r.extract with
  | true =>
    cases hm : j.settings.adHoc with
    | true =>
      rw [he,hm] at h
      exact (extractAdHoc_keeps _ _).of_perform h
    | false =>
      rw [he,hm] at h
      exact (extractStaged_keeps _ (List.Subset.refl _)).of_perform h
  | false =>
    cases hm : j.settings.adHoc with
    | true =>
      rw [he,hm] at h hs
      exact (hs.bind fun _ => injectAdHoc_keeps _).of_perform h
    | false =>
      rw [he,hm] at h hs
      exact (hs.bind fun _ => renderStaged_keeps.bind fun _ => keeps_pure _).of_perform h

def madeFolders (folder : Option String) (target : String) (store : Store) : Except Fault Store :=
  if folder.isSome then store.makeFolders (store.absolute (Path.join target "..")) else .ok store

structure Aims (r : Report) (j : Job) (target : String) : Prop where
  wet : j.settings.dryRun = false
  extract : r.extract = true
  path : extractPath j.store j.settings.extractFolder r.path = .ok target

lemma Aims.unique {tgt tgt' : String} (h : Aims r j tgt) (h' : Aims r j tgt') : tgt' = tgt :=
  Except.ok.inj (h'.path.symm.trans h.path)

inductive Opens (r : Report) (j : Job) (target : String) :
    Except Fault (Report × Option String) → Job → Prop
  | noFolder {fault : Fault}
      (hdirs : madeFolders j.settings.extractFolder target j.store = .error fault) :
      Opens r j target (.error fault) j
  | taken {store : Store}
      (hdirs : madeFolders j.settings.extractFolder target j.store = .ok store)
      (htaken : store.exists? target = true) :
      Opens r j target
        (.error (.extractExists { r with extractPath := some (some target) }.datum.quoted)) { j with store }
  | unwritable {store : Store} {fault : Fault}
      (hdirs : madeFolders j.settings.extractFolder target j.store = .ok store)
      (hnew : store.exists? target = false)
      (hwrite : store.write target (extractHeader { r with extractPath := some (some target) }) =
        .error fault) :
      Opens r j target (.error fault) { j with store }
  | made {store store' : Store} {result : Except Fault (Report × Option String)}
      (hdirs : madeFolders j.settings.extractFolder target j.store = .ok store)
      (hnew : store.exists? target = false)
      (hwrite : store.write target (extractHeader { r with extractPath := some (some target) }) =
        .ok store')
      (hresl : result = (referencePath store' j.settings.extractFolder r.path target).map fun path =>
        ({ r with extractPath := some (some target) },some path)) :
      Opens r j target result { j with store := store' }

inductive Starts (r : Report) (j : Job) : Except Fault (Report × Option String) → Job → Prop
  | off (hoff : j.settings.dryRun = true ∨ r.extract = false) :
      Starts r j (.ok ({ r with extractPath := some none },none)) j
  | nowhere {fault : Fault} (hdry : j.settings.dryRun = false)
      (hpath : extractPath j.store j.settings.extractFolder r.path = .error fault) :
      Starts r j (.error fault) j
  | opens {target : String} {result : Except Fault (Report × Option String)} {j' : Job}
      (haims : Aims r j target) (hopens : Opens r j target result j') : Starts r j result j'

lemma ofStore_cases {α : Type} {f : Store → Except Fault α} {res : Except Fault α}
    (h : (ofStore f).perform j = (res,j')) : res = f j.store ∧ j' = j := by
  have hr : (ofStore f).perform j = (f j.store,j) := by
    rw [ofStore,perform_get_bind]
    cases f j.store <;> rfl
  exact Prod.mk.inj (h.symm.trans hr)

lemma writeNew_cases {α : Type} {path text : String} {err : Fault} {next : Act Job α}
    {res : Except Fault α}
    (h : (do
      if (← get).store.exists? path then Act.fail err
      changeStore (·.write path text)
      next : Act Job α).perform j = (res,j')) :
    (j.store.exists? path ∧ res = .error err ∧ j' = j) ∨ j.store.exists? path = false ∧
        ((∃ err, j.store.write path text = .error err ∧ res = .error err ∧ j' = j) ∨
          ∃ store, j.store.write path text = .ok store ∧ next.perform { j with store } = (res,j')) := by
  rw [perform_get_bind] at h
  cases he : j.store.exists? path with
  | true =>
    rw [he] at h
    cases h
    exact .inl ⟨rfl,rfl,rfl⟩
  | false =>
    rw [he] at h
    refine .inr ⟨rfl,?_⟩
    rcases bind_cases h with ⟨err,hfl,rfl⟩ | ⟨_,j1,hw,hn⟩
    · obtain ⟨hf,rfl⟩ := changeStore_error hfl
      exact .inl ⟨err,hf,rfl,rfl⟩
    · obtain ⟨store,hs,rfl⟩ := changeStore_ok hw
      exact .inr ⟨store,hs,hn⟩

lemma startExtract_starts {res : Except Fault (Report × Option String)}
    (h : (startExtract r).perform j = (res,j')) : Starts r j res j' := by
  rw [startExtract,perform_get_bind] at h
  by_cases ho : (j.settings.dryRun || !r.extract) = true
  · rw [if_pos ho] at h
    cases h
    exact .off (by simpa using ho)
  rw [if_neg ho] at h
  simp only [Bool.or_eq_true,Bool.not_eq_true',not_or,Bool.not_eq_true,Bool.not_eq_false] at ho
  obtain ⟨hdy,he⟩ := ho
  rcases bind_cases h with ⟨err,hf,rfl⟩ | ⟨tgt,j1,htg,hrs⟩
  · obtain ⟨hp,rfl⟩ := ofStore_cases hf
    exact .nowhere hdy hp.symm
  obtain ⟨hp,rfl⟩ := ofStore_cases htg
  refine .opens ⟨hdy,he,hp.symm⟩ ?_
  -- The folders are made in a step of their own, or there are none to make.
  have hen {store : Store} (hd : madeFolders j1.settings.extractFolder tgt j1.store = .ok store)
      (hl : (do
        if (← get).store.exists? tgt then
          Act.fail (.extractExists { r with extractPath := some (some tgt) }.datum.quoted)
        changeStore (·.write tgt (extractHeader { r with extractPath := some (some tgt) }))
        return ({ r with extractPath := some (some tgt) },
          some (← ofStore (referencePath · j1.settings.extractFolder r.path tgt))) :
            Act Job (Report × Option String)).perform { j1 with store } = (res,j')) :
      Opens r j1 tgt res j' := by
    rcases writeNew_cases hl with ⟨ht,rfl,rfl⟩ |
      ⟨hn,⟨err,hw,rfl,rfl⟩ | ⟨store',hw,hr⟩⟩
    · exact .taken hd ht
    · exact .unwritable hd hn hw
    rcases bind_cases hr with ⟨err,hf,rfl⟩ | ⟨path,j2,hok,hpr⟩
    · obtain ⟨hfl,rfl⟩ := ofStore_cases hf
      exact .made hd hn hw (by rw [← hfl]; rfl)
    · obtain ⟨hok',rfl⟩ := ofStore_cases hok
      cases hpr
      exact .made hd hn hw (by rw [← hok']; rfl)
  split at hrs
  · rename_i hdr
    have hm : madeFolders j1.settings.extractFolder tgt j1.store =
        j1.store.makeFolders (j1.store.absolute (Path.join tgt "..")) := if_pos hdr
    rcases bind_cases hrs with ⟨err,hf,rfl⟩ | ⟨_,j2,hd,hl⟩
    · obtain ⟨hfl,rfl⟩ := changeStore_error hf
      exact .noFolder (hm.trans hfl)
    · obtain ⟨store,hs,rfl⟩ := changeStore_ok hd
      exact hen (hm.trans hs) hl
  · rename_i hdr
    exact hen (if_neg hdr) hrs

lemma madeFolders_more {folder : Option String} {tgt : String} {s s' : Store}
    (h : madeFolders folder tgt s = .ok s') : MoreFolders s s' := by
  rw [madeFolders] at h
  split at h
  · exact moreFolders_makeFolders h
  · cases h
    exact .refl s

section

variable {r started : Report} {res : Except Fault (Report × Option String)}
  {ref : Option String} {tgt path : String} {loc : Place} {c : Content}

lemma made_ok {made : Except Fault String} (h : .ok (started,ref) =
      made.map fun path => ({ r with extractPath := some (some tgt) },some path)) :
    ∃ path, made = .ok path ∧ started = { r with extractPath := some (some tgt) } ∧ ref = some path := by
  cases made with
  | error err => cases h
  | ok path =>
    obtain ⟨hs,hp⟩ := Prod.mk.inj (Except.ok.inj h)
    exact ⟨path,rfl,hs,hp⟩

lemma Opens.settings (h : Opens r j tgt res j') : j'.settings = j.settings := by
  cases h <;> rfl

lemma Opens.kept (h : Opens r j tgt res j') (hc : j.store.content? loc = some c) :
    j'.store.content? loc = some c := by
  cases h with
  | noFolder => exact hc
  | taken hd | unwritable hd => rwa [content?,(madeFolders_more hd).files]
  | made hd hn hw =>
    refine write_new hn hw ?_
    rwa [content?,(madeFolders_more hd).files]

lemma Opens.holds (h : Opens r j tgt res j') (hc : Holds j.store path loc c) : Holds j'.store path loc c := by
  have hk := h.kept hc.content
  cases h with
  | noFolder => exact hc
  | taken hd | unwritable hd => exact (madeFolders_more hd).holds hc
  | made hd hn hw =>
    obtain ⟨_,_,hch,-⟩ := write_ok hw
    exact ⟨hch.folders.target ((madeFolders_more hd).holds hc).target,hk⟩

lemma Opens.refuses (h : Opens r j tgt res j')
    (hc : j.store.content? loc = some c) (hp : j'.store.locate tgt = .ok loc) :
    (∃ err, res = .error err) ∧ ∀ q, j'.store.content? q = j.store.content? q := by
  cases h with
  | noFolder => exact ⟨⟨_,rfl⟩,fun _ => rfl⟩
  | taken hd | unwritable hd =>
    exact ⟨⟨_,rfl⟩,fun q => by rw [content?,(madeFolders_more hd).files,content?]⟩
  | made hd hnw hw =>
    obtain ⟨_,_,hch,-⟩ := write_ok hw
    have hn := content_of_new hnw (hch.folders.symm.locate hp)
    rw [content?,(madeFolders_more hd).files] at hn
    exact absurd (hc.symm.trans hn) (by simp)

namespace Starts

lemma same_source (h : Starts r j (.ok (started,ref)) j') : started.path = r.path ∧
    started.extract = r.extract := by
  cases h with
  | off => exact ⟨rfl,rfl⟩
  | opens _ ho =>
    cases ho with
    | made _ _ _ hr =>
      obtain ⟨_,-,rfl,-⟩ := made_ok hr
      exact ⟨rfl,rfl⟩

lemma settings (h : Starts r j res j') : j'.settings = j.settings := by
  cases h with
  | off | nowhere => rfl
  | opens _ ho => exact ho.settings

lemma holds (h : Starts r j res j') (hc : Holds j.store path loc c) : Holds j'.store path loc c := by
  cases h with
  | off | nowhere => exact hc
  | opens _ ho => exact ho.holds hc

lemma not_targetAt (h : Starts r j (.ok (started,ref)) j') (hc : j.store.content? loc = some c) :
    ¬ TargetAt j'.store (started.extractPath.getD none) loc := by
  cases h with
  | off => exact not_targetAt_none _ _
  | opens _ ho =>
    rintro ⟨_,ht,hp⟩
    have hr := ho.refuses hc
    cases ho with
    | made _ _ _ hm =>
      obtain ⟨_,-,rfl,-⟩ := made_ok hm
      cases ht
      obtain ⟨⟨_,⟨⟩⟩,-⟩ := hr hp

lemma aimed (h : Starts r j res j') (ha : Aims r j tgt) : Opens r j tgt res j' := by
  cases h with
  | off hof => simp [ha.wet,ha.extract] at hof
  | nowhere _ hno =>
    rw [ha.path] at hno
    cases hno
  | opens ha' ho => exact ha.unique ha' ▸ ho

end Starts

end

def Report.written (r : Report) (old : List String) (sheet : Sheet) : Report :=
  { r with
    lineTypes := some sheet.counts
    diffs := some (Diff.context 1 r.path "Edited by the Doctor." old (Content.text sheet.text).lines.items) }

inductive Overwrites (r : Report) (j : Job) : Except Fault Report → Job → Prop
  | unstarted {fault : Fault} {j1 : Job}
      (hstart : Starts { r with lineTypes := some [] } j (.error fault) j1) :
      Overwrites r j (.error fault) j1
  | unfinished {started : Report} {reference : Option String} {fault : Fault} {j1 j2 : Job}
      (hstart : Starts { r with lineTypes := some [] } j (.ok (started,reference)) j1)
      (hsheet : (writeSource started reference).perform (j1.scratched started.path) = (.error fault,j2)) :
      Overwrites r j (.error fault) j2
  | unwritten {started : Report} {reference : Option String} {sheet : Sheet} {fault : Fault}
      {j1 j2 : Job} (hstart : Starts { r with lineTypes := some [] } j (.ok (started,reference)) j1)
      (hsheet : (writeSource started reference).perform (j1.scratched started.path) = (.ok sheet,j2)) :
      Overwrites r j (.error fault) j2
  | discarded {started : Report} {reference : Option String} {sheet : Sheet} {old : List String}
      {j1 j2 : Job} (hstart : Starts { r with lineTypes := some [] } j (.ok (started,reference)) j1)
      (hsheet : (writeSource started reference).perform (j1.scratched started.path) = (.ok sheet,j2))
      (hold : (j2.store.lines started.path).toExcept = .ok old) (hdry : j2.settings.dryRun = true) :
      Overwrites r j (.ok (started.written old sheet)) j2.cleared
  | written {started : Report} {reference : Option String} {sheet : Sheet} {old : List String}
      {store : Store} {j1 j2 : Job}
      (hstart : Starts { r with lineTypes := some [] } j (.ok (started,reference)) j1)
      (hsheet : (writeSource started reference).perform (j1.scratched started.path) = (.ok sheet,j2))
      (hold : (j2.store.lines started.path).toExcept = .ok old) (hdry : j2.settings.dryRun = false)
      (hstore : j2.store.write started.path sheet.text = .ok store) :
      Overwrites r j (.ok (started.written old sheet)) { j2 with store }.cleared

def clearedAfter {α : Type} : Except Fault α → Job → Job
  | .ok _, j => j.cleared
  | .error _, j => j

lemma perform_withScratch {α : Type} {path : String} {a : Act Job α}
    {res : Except Fault α} {k : Job}
    (h : a.perform (j.scratched path) = (res,k)) :
    (withScratch path a).perform j = (res,clearedAfter res k) := by
  have hm : (modify (scratched path) : Act Job Unit).perform j = (.ok (),j.scratched path) := rfl
  rw [withScratch,perform_bind hm,perform_bind_eq,h]
  cases res <;> rfl

lemma withScratch_cases {α : Type} {path : String} {a : Act Job α} {res : Except Fault α}
    (h : (withScratch path a).perform j = (res,j')) :
    ∃ k, a.perform (j.scratched path) = (res,k) ∧ j' = clearedAfter res k := by
  rcases hk : a.perform (j.scratched path) with ⟨res',k⟩
  rw [perform_withScratch hk] at h
  cases h
  exact ⟨k,rfl,rfl⟩

lemma overwriteOne_overwrites {res : Except Fault Report} (h : (overwriteOne r).perform j = (res,j')) :
    Overwrites r j res j' := by
  rcases bind_cases h with ⟨err,hf,rfl⟩ | ⟨⟨started,ref⟩,j1,hst,hw⟩
  · exact .unstarted (startExtract_starts hf)
  have hs := startExtract_starts hst
  obtain ⟨k,hr,rfl⟩ := withScratch_cases hw
  rcases bind_cases hr with ⟨err,hf,rfl⟩ | ⟨sheet,j2,hsh,hr1⟩
  · exact .unfinished hs hf
  rw [perform_get_bind] at hr1
  rcases bind_cases hr1 with ⟨err,hf,rfl⟩ | ⟨old,j3,ho,hr2⟩
  · obtain ⟨-,rfl⟩ := ofExcept_error hf
    exact .unwritten hs hsh
  obtain ⟨ho',rfl⟩ := ofExcept_ok_iff.mp ho
  rw [perform_get_bind] at hr2
  cases hd : j3.settings.dryRun with
  | true =>
    rw [hd] at hr2
    cases hr2
    exact .discarded hs hsh ho' hd
  | false =>
    rw [hd] at hr2
    rcases bind_cases hr2 with ⟨err,hf,rfl⟩ | ⟨_,j4,hc,hl⟩
    · obtain ⟨-,rfl⟩ := changeStore_error hf
      exact .unwritten hs hsh
    · obtain ⟨fs,hsr,rfl⟩ := changeStore_ok hc
      cases hl
      exact .written hs hsh ho' hd hsr

lemma writes_of_ok {r' : Report} (hd : j.settings.dryRun = false)
    (h : (overwriteOne r).perform j = (.ok r',j')) :
    ∃ started ref sheet old store j1 j2, Starts { r with lineTypes := some [] } j
      (.ok (started,ref)) j1 ∧
      (writeSource started ref).perform (j1.scratched started.path) = (.ok sheet,j2) ∧
      (j2.store.lines started.path).toExcept = .ok old ∧ j2.store.write started.path sheet.text = .ok store ∧
      r' = started.written old sheet ∧ j' = { j2 with store }.cleared := by
  cases overwriteOne_overwrites h with
  | discarded hst hs _ hno =>
    rw [(writeSource_touches hs).settings] at hno
    cases (hno.symm.trans (congrArg Settings.dryRun hst.settings)).trans hd
  | written hst hs ho _ hsr => exact ⟨_,_,_,_,_,_,_,hst,hs,ho,hsr,rfl,rfl⟩

end Job

end Docweave
