import Docweave.Proofs.Jobs.Extraction

namespace Docweave

open List

namespace Path.Simple

lemma names_of_name {p : Simple} (h : p.name ≠ "") : p.names = p.names.dropLast ++ [p.name] := by
  cases hl : p.names.getLast? with
  | none =>
    rw [name,hl] at h
    exact absurd rfl h
  | some n =>
    rw [name,hl]
    exact (dropLast_append_getLast? n hl).symm

lemma name_eq_stem (p : Simple) : p.name = p.stem ∨ ∃ ext, p.name = p.stem ++ "." ++ ext := by
  rw [stem,cutName]
  split
  · exact .inl rfl
  rename_i hc
  simp only [Bool.or_eq_true,not_or,beq_iff_eq] at hc
  have hs := split_at_end (· != '.') p.name.toList
  rcases dropWhile_ends '.' p.name.toList with hn | ⟨pre,hp⟩
  · rw [hn,nil_append] at hs
    exact absurd (congrArg List.length hs.symm) hc.2
  rw [hp] at hs
  generalize (p.name.toList.reverse.takeWhile (· != '.')).reverse = ext at hs
  have ht : p.name.toList.take (p.name.toList.length - ext.length - 1) = pre := by
    have hl : p.name.toList.length - ext.length - 1 = pre.length := by
      rw [hs,length_append,length_append,length_singleton]
      omega
    rw [hl,hs,append_assoc,take_left]
  refine .inr ⟨String.ofList ext,String.toList_inj.mp ?_⟩
  rw [ht]
  simpa using hs

end Path.Simple

namespace Job

open Element Docweave.Tree Files Store Act

variable {src stage : String} {loc : Place} {s : Store}

lemma xmlPath_names {p xml : Path.Simple} (h : xmlPath p stage = .ok xml) :
    p.name ≠ "" ∧ xml.root = p.root ∧ xml.names = p.names.dropLast ++ [p.stem ++ stage ++ ".xml"] ∧
      '/' ∉ (p.stem ++ stage ++ ".xml").toList := by
  obtain ⟨first,hf,hsc⟩ := bind_ok h
  obtain ⟨hr,hn,hst,hsf⟩ := Path.Simple.withSuffix_xml hf
  obtain ⟨hr',hn',hs⟩ := Path.Simple.withName_ok hsc
  rw [hst,hsf] at hn' hs
  rw [hn,dropLast_concat] at hn'
  refine ⟨fun he => ?_,hr'.trans hr,hn',hs⟩
  rw [Path.Simple.withSuffix,he] at hf
  cases hf

lemma locate_xmlPath {xml : Path.Simple} (h : xmlPath (.of src) stage = .ok xml) :
    s.locate xml.text = s.follow (s.startOf (.of src))
      ((Path.Simple.of src).names.dropLast ++ [(Path.Simple.of src).stem ++ stage ++ ".xml"]) := by
  obtain ⟨-,hr,hnm,hs⟩ := xmlPath_names h
  have hst : s.startOf (.of src) = s.startOf xml := by rw [startOf,startOf,hr]
  have ha : ∀ n ∈ xml.names, n ≠ "" ∧ '/' ∉ n.toList := by
    rw [hnm]
    intro n hn
    rcases mem_append.mp hn with hm | hm
    · obtain ⟨hf,-,hno⟩ := simple_names src n (mem_of_mem_dropLast hm)
      exact ⟨hf,hno⟩
    · obtain rfl := mem_singleton.mp hm
      refine ⟨fun he => ?_,hs⟩
      rw [String.append_eq_empty_iff] at he
      exact absurd he.2 (by decide)
  have hb : xml.root = "" ∨ Path.IsRoot xml.root := hr ▸ Path.root_of src
  rw [hst,← hnm]
  exact locate_text hb (by simp [hnm]) (fun n hn => (ha n hn).1) fun n hn => (ha n hn).2

lemma follow_one {q : Place} {c : String} (hf : c ≠ "") (hh : c ≠ ".")
    (h : s.follow q [c] = .ok loc) : c = ".." ∧ loc = q.dropLast ∨ c ≠ ".." ∧ loc = q ++ [c] := by
  rw [follow] at h
  split at h
  · cases h
  · rw [if_neg (not_or.mpr ⟨hf,hh⟩)] at h
    split at h
    · exact .inl ⟨‹_›,(Except.ok.inj h).symm⟩
    · exact .inr ⟨‹_›,(Except.ok.inj h).symm⟩

lemma stage_ne_name (p : Path.Simple) (hs : stage ∈ stageNames) : p.stem ++ stage ++ ".xml" ≠ p.name := by
  intro hn
  have hld : ∃ rest, stage.toList = '_' :: rest := by
    have ha : ∀ stage ∈ stageNames, stage.toList.head? = some '_' := by decide
    exact head?_eq_some_iff.mp (ha stage hs)
  obtain ⟨rest,hr⟩ := hld
  rcases p.name_eq_stem with hst | ⟨ext,he⟩
  · have hln := congrArg String.length (hn.trans hst)
    rw [String.length_append,String.length_append] at hln
    have hf : ".xml".length = 4 := by decide
    omega
  · have hl := congrArg String.toList (hn.trans he)
    simp only [String.toList_append,append_assoc,append_cancel_left_eq,hr] at hl
    exact absurd (cons.inj hl).1 (by decide)

lemma not_stageAt_source (h : s.locate src = .ok loc) : ¬ StageAt stageNames s src loc := by
  rintro ⟨stage,hst,xml,hx,hp⟩
  obtain ⟨hn,-⟩ := xmlPath_names hx
  obtain ⟨-,hf⟩ := follow_of_locate h
  rw [Path.Simple.names_of_name hn,follow_append] at hf
  rw [locate_xmlPath hx,follow_append] at hp
  cases hd : s.follow (s.startOf (.of src)) (Path.Simple.of src).names.dropLast with
  | error dead =>
    rw [hd] at hp
    cases hp
  | ok q =>
    rw [hd] at hp hf
    have hm : (Path.Simple.of src).name ∈ (Path.Simple.of src).names := by
      rw [Path.Simple.names_of_name hn]
      exact mem_append_right _ (mem_singleton_self _)
    obtain ⟨hfl,hh,-⟩ := simple_names src _ hm
    have hl {short : String} (hsh : short.length < 4) :
      (Path.Simple.of src).stem ++ stage ++ ".xml" ≠ short := by
      rintro rfl
      rw [String.length_append] at hsh
      have hfr : ".xml".length = 4 := by decide
      omega
    rcases follow_one (hl (by decide)) (hl (by decide)) hp with ⟨hup,-⟩ | ⟨-,rfl⟩
    · exact hl (by decide) hup
    rcases follow_one hfl hh hf with ⟨-,hs⟩ | ⟨-,hs⟩
    · have hln := congrArg List.length hs
      rw [length_append,length_dropLast,length_singleton] at hln
      omega
    · exact stage_ne_name _ hst (singleton_inj.mp (append_cancel_left hs))

section

variable {r : Report} {j j' : Job} {err fault : Fault} {target : String} {c : Content}

lemma Overwrites.before_fault (h : Overwrites r j (.error err) j') :
    Starts { r with lineTypes := some [] } j (.error err) j' ∨
      ∃ started ref j1, Starts { r with lineTypes := some [] } j (.ok (started,ref)) j1 ∧
        Touches (stagesFor j.settings.adHoc r.extract) r.path (started.extractPath.getD none)
          (j1.scratched started.path) j' := by
  cases h with
  | unstarted hs => exact .inl hs
  | unfinished hs hsh | unwritten hs hsh =>
    obtain ⟨hp,he⟩ := hs.same_source
    have ht := writeSource_touches hsh
    rw [show (scratched _ _).settings = j.settings from hs.settings,he] at ht
    exact .inr ⟨_,_,_,hs,hp ▸ ht⟩

lemma Overwrites.holds_of_fault {path : String} (h : Overwrites r j (.error err) j')
    (hc : Holds j.store path loc c)
  (hp : ¬ StageAt (stagesFor j.settings.adHoc r.extract) j'.store r.path loc) :
  Holds j'.store path loc c := by
  rcases h.before_fault with hs | ⟨started,ref,j1,hs,ht⟩
  · exact hs.holds hc
  · refine (hs.holds hc).same ht.folders (ht.others loc ?_ ?_)
    · rwa [← stageAt_iff ht.folders]
    · exact hs.not_targetAt hc.content

lemma Overwrites.locate_of_fault {path : String} (h : Overwrites r j (.error err) j')
    (hc : Holds j.store path loc c) : j'.store.locate path = .ok loc := by
  rcases h.before_fault with hs | ⟨started,ref,j1,hs,ht⟩
  · exact (target_ok (hs.holds hc).target).1
  · exact ht.folders.locate (target_ok (hs.holds hc).target).1

lemma stagesFor_subset (adHoc extract : Bool) : stagesFor adHoc extract ⊆ stageNames := by
  cases adHoc <;> cases extract <;> decide

lemma StageAt.mono {stages stages' : List String} (hs : stages ⊆ stages')
    (h : StageAt stages s src loc) : StageAt stages' s src loc := by
  obtain ⟨stage,hst,hx⟩ := h
  exact ⟨stage,hs hst,hx⟩

theorem failed_source_keeps_files (h : (overwriteOne r).perform j = (.error fault, j')) :
    (∀ path place c, Holds j.store path place c →
      ¬ StageAt (stagesFor j.settings.adHoc r.extract) j'.store r.path place →
      Holds j'.store path place c) ∧
    (∀ place, j'.store.locate r.path = .ok place → ¬ StageAt stageNames j'.store r.path place) ∧
    (∀ c, j.store.read r.path = .ok c → j'.store.read r.path = .ok c) ∧
    (r.extract = true → j.settings.dryRun = false → ∀ target place c,
      extractPath j.store j.settings.extractFolder r.path = .ok target →
      Holds j.store r.path place c → j'.store.locate target = .ok place →
      ∀ q, j'.store.content? q = j.store.content? q) := by
  have hover := overwriteOne_overwrites h
  refine ⟨fun path place c hc hplace => hover.holds_of_fault hc hplace,
    fun place => not_stageAt_source, fun c hread => ?_, ?_⟩
  · obtain ⟨place, hc⟩ := read_iff_holds.mp hread
    refine (hover.holds_of_fault hc fun hstage => ?_).read
    exact not_stageAt_source (hover.locate_of_fault hc) (hstage.mono (stagesFor_subset _ _))
  · intro hextract hdry target place c hpath hc hplace
    have haims : Aims { r with lineTypes := some [] } j target := ⟨hdry, hextract, hpath⟩
    rcases hover.before_fault with hstart | ⟨started, reference, j₁, hstart, htouches⟩
    · exact ((hstart.aimed haims).refuses hc.content hplace).2
    · have hplace' := htouches.folders.symm.locate hplace
      obtain ⟨⟨_, hno⟩, -⟩ := (hstart.aimed haims).refuses hc.content hplace'
      cases hno

end

section

variable {r : Report} {j j' : Job} {err fault : Fault} {target tgt path : String} {s' : Store}

lemma exists_iff : s.exists? path ↔ ∃ loc, s.locate path = .ok loc ∧
    (s.isFolderAt loc ∨ (s.content? loc).isSome) := by
  rw [exists?,isFolder,isFile]
  cases s.locate path with
  | error dead => simp
  | ok loc => simp

lemma exists_of_write {text : String} (h : s.write path text = .ok s') : s'.exists? path := by
  obtain ⟨loc,hp,hc,hcn⟩ := write_ok h
  exact exists_iff.mpr ⟨loc,hc.folders.locate (target_ok hp).1,.inr (by simp [hcn])⟩

namespace Opens

variable {res : Except Fault (Report × Option String)}

lemma folders (h : Opens r j tgt res j') : ((∃ err, res = .error err) ∧ j' = j) ∨
    ∃ fs, madeFolders j.settings.extractFolder tgt j.store = .ok fs ∧ SameFolders fs j'.store := by
  cases h with
  | noFolder => exact .inl ⟨⟨_,rfl⟩,rfl⟩
  | taken hd | unwritable hd => exact .inr ⟨_,hd,.refl _⟩
  | made hd _ hw =>
    obtain ⟨_,_,hc,-⟩ := write_ok hw
    exact .inr ⟨_,hd,hc.folders⟩

lemma again (h : Opens r j tgt res j') (hd : madeFolders j.settings.extractFolder tgt j.store = .ok j.store) :
    (j.store.exists? tgt → j' = j ∧
      res = .error (.extractExists { r with extractPath := some (some tgt) }.datum.quoted)) ∧
    ∀ err, j.store.exists? tgt = false →
      j.store.write tgt (extractHeader { r with extractPath := some (some tgt) }) = .error err →
      res = .error err ∧ j' = j := by
  cases h with
  | noFolder hno =>
    rw [hd] at hno
    cases hno
  | taken hd' he =>
    cases hd.symm.trans hd'
    exact ⟨fun _ => ⟨rfl,rfl⟩,fun _ hm => absurd (hm.symm.trans he) (by decide)⟩
  | unwritable hd' hm hw =>
    cases hd.symm.trans hd'
    refine ⟨fun he => absurd (hm.symm.trans he) (by decide),fun err _ hf => ?_⟩
    exact ⟨by rw [Except.error.inj (hw.symm.trans hf)],rfl⟩
  | made hd' hm hw =>
    cases hd.symm.trans hd'
    refine ⟨fun he => absurd (hm.symm.trans he) (by decide),fun err _ hf => ?_⟩
    cases hw.symm.trans hf

lemma missing (h : Opens r j tgt (.error err) j') (hm : j'.store.exists? tgt = false) :
    j' = j ∨ j'.store.write tgt (extractHeader { r with extractPath := some (some tgt) }) = .error err := by
  cases h with
  | noFolder => exact .inl rfl
  | taken _ he => exact absurd (hm.symm.trans he) (by decide)
  | unwritable _ _ hw => exact .inr hw
  | made _ _ hw => exact absurd (hm.symm.trans (exists_of_write hw)) (by decide)

end Opens

end

def openText : String := "/** a\n"

lemma openText_fails : ((overwriteOne extractReport).perform (extractJob openText)).1.toOption.isNone := by
  decide +kernel

lemma openText_fault : ∃ err j', (overwriteOne extractReport).perform (extractJob openText) =
    (.error err,j') := by
  have hf := openText_fails
  generalize hr : (overwriteOne extractReport).perform (extractJob openText) = run at hf
  obtain ⟨res,j'⟩ := run
  cases res with
  | error err => exact ⟨err,j',rfl⟩
  | ok r => cases hf

theorem failed_source_keeps_files_at_open_comment : ∃ fault j',
    (overwriteOne extractReport).perform (extractJob openText) = (.error fault, j') ∧
      j'.store.read "d/a.h" = .ok (.text openText) := by
  obtain ⟨fault, j', hrun⟩ := openText_fault
  obtain ⟨-, -, hsource, -⟩ := failed_source_keeps_files hrun
  exact ⟨fault, j', hrun, hsource _ (extractJob_read openText)⟩

end Job

end Docweave
