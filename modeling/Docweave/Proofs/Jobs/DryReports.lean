import Docweave.Proofs.Base.Differences
import Docweave.Proofs.Jobs.DryRuns
import Docweave.Proofs.Jobs.Failures

namespace Docweave

open List
open String (ofList toList_ofList join join_cons empty_append)

namespace Files.Content

open Text Comment

lemma exists_whole (cs : List Char) : ∃ front rest, cs = front ++ rest ∧
    fileLinesFrom [] front = wholeLines cs := by
  induction hn : cs.length using Nat.strong_induction_on generalizing cs with
  | _ n ih =>
    by_cases hf : '\n' ∈ cs
    · obtain ⟨l,later,rfl,hl⟩ := eq_append_cons_of_mem hf
      obtain ⟨front,rest,rfl,hfr⟩ := ih later.length (by simp at hn; omega) later rfl
      refine ⟨l ++ '\n' :: front,rest,by simp,?_⟩
      have hln (later : List Char) : wholeLines (l ++ '\n' :: later) = (l ++ ['\n']) :: wholeLines later := by
        rw [wholeLines,fileLinesFrom_line hl,filter_cons_of_pos (by simp)]
        rfl
      rw [fileLinesFrom_line hl,hfr,hln]
      rfl
    refine ⟨[],cs,rfl,?_⟩
    cases cs with
    | nil => rfl
    | cons c cs =>
      rw [wholeLines,fileLinesFrom_last hf _ (.inr (cons_ne_nil _ _)),filter_cons_of_neg ?_]
      · rfl
      · intro hls
        exact hf (mem_of_getLast? (by simpa using hls))

lemma exists_text {c : Content} (h : c.lines.fault = none) : ∃ text, c.lines = (Content.text text).lines := by
  cases c with
  | text s => exact ⟨s,rfl⟩
  | bytes bs =>
    rw [lines] at h ⊢
    dsimp only at h ⊢
    generalize (if (Utf8.decode bs).chars.getLast? = some '\r' then (Utf8.decode bs).chars.dropLast
      else (Utf8.decode bs).chars) = chars
    obtain ⟨front,rest,hs,hf⟩ := exists_whole (normalizeNewlines chars)
    have hr : '\r' ∉ front := by
      intro hm
      refine no_return_normalized chars ?_
      rw [hs]
      exact mem_append_left _ hm
    refine ⟨ofList front,?_⟩
    rw [lines,toList_ofList,normalizeNewlines_of_no_return hr,fileLines,toList_ofList,hf,h]

end Files.Content

namespace Job

open Element Docweave.Tree Files Store Act Comment

variable {α β : Type}

def Blind (v : Settings → Settings) (a : Act Job α) : Prop :=
  ∀ j, a.perform (j.altered v) = ((a.perform j).1,(a.perform j).2.altered v)

section

variable {v : Settings → Settings}

lemma Blind.of_perform {a : Act Job α} (h : Blind v a) {j j' : Job} {res : Except Fault α}
    (hr : a.perform j = (res,j')) : a.perform (j.altered v) = (res,j'.altered v) := by
  rw [h j,hr]

lemma blind_pure (x : α) : Blind v (pure x : Act Job α) := fun _ => rfl

lemma blind_fail (err : Fault) : Blind v (fail err : Act Job α) := fun _ => rfl

lemma blind_ofExcept (a : Except Fault α) : Blind v (Act.ofExcept a : Act Job α) := by
  cases a <;> exact fun _ => rfl

lemma Blind.bind {a : Act Job α} {f : α → Act Job β} (ha : Blind v a)
    (hf : ∀ x, Blind v (f x)) : Blind v (a >>= f) := by
  intro j
  rcases hrn : (a >>= f).perform j with ⟨res,j'⟩
  rcases bind_cases hrn with ⟨err,hfl,rfl⟩ | ⟨x,j1,hx,hr⟩
  · have hd := ha.of_perform hfl
    rw [perform_bind_eq,hd]
    rfl
  · rw [perform_bind (ha.of_perform hx)]
    exact (hf x).of_perform hr

lemma blind_get {f : Job → Act Job β} (hs : ∀ j : Job, f (j.altered v) = f j) (hf : ∀ j, Blind v (f j)) :
    Blind v (get >>= f) := by
  intro j
  rw [perform_get_bind,hs]
  exact hf j j

lemma Blind.tryCatch {a : Act Job α} {f : Fault → Act Job α} (ha : Blind v a)
    (hf : ∀ err, Blind v (f err)) : Blind v (tryCatch a f) := by
  intro j
  rcases hrn : (MonadExcept.tryCatch a f).perform j with ⟨res,j'⟩
  rcases tryCatch_cases hrn with ⟨x,hx,rfl⟩ | ⟨err,j1,hfl,hr⟩
  · exact perform_tryCatch_ok (ha.of_perform hx)
  · rw [perform_tryCatch_error (ha.of_perform hfl)]
    exact (hf err).of_perform hr

lemma blind_modify {f : Job → Job} (h : ∀ j : Job, f (j.altered v) = (f j).altered v) :
    Blind v (modify f : Act Job Unit) := fun j => Prod.ext rfl (h j)

lemma blind_changeStore (f : Store → Except Fault Store) : Blind v (changeStore f) := by
  refine Blind.bind ?_ fun _ => blind_modify fun _ => rfl
  exact blind_get (fun _ => rfl) fun _ => blind_ofExcept _

lemma blind_withShelf (f : Store → Act Shelf α) : Blind v (withShelf f) := by
  exact fun _ => rfl

lemma blind_print (text : String) : Blind v (print text) := by
  rw [print]
  split
  · exact blind_pure _
  · exact blind_modify fun _ => rfl

lemma blind_writeXml (path : Path.Simple) (stage : String) (es : List Element) :
    Blind v (writeXml path stage es) :=
  (blind_ofExcept _).bind fun _ => (blind_ofExcept _).bind fun _ => (blind_ofExcept _).bind fun _ =>
    blind_changeStore _

lemma stagewise_blind : Stagewise v fun _ α (a : Act Job α) => Blind v a :=
  ⟨blind_pure,blind_fail,blind_withShelf,blind_get,fun ha hf _ => ha.bind hf⟩

lemma blind_pieces (path : String) : Blind v (pieces path) :=
  blind_get (fun _ => rfl) fun _ => blind_pure _

lemma blind_readBlock (path : String) (b : Block) : Blind v (readBlock path b) :=
  ((blind_withShelf _).tryCatch fun _ => blind_fail _).bind fun _ => blind_pure _

end

lemma blind_injectPiece (path : String) (s : Sheet) (p : Piece) : Blind dry (injectPiece path s p) := by
  cases p with
  | code line => exact blind_pure _
  | block b =>
    refine (blind_readBlock path b).bind fun _ => blind_get (fun _ => rfl) fun _ => ?_
    exact (blind_print _).bind fun _ => (blind_ofExcept _).bind fun _ => blind_pure _

lemma blind_injectAdHoc (path : String) : Blind dry (injectAdHoc path) := by
  refine (blind_pieces path).bind fun stream =>
    (stagewise_blind.foldlM (blind_injectPiece path) _ _).bind fun _ => ?_
  split
  · exact blind_fail _
  · exact blind_pure _

lemma blind_injection {r : Report} (h : r.extract = false) (ref : Option String) :
    Blind dry (writeSource r ref) := by
  refine blind_get (fun _ => rfl) fun j => ?_
  have hs : Blind dry (modify fun j : Job => { j with shelf := some (j.shelf.getD {}) } : Act Job Unit) :=
    blind_modify fun _ => rfl
  dsimp only
  rw [h]
  cases j.settings.adHoc with
  | true => exact hs.bind fun _ => blind_injectAdHoc _
  | false =>
    have hr := stagewise_blind.renderStaged fun stage _ => blind_writeXml (.of r.path) stage
    exact hs.bind fun _ => hr.bind fun _ => blind_pure _

section

variable {j j' : Job} {ps : List Passage} {es : List Element} {items : List Piece} {text path : String}
  {s : Store} {tgt : Option String}

def kept : List Passage → String
  | [] => ""
  | .code _ cs :: ps => ofList cs ++ kept ps
  | .comment _ :: ps => kept ps

def brackets (s : String) : Nat := s.toList.count '['

lemma brackets_append (s t : String) : brackets (s ++ t) = brackets s + brackets t := by
  rw [brackets,String.toList_append,count_append,brackets,brackets]

lemma brackets_marker (pre : String) (path : String) (x : Extracted) (after : String) :
    0 < brackets (pre ++ marker path x ++ after) := by
  have hm : brackets (marker path x) = 1 + brackets (path ++ "#" ++ x.name ++ "]") := by
    rw [marker,String.append_assoc,String.append_assoc,String.append_assoc,brackets_append,
      ← String.append_assoc,← String.append_assoc]
    rfl
  rw [brackets_append,brackets_append]
  omega

structure Fills (ps : List Passage) (text : String) : Prop where
  same : extracts ps = [] → text = kept ps
  more : brackets (kept ps) + (extracts ps).length ≤ brackets text

lemma fills_nil : Fills [] "" := ⟨fun _ => rfl,Nat.le_refl _⟩

lemma Fills.code {n : Nat} {cs : List Char} (h : Fills ps text) : Fills (.code n cs :: ps)
    (ofList cs ++ text) := by
  refine ⟨fun hn => by rw [h.same hn,kept],?_⟩
  have hm := h.more
  rw [kept,extracts,brackets_append,brackets_append]
  omega

lemma Fills.comment {r : Remark} {marked : String} (h : Fills ps text) (hmk : 0 < brackets marked) :
    Fills (.comment r :: ps) (marked ++ text) := by
  refine ⟨nofun,?_⟩
  have hm := h.more
  rw [kept,extracts,brackets_append,length_cons]
  omega

lemma Extracts.fills {adHoc : Bool} {path : Option String} {ws : List String}
    (h : Extracts adHoc false tgt path ps j ws j') : Fills ps (join ws) := by
  induction h with
  | nil => exact fills_nil
  | code _ ih =>
    rw [join_cons]
    exact ih.code
  | comment _ _ hw _ ih =>
    obtain ⟨p,-,hr⟩ := hw
    obtain ⟨pre,after,rfl⟩ := hr.marker
    rw [join_cons]
    exact ih.comment (brackets_marker _ _ _ _)

lemma Extracts.kept {adHoc : Bool} {path : Option String} {ws : List String}
    (h : Extracts adHoc true tgt path ps j ws j') : join ws = kept ps := by
  induction h with
  | nil => rfl
  | code _ ih => rw [join_cons,ih,Job.kept]
  | comment _ _ hw _ ih =>
    cases hw
    rw [join_cons,ih,empty_append,Job.kept]

lemma extractPieces_dry (hi : Forall₂ IsPiece ps items) (hd : j.settings.dryRun)
    (path : Option String) : (extractPieces none path items).perform j = (.ok (kept ps),j) := by
  induction hi generalizing path with
  | nil => rfl
  | @cons p piece ps items hp _ ih =>
    cases p with
    | code n cs =>
      obtain rfl := isPiece_code hp
      rw [extractPieces,perform_bind (ih path)]
      rfl
    | comment r =>
      obtain ⟨b,rfl,hb⟩ := isPiece_comment hp
      have ha : (addFragment none (some (r.number : Int)) (some (r.lastNumber : Int)) b.texts).perform j =
          (.ok r.extracted.name,j) := rfl
      rw [extractPieces,perform_ofExcept_bind (lineNumbers_ok hb),perform_bind ha,perform_get_bind,hd]
      refine (perform_bind (ih (some "")) _).trans ?_
      rfl

lemma extractEach_dry (hes : Forall₂ IsExtractedPassage ps es) (path : Option String) (out : String) :
    (extractEach (addTo none) writeText true path es).perform (j,out) = (.ok (),(j,out ++ kept ps)) := by
  induction hes generalizing path out with
  | nil => rw [kept,String.append_empty]; rfl
  | @cons p e ps es he _ ih =>
    cases p with
    | code n cs => rw [extractEach_code he,ih,String.append_assoc,kept]
    | comment r =>
      have ha : (addTo none r.extracted).perform (j,out) = (.ok r.extracted.name,(j,out)) := rfl
      rw [extractEach,perform_ofExcept_bind (extracted?_comment he)]
      exact (perform_bind ha _).trans (ih (some "") out)

variable {r : Report} {ref : Option String} {sheet : Sheet}

structure Behind (s s' : Store) : Prop where
  home : s'.home = s.home
  kept : ∀ q, s.isFolderAt q = true → s'.isFolderAt q = true

lemma Behind.locate {s' : Store} (h : Behind s s') {loc : Place} (hl : s.locate path = .ok loc) :
    s'.locate path = .ok loc := locate_of_kept h.home h.kept hl

lemma Behind.later {s' t t' : Store} (h : Behind s s') (hs : SameFolders s t) (hs' : SameFolders s' t') :
    Behind t t' := by
  refine ⟨hs'.home.trans (h.home.trans hs.home.symm),fun q hq => ?_⟩
  rw [isFolderAt,hs.folders] at hq
  rw [isFolderAt,hs'.folders]
  exact h.kept q hq

lemma exists_stage {src stage : String} {loc : Place} {xml : Path.Simple} (h : s.locate src = .ok loc)
    (hx : xmlPath (.of src) stage = .ok xml) : ∃ q, s.locate xml.text = .ok q := by
  obtain ⟨hn,-⟩ := xmlPath_names hx
  obtain ⟨-,hf⟩ := follow_of_locate h
  rw [Path.Simple.names_of_name hn,follow_append] at hf
  rw [locate_xmlPath hx,follow_append]
  cases hd : s.follow (s.startOf (.of src)) (Path.Simple.of src).names.dropLast with
  | error dead =>
    rw [hd] at hf
    cases hf
  | ok q =>
    rw [hd] at hf
    have hat : s.isFolderAt q := isFolderAt_of_follow (cons_ne_nil _ _) hf
    have ho (c : String) : ∃ q', s.follow q [c] = .ok q' := by
      rw [follow,hat]
      simp only [Bool.not_true,Bool.false_eq_true,if_false]
      split
      · exact ⟨q,rfl⟩
      · split
        · exact ⟨_,rfl⟩
        · exact ⟨_,rfl⟩
    exact ho _

variable {k : Job} {src stage : String} {loc : Place}

lemma writeXml_again (hb : Behind k.store j.store) (hs : k.store.locate src = .ok loc)
    (h : (writeXml (.of src) stage es).perform j = (.ok (),j')) :
    ∃ k', (writeXml (.of src) stage es).perform k = (.ok (),k') ∧ Behind k'.store j'.store ∧
      k'.store.locate src = .ok loc := by
  obtain ⟨xml,text,fs,hx,ht,hst,rfl⟩ := writeXml_ok_iff.mp h
  obtain ⟨q',htg',hc',-⟩ := write_ok hst
  obtain ⟨q,hq⟩ := exists_stage hs hx
  obtain ⟨hl',hd'⟩ := target_ok htg'
  obtain rfl := Except.ok.inj ((hb.locate hq).symm.trans hl')
  have hd : k.store.isFolderAt q = false := by
    rw [Bool.eq_false_iff]
    intro hat
    exact absurd ((hb.kept q hat).symm.trans hd') (by decide)
  have hm := write_of_target (target_of_locate hq hd) text
  have hc := changes_put k.store q (.text text)
  exact ⟨_,writeXml_ok_iff.mpr ⟨xml,text,_,hx,ht,hm,rfl⟩,hb.later hc.folders hc'.folders,hc.folders.locate hs⟩

lemma readComments_again (hb : Behind k.store j.store) (hsr : k.store.locate src = .ok loc)
    (hl : k.store.lines (Path.Simple.of src).text = j.store.lines (Path.Simple.of src).text)
    (h : (readComments (.of src)).perform j = (.ok es,j')) :
    ∃ k', (readComments (.of src)).perform k = (.ok es,k') := by
  have hr := Act.get_bind_ok h
  obtain ⟨marked,hm',hw⟩ := Act.ofExcept_bind_ok hr
  obtain ⟨_,j3,hf,hst⟩ := Act.bind_ok hw
  obtain ⟨made,j4,hmd,hrs⟩ := Act.bind_ok hst
  obtain ⟨hes,rfl⟩ := perform_mapM_ofExcept_ok hmd
  obtain ⟨_,j5,hs,rfl,rfl⟩ := Act.map_ok hrs
  obtain ⟨k1,hf',hb1,hsr1⟩ := writeXml_again hb hsr hf
  obtain ⟨k2,hs',-,-⟩ := writeXml_again hb1 hsr1 hs
  refine ⟨k2,?_⟩
  rw [← hl] at hm'
  rw [readComments,perform_get_bind,perform_ofExcept_bind hm',
    perform_bind hf',plainStage,Job.stage,perform_bind (perform_mapM_ofExcept hes),
    perform_bind hs']
  rfl

lemma writeSource_again {r' : Report} (he : r.extract) (he' : r'.extract) (hpt : r'.path = r.path)
    (ht : r'.extractPath = some none) (hd : k.settings.dryRun)
    (hm : k.settings.adHoc = j.settings.adHoc)
    (hb : Behind k.store j.store) (hl : k.store.locate r.path = .ok loc)
    (hs : Seen j.store r.path text)
    (hs' : Seen k.store r.path text) (hsr : IsSource text ps)
    (h : (writeSource r ref).perform j = (.ok sheet,j')) :
    ∃ sheet' k', (writeSource r' none).perform k = (.ok sheet',k') := by
  rw [writeSource,perform_get_bind]
  dsimp only
  rw [he',ht,hm,hpt]
  rcases writeSource_reads he hs hsr h with
    ⟨stream,hadHoc,hp,hf,hi,-⟩ | ⟨es,j1,hadHoc,hr,-,hps,-⟩
  · have hp' : (pieces r.path).perform k = (.ok stream,k) := by
      rw [pieces,perform_get_bind,hs'.lines,← hs.lines]
      exact Prod.ext (Prod.mk.inj hp).1 rfl
    refine ⟨{ text := kept ps },k,?_⟩
    rw [hadHoc]
    change (extractAdHoc r.path none none).perform k = _
    rw [extractAdHoc,perform_bind hp',perform_bind (extractPieces_dry hi hd none),hf]
    rfl
  obtain ⟨k1,hr'⟩ :=
    readComments_again hb hl (hs'.simple.trans hs.simple.symm) hr
  have hst := (readComments_ok hr').2.settings
  refine ⟨{ text := kept ps },k1,?_⟩
  rw [hadHoc]
  change (extractStaged r.path none none).perform k = _
  rw [extractStaged_eq,perform_bind hr',extractElements,perform_get_bind,
    perform_settle,hst,hd,extractEach_dry hps,empty_append]
  rfl

end

section

variable {r r' : Report} {j j' : Job} {old : List String} {path : String}

def Report.looked (r : Report) : Report := { r with lineTypes := some [], extractPath := some none }

lemma overwriteOne_discards {sheet : Sheet} {j1 : Job} (hd : j.settings.dryRun)
    (hs : (writeSource r.looked none).perform (j.scratched r.path) = (.ok sheet,j1))
    (ho : (j1.store.lines r.path).toExcept = .ok old) :
    (overwriteOne r).perform j = (.ok (r.looked.written old sheet),j1.cleared) := by
  have hst : (startExtract { r with lineTypes := some [] }).perform j = (.ok (r.looked,none),j) := by
    rw [startExtract,perform_get_bind]
    rw [if_pos (by rw [hd]; rfl)]
    rfl
  have hs' : (writeSource r.looked none).perform (j.scratched r.looked.path) = (.ok sheet,j1) := hs
  have ho' : (j1.store.lines r.looked.path).toExcept = .ok old := ho
  have hd' : j1.settings.dryRun := (congrArg Settings.dryRun (writeSource_touches hs).settings).trans hd
  rw [overwriteOne,perform_bind hst]
  refine perform_withScratch (k := j1) ?_
  rw [perform_bind hs',perform_get_bind,perform_ofExcept_bind ho',perform_get_bind,hd']
  rfl

lemma discards_of_ok (hd : j.settings.dryRun) (h : (overwriteOne r).perform j = (.ok r',j')) :
    ∃ sheet old k, (writeSource r.looked none).perform (j.scratched r.path) = (.ok sheet,k) ∧
      (k.store.lines r.path).toExcept = .ok old ∧ r' = r.looked.written old sheet := by
  cases overwriteOne_overwrites h with
  | discarded hst hs ho =>
    obtain ⟨hr,rfl⟩ := hst.of_dry hd
    cases hr
    exact ⟨_,_,_,hs,ho,rfl⟩
  | written hst hs _ hno =>
    obtain ⟨hr,rfl⟩ := hst.of_dry hd
    rw [(writeSource_touches hs).settings] at hno
    cases hno.symm.trans hd

lemma dry_injection (he : r.extract = false) (hd : j.settings.dryRun = false)
    (h : (overwriteOne r).perform j = (.ok r',j')) : ∃ k, (overwriteOne r).perform j.dried = (.ok r',k) := by
  obtain ⟨started,ref,sheet,old,fs,j1,j2,hst,hs,ho,-,rfl,rfl⟩ := writes_of_ok hd h
  cases hst with
  | off =>
    have hl : r.looked.extract = false := he
    have hb := blind_injection hl none
    exact ⟨j2.dried.cleared,overwriteOne_discards rfl (hb.of_perform hs) ho⟩
  | opens ha => exact absurd (ha.extract.symm.trans he) (by decide)

lemma holds_of_lines {s : Store} (h : (s.lines path).toExcept = .ok old) :
    ∃ loc c, Holds s path loc c ∧ c.lines.fault = none ∧ c.lines.items = old := by
  cases hr : s.read path with
  | error err =>
    rw [Store.lines,hr] at h
    cases h
  | ok c =>
    rw [Store.lines,hr] at h
    obtain ⟨loc,hp⟩ := read_iff_holds.mp hr
    cases hf : c.lines.fault with
    | some err =>
      rw [Stream.toExcept,hf] at h
      cases h
    | none =>
      rw [Stream.toExcept,hf] at h
      exact ⟨loc,c,hp,hf,Except.ok.inj h⟩

lemma lines_of_holds {s : Store} {loc : Place} {c : Content} (hc : Holds s path loc c)
    (h : (s.lines path).toExcept = .ok old) : c.lines.items = old := by
  obtain ⟨loc',c',hc',-,ho⟩ := holds_of_lines h
  cases hc.read.symm.trans hc'.read
  exact ho

section

variable {path : String} {tgt : Option String} {loc : Place} {c : Content} {adHoc extract : Bool}

lemma Touches.holds (h : Touches (stagesFor adHoc extract) path tgt j j')
    (hc : Holds j.store path loc c) (ht : ¬ TargetAt j.store tgt loc) : Holds j'.store path loc c := by
  refine hc.same h.folders (h.others loc ?_ ht)
  exact fun hs => not_stageAt_source (target_ok hc.target).1 (hs.mono (stagesFor_subset adHoc extract))

lemma Touches.held (h : Touches (stagesFor adHoc extract) path none j j')
    (hc : Holds j'.store path loc c) : Holds j.store path loc c := by
  have hl := h.folders.symm.locate (target_ok hc.target).1
  refine hc.same h.folders.symm (h.others loc ?_ (not_targetAt_none _ _)).symm
  exact fun hs => not_stageAt_source hl (hs.mono (stagesFor_subset adHoc extract))

end

lemma Starts.marks {started : Report} {ref : Option String} (he : r.extract) (hdr : j.settings.dryRun = false)
    (h : Starts r j (.ok (started,ref)) j') : Behind j.store j'.store ∧ ∃ path, ref = some path := by
  cases h with
  | off hof => simp [he,hdr] at hof
  | opens ha ho =>
    cases ho with
    | made hd hn hw hr =>
      have hm := madeFolders_more hd
      obtain ⟨_,_,hc,-⟩ := write_ok hw
      refine ⟨⟨hc.folders.home.trans hm.home,fun q hq => ?_⟩,?_⟩
      · have hat := hm.kept q hq
        rwa [isFolderAt,← hc.folders.folders] at hat
      · obtain ⟨path,-,-,rfl⟩ := made_ok hr
        exact ⟨path,rfl⟩

lemma count_normalizeNewlines (cs : List Char) : (Text.normalizeNewlines cs).count '[' = cs.count '[' := by
  fun_induction Text.normalizeNewlines cs with
  | case1 rest ih => simp [ih]
  | case2 rest _ ih => simp [ih]
  | case3 c rest _ _ ih => rw [count_cons,count_cons,ih]
  | case4 => rfl

lemma sum_brackets (text : String) : ((Content.text text).lines.items.map brackets).sum = brackets text := by
  have hl : (Content.text text).lines.items.map brackets =
      (Text.fileLinesFrom [] (Text.normalizeNewlines text.toList)).map (List.count '[') := by
    rw [Content.lines,Text.fileLines,toList_ofList,map_map]
    refine map_congr_left fun line _ => ?_
    rw [Function.comp_apply,brackets,toList_ofList]
  rw [hl,← count_flatten,Text.flatten_fileLines,count_normalizeNewlines,brackets]

lemma brackets_of_context {n : Nat} {leftName rightName text text' : String}
    (h : Diff.context n leftName rightName old (Content.text text).lines.items =
      Diff.context n leftName rightName old (Content.text text').lines.items) : brackets text =
        brackets text' := by
  rw [← sum_brackets text,← sum_brackets text']
  exact ((Diff.perm_of_context h).map brackets).sum_nat

lemma fault_of_sourceComments {lines : Stream String} {xs : List Extracted}
    (h : sourceComments path lines = .ok xs) : lines.fault = none := by
  obtain ⟨es,hes,-⟩ := bind_ok h
  obtain ⟨marked,hm,-⟩ := bind_ok hes
  obtain ⟨elements,-,hr⟩ := bind_ok hm
  obtain ⟨made,-,hl⟩ := bind_ok hr
  cases hf : lines.fault with
  | none => rfl
  | some err =>
    rw [hf] at hl
    cases hl

def Report.shows (r : Report) (path : String) (old : List String) (text : String) : Prop :=
  r.diffs = some (Diff.context 1 path "Edited by the Doctor." old (Content.text text).lines.items)

section

variable {loc : Place} {c : Content} {text : String} {ps : List Passage}

lemma extract_shows (he : r.extract) (hd : j.settings.dryRun = false)
    (h : (overwriteOne r).perform j = (.ok r',j'))
  (hc : Holds j.store r.path loc c) (ht : c.lines = (Content.text text).lines)
  (hsr : IsSource text ps) :
  (∃ sheet : Sheet, r'.shows r.path c.lines.items sheet.text ∧ Fills ps sheet.text) ∧
    ∃ sheet k, (writeSource r.looked none).perform (j.dried.scratched r.path) = (.ok sheet,k) := by
  obtain ⟨started,ref,sheet,old,fs,j1,j2,hs,hsh,ho,-,rfl,rfl⟩ := writes_of_ok hd h
  have he0 : { r with lineTypes := some [] }.extract := he
  obtain ⟨hb,path,rfl⟩ := hs.marks he0 hd
  obtain ⟨hp,hsm⟩ := hs.same_source
  have hp1 : started.path = r.path := hp
  have he1 : started.extract := hsm.trans he
  have hc0 : Holds (j.dried.scratched r.path).store started.path loc c := hp1 ▸ hc
  have hc1 : Holds (j1.scratched started.path).store started.path loc c := hp1 ▸ hs.holds hc
  have hsn1 := seen_of_holds hc1 ht
  have ho1 := lines_of_holds ((writeSource_touches hsh).holds hc1 (hs.not_targetAt hc.content)) ho
  obtain ⟨ws,k,-,hj,hws⟩ := writeSource_extracts he1 hsn1 hsr hsh
  have hst : (j1.scratched started.path).settings = j.settings := hs.settings
  rw [hst,hd] at hws
  refine ⟨⟨sheet,?_,hj ▸ hws.fills⟩,?_⟩
  · rw [ho1,← hp1]
    rfl
  · exact writeSource_again he1 he hp1.symm rfl rfl (congrArg Settings.adHoc hst).symm
      hb (target_ok hc0.target).1 hsn1 (seen_of_holds hc0 ht) hsr hsh

lemma dry_shows {sheet : Sheet} (he : r.extract) (hd : j.settings.dryRun)
    (hc : Holds j.store r.path loc c) (ht : c.lines = (Content.text text).lines)
    (hsr : IsSource text ps) (hs : (writeSource r.looked none).perform j = (.ok sheet,j')) :
    sheet.text = kept ps ∧ Holds j'.store r.path loc c := by
  have he1 : r.looked.extract := he
  have hc1 : Holds j.store r.looked.path loc c := hc
  have hn : ¬ TargetAt j.store (r.looked.extractPath.getD none) loc := not_targetAt_none _ _
  obtain ⟨ws,k,-,hj,hws⟩ := writeSource_extracts he1 (seen_of_holds hc1 ht) hsr hs
  rw [hd] at hws
  exact ⟨hj.trans hws.kept,(writeSource_touches hs).holds hc1 hn⟩

lemma dry_extract_iff_of_holds (he : r.extract) (hdr : j.settings.dryRun = false)
    (h : (overwriteOne r).perform j = (.ok r',j')) (hc : Holds j.store r.path loc c)
    (ht : c.lines = (Content.text text).lines) (hsr : IsSource text ps) :
    (∃ d k, (overwriteOne r).perform j.dried = (.ok d,k) ∧ d.diffs = r'.diffs) ↔ extracts ps = [] := by
  obtain ⟨⟨sheet,hsh,hf⟩,sheet',k,hs'⟩ :=
    extract_shows he hdr h hc ht hsr
  have hc' : Holds (j.dried.scratched r.path).store r.path loc c := hc
  constructor
  · rintro ⟨d,k',hr,hd⟩
    obtain ⟨sheet'',old,_,hs'',ho,rfl⟩ := discards_of_ok rfl hr
    obtain ⟨hk,hc''⟩ := dry_shows he rfl hc' ht hsr hs''
    rw [hsh,← lines_of_holds hc'' ho] at hd
    have hb := brackets_of_context (Option.some.inj hd)
    rw [hk] at hb
    have hm := hf.more
    exact eq_nil_of_length_eq_zero (by omega)
  · intro hn
    obtain ⟨hk,hc''⟩ := dry_shows he rfl hc' ht hsr hs'
    have ho : (k.store.lines r.path).toExcept = .ok c.lines.items := by
      rw [(seen_of_holds hc'' ht).lines,ht]
      rfl
    refine ⟨_,_,overwriteOne_discards rfl hs' ho,?_⟩
    rw [hsh,hf.same hn,← hk]
    rfl

end

lemma dry_extract_iff (he : r.extract) (hdr : j.settings.dryRun = false)
    (h : (overwriteOne r).perform j = (.ok r',j')) :
    (∃ d k, (overwriteOne r).perform j.dried = (.ok d,k) ∧ d.diffs = r'.diffs) ↔
      sourceComments (Path.Simple.of r.path).text (j.store.lines r.path) = .ok [] := by
  have hr {old : List String} (ho : (j.store.lines r.path).toExcept = .ok old) :
      (∃ d k, (overwriteOne r).perform j.dried = (.ok d,k) ∧ d.diffs = r'.diffs) ↔
        sourceComments (Path.Simple.of r.path).text (j.store.lines r.path) = .ok [] := by
    obtain ⟨loc,c,hc,hf,-⟩ := holds_of_lines ho
    obtain ⟨text,ht⟩ := Content.exists_text hf
    obtain ⟨ps,es,hsr,hes,hps⟩ := exists_source (Path.Simple.of r.path).text text
    rw [dry_extract_iff_of_holds he hdr h hc ht hsr,
      (seen_of_holds hc ht).lines,sourceComments_ok hes hps,Except.ok.injEq]
  constructor
  · rintro ⟨d,k,hrn,hd⟩
    obtain ⟨sheet,old,_,hs,ho,-⟩ := discards_of_ok rfl hrn
    obtain ⟨loc,c,hc,hf,-⟩ := holds_of_lines ho
    have hh : Holds j.store r.path loc c := (writeSource_touches hs).held hc
    have hl : (j.store.lines r.path).toExcept = .ok c.lines.items := by
      rw [Store.lines,hh.read]
      rw [Stream.toExcept,hf]
    exact (hr hl).mp ⟨d,k,hrn,hd⟩
  · intro hn
    have hl : (j.store.lines r.path).toExcept = .ok (j.store.lines r.path).items := by
      rw [Stream.toExcept,fault_of_sourceComments hn]
    exact (hr hl).mpr hn

end

section

variable {path : String} {j j' : Job} {r : Report}

def given (path : String) (extract : Bool) : Report :=
  { path, extension := none, overwrote := true, extract }

def told (r : Report) (j : Job) : Job :=
  { j with events := j.events ++ [.reported r.finished], summary := some (({} : Summary).add r) }

lemma visit_one (hf : j.store.isFolder path = false) (s : Summary) : (visit s path).perform j =
    (overwriteOne (given path j.settings.extract) >>= report s).perform j := by
  have ho : (visit s path).perform j = (visit.visitOne s path).perform j := by
    rw [visit,perform_get_bind]
    cases hp : j.store.locate path with
    | error dead => rfl
    | ok loc =>
      have hpl : j.store.isFolderAt loc = false := by
        rw [isFolder,hp] at hf
        exact hf
      dsimp only
      rw [if_neg (by rw [hpl]; exact Bool.false_ne_true)]
  rw [ho]
  rfl

lemma run_one (hfl : j.store.isFolder path = false) (he : j.events = []) : (run [path]).perform j = (.ok (),j') ↔
    ∃ r k, (overwriteOne (given path j.settings.extract)).perform j = (.ok r,k) ∧ j' = told r k := by
  have hrs : (modify fun j => { j with events := [] } : Act Job Unit).perform j = (.ok (),j) := by
    obtain ⟨settings,fs,shelf,summary,events⟩ := j
    obtain rfl : events = [] := he
    rfl
  rw [run,perform_bind hrs]
  constructor
  · intro h
    obtain ⟨summary,j1,hf,hl⟩ := Act.bind_ok h
    obtain ⟨summary',j2,hv,rfl,rfl⟩ := Act.map_ok hf
    rw [visit_one hfl] at hv
    obtain ⟨r,k,hr,hrp⟩ := Act.bind_ok hv
    obtain ⟨hs,rfl⟩ := Prod.mk.inj hrp
    cases hs
    exact ⟨r,k,hr,(Prod.mk.inj hl).2.symm⟩
  · rintro ⟨r,k,hr,rfl⟩
    have hv : (visit {} path).perform j =
        (.ok (({} : Summary).add r),{ k with events := k.events ++ [.reported r.finished] }) := by
      rw [visit_one hfl,perform_bind hr]
      rfl
    have hf : ([path].foldlM visit {}).perform j =
        (.ok (({} : Summary).add r),{ k with events := k.events ++ [.reported r.finished] }) := by
      rw [foldlM_cons,perform_bind hv]
      rfl
    rw [perform_bind hf]
    rfl

lemma Starts.reports_eq {res : Except Fault (Report × Option String)} (h : Starts r j res j') :
    reports j' = reports j := by
  cases h with
  | off | nowhere => rfl
  | opens _ ho => cases ho <;> rfl

lemma Overwrites.reports_eq {res : Except Fault Report} (h : Overwrites r j res j') :
    reports j' = reports j := by
  cases h with
  | unstarted hs => exact hs.reports_eq
  | unfinished hs hsh | unwritten hs hsh | discarded hs hsh
  | written hs hsh => exact (writeSource_touches hsh).reports.trans hs.reports_eq

lemma diffs_told {k : Job} (h : (overwriteOne (given path j.settings.extract)).perform j = (.ok r,k))
    (he : j.events = []) : (reports (told r k)).map Report.diffs = [r.diffs] := by
  have hn : reports k = [] := by
    rw [(overwriteOne_overwrites h).reports_eq,reports,he]
    rfl
  have ht : reports (told r k) = reports k ++ [r.finished] := by
    simp [reports,told]
  rw [ht,hn]
  rfl

lemma tells_same_iff {j1 : Job} (hf : j.store.isFolder path = false) (he : j.events = [])
    (hr : (overwriteOne (given path j.settings.extract)).perform j = (.ok r,j1)) :
    (∃ k, (run [path]).perform j.dried = (.ok (),k) ∧
        (reports k).map Report.diffs = (reports (told r j1)).map Report.diffs) ↔
      ∃ d k, (overwriteOne (given path j.settings.extract)).perform j.dried = (.ok d,k) ∧ d.diffs = r.diffs := by
  have hf' : j.dried.store.isFolder path = false := hf
  rw [diffs_told hr he]
  constructor
  · rintro ⟨k,hdr,hd⟩
    obtain ⟨d,k1,hr',rfl⟩ := (run_one hf' he).mp hdr
    rw [diffs_told hr' he] at hd
    exact ⟨d,k1,hr',singleton_inj.mp hd⟩
  · rintro ⟨d,k1,hr',hd⟩
    refine ⟨told d k1,(run_one hf' he).mpr ⟨d,k1,hr',rfl⟩,?_⟩
    rw [diffs_told hr' he,hd]

theorem dry_run_tells_same_iff {settings : Settings} {store : Store}
    (hfile : store.isFolder path = false)
    (h : (run [path]).perform { settings := { settings with dryRun := false }, store } =
      (.ok (), j')) :
    (∃ k, (run [path]).perform { settings := { settings with dryRun := true }, store } = (.ok (), k) ∧
        (reports k).map Report.diffs = (reports j').map Report.diffs) ↔
      settings.extract = false ∨
        sourceComments (Path.Simple.of path).text (store.lines path) = .ok [] := by
  obtain ⟨r, j₁, hrun, rfl⟩ := (run_one hfile rfl).mp h
  refine (tells_same_iff hfile rfl hrun).trans ?_
  by_cases hextract : settings.extract = false
  · have hgiven : (given path settings.extract).extract = false := hextract
    obtain ⟨k, hk⟩ := dry_injection hgiven rfl hrun
    exact iff_of_true ⟨r, k, hk, rfl⟩ (.inl hextract)
  · have hgiven : (given path settings.extract).extract = true := Bool.not_eq_false _ ▸ hextract
    rw [or_iff_right hextract]
    exact dry_extract_iff hgiven rfl hrun

def extractRun (dryRun : Bool) (text : String) : Job :=
  { settings := { extract := true, dryRun }, store := (extractJob text).store }

lemma exists_run {paths : List String} (h : ((run paths).perform j).1.toOption = some ()) :
    ∃ j', (run paths).perform j = (.ok (),j') :=
  ⟨_,run_of_toOption h⟩

theorem dry_run_tells_same_iff_at_code :
    ∃ j' k, (run ["d/a.h"]).perform (extractRun false "int x;\n") = (.ok (), j') ∧
    (run ["d/a.h"]).perform (extractRun true "int x;\n") = (.ok (), k) ∧
    (reports k).map Report.diffs = (reports j').map Report.diffs := by
  have hfile : (extractJob "int x;\n").store.isFolder "d/a.h" = false := by decide +kernel
  have hcomments : (sourceComments (Path.Simple.of "d/a.h").text
      ((extractJob "int x;\n").store.lines "d/a.h")).toOption.map List.isEmpty = some true := by
    decide +kernel
  obtain ⟨xs, hxs, hempty⟩ := Option.map_eq_some_iff.mp hcomments
  obtain rfl := List.isEmpty_iff.mp hempty
  obtain ⟨j', hrun⟩ : ∃ j', (run ["d/a.h"]).perform (extractRun false "int x;\n") = (.ok (), j') :=
    exists_run (by decide +kernel)
  obtain ⟨k, hk, hdiffs⟩ := (@dry_run_tells_same_iff "d/a.h" j' { extract := true }
    (extractJob "int x;\n").store hfile hrun).mpr (.inr (ok_of_toOption hxs))
  exact ⟨j', k, hrun, hk, hdiffs⟩

theorem dry_run_tells_other_at_comment : ∃ j' k,
    (run ["d/a.h"]).perform (extractRun false "/** a */\n") = (.ok (), j') ∧
    (run ["d/a.h"]).perform (extractRun true "/** a */\n") = (.ok (), k) ∧
    (reports k).map Report.diffs ≠ (reports j').map Report.diffs := by
  have hfile : (extractRun false "/** a */\n").store.isFolder "d/a.h" = false := by decide +kernel
  have hcomments : (sourceComments (Path.Simple.of "d/a.h").text
      ((extractRun false "/** a */\n").store.lines "d/a.h")).toOption.map List.length = some 1 := by
    decide +kernel
  obtain ⟨j', hrun⟩ : ∃ j', (run ["d/a.h"]).perform (extractRun false "/** a */\n") = (.ok (), j') :=
    exists_run (by decide +kernel)
  obtain ⟨k, hk⟩ : ∃ k, (run ["d/a.h"]).perform (extractRun true "/** a */\n") = (.ok (), k) :=
    exists_run (by decide +kernel)
  refine ⟨j', k, hrun, hk, fun hsame => ?_⟩
  have hdried : (extractRun false "/** a */\n").dried = extractRun true "/** a */\n" := rfl
  rw [← hdried] at hk
  obtain ⟨r, j₁, hone, rfl⟩ := (run_one hfile rfl).mp hrun
  have hboth := (tells_same_iff hfile rfl hone).mp ⟨k, hk, hsame⟩
  have hnone := (dry_extract_iff rfl rfl hone).mp hboth
  have hzero := congrArg (fun xs => xs.toOption.map List.length) hnone
  exact absurd (hcomments.symm.trans hzero) (by decide)

-- Other comments are code, so that nothing is extracted here.
example : (sourceComments "a.h" (Content.text "int x; // y\n").lines).toOption.map List.isEmpty = some true := by
  decide +kernel

end

end Job

end Docweave
