import Docweave.Proofs.Sections.Lookups
import Docweave.Proofs.Trees.Resolution

namespace Docweave

open List

namespace Tree

open Element Files Docweave.Shelf

variable {d : Edition} {store st : Store} {e e' t t' m : Element} {a b : Address} {sh sh' : Shelf}
  {todo : List Address} {fuel : Nat} {src path : String} {es' es : List Element}

def LoadsAll (store : Store) (ps : List String) (shelf shelf' : Shelf) : Prop :=
  (ps.forM (loadFile store)).perform shelf = (.ok (),shelf')

lemma LoadsAll.append {ps qs : List String} {sh1 : Shelf} (h : LoadsAll st ps sh sh1)
  (h' : LoadsAll st qs sh1 sh') : LoadsAll st (ps ++ qs) sh sh' := by
  induction ps generalizing sh with
  | nil =>
    obtain ⟨-,rfl⟩ := Act.pure_ok h
    exact h'
  | cons p ps ih =>
    obtain ⟨_,sh2,hp,hr⟩ := Act.bind_ok h
    exact (Act.perform_bind hp fun _ => (ps ++ qs).forM (loadFile st)).trans (ih hr)

lemma reads_of_find {uri base : Option String} {s : Section}
  (h : (find st uri base).perform sh = (.ok s,sh')) : ∃ ps, LoadsAll st ps sh sh' := by
  obtain ⟨_,_,file,-,-,-,hf,-⟩ := find_ok_iff.mp h
  cases file with
  | none =>
    obtain rfl : sh' = sh := hf
    exact ⟨[],rfl⟩
  | some path => exact ⟨[path],(Act.perform_bind hf _).trans rfl⟩

lemma resolveAt_ok (h : (resolveAt st t b).perform sh = (.ok t',sh')) :
    (t.at? b = none ∧ t' = t ∧ sh' = sh) ∨
      ∃ (found : Element) (s : Section) (marked : Element), t.at? b = some found ∧
        (find st (found.attribute? "uri") (found.attribute? "source")).perform sh = (.ok s,sh') ∧
        t' = t.modifyAt (fun _ => { answered s found with
          children := found.children ++ marked.children }) b := by
  cases hat : t.at? b with
  | none =>
    rw [resolveAt,hat] at h
    cases h
    exact .inl ⟨rfl,rfl,rfl⟩
  | some found =>
    rw [resolveAt,hat] at h
    obtain ⟨found',sh1,hr,rfl,rfl⟩ := Act.map_ok h
    obtain ⟨s,marked,hf,-,rfl⟩ := resolveReference_ok_iff.mp hr
    exact .inr ⟨found,s,marked,rfl,hf,rfl⟩

lemma resolveAt_reads (h : (resolveAt st t b).perform sh = (.ok t',sh')) : ∃ ps, LoadsAll st ps sh sh' := by
  rcases resolveAt_ok h with ⟨-,-,rfl⟩ | ⟨found,s,marked,-,hf,-⟩
  · exact ⟨[],rfl⟩
  · exact reads_of_find hf

lemma resolveAt_stays (h : (resolveAt st t b).perform sh = (.ok t',sh')) (hne : b ≠ a)
  (hm : t.at? a = some m) : ∃ m', t'.at? a = some m' ∧ SameHead m m' := by
  rcases resolveAt_ok h with ⟨-,rfl,-⟩ | ⟨found,s,marked,hat,-,rfl⟩
  · exact ⟨m,hm,.refl m⟩
  by_cases hb : b <+: a
  · obtain ⟨rest,rfl⟩ := hb
    cases rest with
    | nil => exact absurd (append_nil b).symm hne
    | cons i rest =>
      rw [at?_append,hat] at hm
      refine ⟨m,?_,.refl m⟩
      rw [at?_modifyAt_below hat]
      exact at?_of_more rfl hm
  · exact at?_modifyAt_stays hb hm

lemma resolveEach_stays (ha : a ∉ todo) (h : (todo.foldlM (resolveAt st) t).perform sh = (.ok t',sh'))
  (hm : t.at? a = some m) : ∃ m', t'.at? a = some m' ∧ SameHead m m' := by
  induction todo generalizing t m sh with
  | nil =>
    cases h
    exact ⟨m,hm,.refl m⟩
  | cons b todo ih =>
    rw [mem_cons,not_or] at ha
    obtain ⟨t1,sh1,hst,hr⟩ := Act.bind_ok h
    obtain ⟨m1,hm1,hs⟩ := resolveAt_stays hst (Ne.symm ha.1) hm
    obtain ⟨m2,hm2,hs'⟩ := ih ha.2 hr hm1
    exact ⟨m2,hm2,hs.trans hs'⟩

lemma resolveRounds_reads (h : (resolveRounds d st fuel t).perform sh = (.ok e',sh')) :
  ∃ ps, LoadsAll st ps sh sh' := by
  refine resolveRounds_related (R := fun p q => ∃ ps, LoadsAll st ps p.2 q.2) (fun _ => ⟨[],rfl⟩) ?_
    (fun _ => resolveAt_reads) h
  rintro p q r ⟨ps,hps⟩ ⟨qs,hqs⟩
  exact ⟨ps ++ qs,hps.append hqs⟩

lemma resolveRounds_stays (h : (resolveRounds d st fuel t).perform sh = (.ok e',sh'))
  (hm : t.at? a = some m) (haw : ¬ Awaits d m) : ∃ m', e'.at? a = some m' ∧ SameHead m m' := by
  induction fuel generalizing t m sh with
  | zero =>
    cases h
    exact ⟨m,hm,.refl m⟩
  | succ fuel ih =>
    rw [resolveRounds] at h
    split at h
    · cases h
      exact ⟨m,hm,.refl m⟩
    obtain ⟨t1,sh1,hr,hrs⟩ := Act.bind_ok h
    have ha : a ∉ waiting d t := by
      intro hw
      obtain ⟨-,m',hm',haw'⟩ := mem_waiting_iff.mp hw
      exact haw (Option.some.inj (hm.symm.trans hm') ▸ haw')
    obtain ⟨m1,hm1,hs⟩ := resolveEach_stays ha hr hm
    obtain ⟨m2,hm2,hs'⟩ := ih hrs hm1 (mt (awaits_of_sameHead hs).mp haw)
    exact ⟨m2,hm2,hs.trans hs'⟩

structure Refers (source path : String) (x : Extracted) (e : Element) (a : Address) (m : Element) :
    Prop where
  waiting : waiting .final e = [a]
  found : e.at? a = some m
  uri : m.attribute? "uri" = some (x.uri path)
  source : m.attribute? "source" = some source

def Shows (e : Element) (a : Address) (s : Section) : Prop :=
  ∃ m, e.at? a = some m ∧ m.attribute? "content" = some (String.join s.lines)

lemma resolveAll_ok {x : Extracted} (hx : Refers src path x e a m)
  (h : (resolveAll .final st e).perform sh = (.ok e',sh')) :
  ∃ s sh1 ps, (find st (some (x.uri path)) (some src)).perform sh = (.ok s,sh1) ∧
    LoadsAll st ps sh1 sh' ∧ Shows e' a s := by
  have hrn : (resolveAll .final st e).perform sh =
      (resolveRounds .final st (2 * st.size + sh.sections.length + 2) e).perform sh := rfl
  rw [hrn,resolveRounds,hx.waiting] at h
  obtain ⟨t,sh1,hfr,hr⟩ := Act.bind_ok h
  obtain ⟨t',sh2,hst,rfl,rfl⟩ := Act.map_ok hfr
  rcases resolveAt_ok hst with ⟨hn,-,-⟩ | ⟨found,s,marked,hfn,hf,rfl⟩
  · rw [hx.found] at hn
    cases hn
  cases hx.found.symm.trans hfn
  rw [hx.uri,hx.source] at hf
  obtain ⟨ps,hps⟩ := resolveRounds_reads hr
  have hat := at?_modifyAt_below
    (f := fun _ => { answered s m with children := m.children ++ marked.children }) hx.found []
  rw [append_nil] at hat
  obtain ⟨m',hm',hs⟩ := resolveRounds_stays hr hat (not_awaits_answered .final s m _)
  refine ⟨s,_,ps,hf,hps,m',hm',?_⟩
  rw [hs.attribute?]
  change (answered s m).attribute? "content" = _
  rw [answered,attribute?_set_ne _ (by decide),attribute?_set]

inductive Carries (source : String) : String → List Extracted → List Element → Prop
  | nil {path : String} : Carries source path [] []
  | code {path : String} {xs : List Extracted} {e : Element} {es : List Element} :
      waiting .final e = [] → Carries source path xs es → Carries source path xs (e :: es)
  | marker {path : String} {x : Extracted} {xs : List Extracted} {e m : Element} {a : Address}
      {es : List Element} :
      Refers source path x e a m → Carries source "" xs es → Carries source path (x :: xs) (e :: es)

def resolveSources (store : Store) (trees : List (List Element)) : Act Shelf (List (List Element)) :=
  trees.mapM fun es => es.mapM (resolveAll .final store)

inductive Answers : List Section → List Element → List Element → Prop
  | nil : Answers [] [] []
  | code {ss : List Section} {e : Element} {es es' : List Element} :
      waiting .final e = [] → Answers ss es es' → Answers ss (e :: es) (e :: es')
  | marker {s : Section} {ss : List Section} {e e' : Element} {a : Address} {es es' : List Element} :
      waiting .final e = [a] → Shows e' a s → Answers ss es es' →
      Answers (s :: ss) (e :: es) (e' :: es')

lemma Answers.append {ss ts : List Section} {fs fs' : List Element} (h : Answers ss es es')
  (h' : Answers ts fs fs') : Answers (ss ++ ts) (es ++ fs) (es' ++ fs') := by
  induction h with
  | nil => exact h'
  | code hw _ ih => exact .code hw ih
  | marker hw hs _ ih => exact .marker hw hs ih

lemma resolveSource_ok {xs : List Extracted} (hes : Carries src path xs es)
  (h : (es.mapM (resolveAll .final st)).perform sh = (.ok es',sh')) : ∃ ms found, ms.map Prod.fst = xs ∧
    (followMarkers st src path ms).perform sh = (.ok found,sh') ∧ Answers found es es' := by
  induction hes generalizing es' sh with
  | nil =>
    cases h
    exact ⟨[],[],rfl,rfl,.nil⟩
  | @code path xs e es hw _ ih =>
    rw [mapM_cons,Act.perform_bind (resolveAll_settled hw sh)] at h
    obtain ⟨es1,sh1,hr,rfl,rfl⟩ := Act.map_ok h
    obtain ⟨ms,found,hm,hrn,ha⟩ := ih hr
    exact ⟨ms,found,hm,hrn,.code hw ha⟩
  | @marker path x xs e m a es hx _ ih =>
    rw [mapM_cons] at h
    obtain ⟨e1,sh1,hf,hr⟩ := Act.bind_ok h
    obtain ⟨es1,sh2,hl,rfl,rfl⟩ := Act.map_ok hr
    obtain ⟨s,sh3,ps,hfn,hps,hs⟩ := resolveAll_ok hx hf
    obtain ⟨ms,found,rfl,hrn,ha⟩ := ih hl
    exact ⟨(x,ps) :: ms,s :: found,rfl,followMarkers_cons_ok_iff.mpr ⟨s,found,_,_,rfl,hfn,hps,hrn⟩,
      .marker hx.waiting hs ha⟩

end Tree

namespace Shelf.Moved

open Docweave.Tree Files Docweave.Shelf

variable {store st : Store} {sh sh' : Shelf}

structure Alike (f f' : Moved) : Prop where
  source : f'.source = f.source
  reference : f'.reference = f.reference
  file : f'.file = f.file
  comments : f'.comments = f.comments

lemma resolveSources_ok {fs : List Moved} {trees trees' : List (List Element)}
  (ht : Forall₂ (fun f es => Carries f.source f.reference f.comments es) fs trees)
  (h : (resolveSources st trees).perform sh = (.ok trees',sh')) :
  ∃ fs' found, Forall₂ Alike fs fs' ∧ (followAll st fs').perform sh = (.ok found,sh') ∧
    Answers found.flatten trees.flatten trees'.flatten := by
  induction ht generalizing trees' sh with
  | nil =>
    cases h
    exact ⟨[],[],.nil,rfl,.nil⟩
  | @cons f es fs trees hes _ ih =>
    rw [resolveSources,mapM_cons] at h
    obtain ⟨es',sh1,hf,hr⟩ := Act.bind_ok h
    obtain ⟨trees1,sh2,hl,rfl,rfl⟩ := Act.map_ok hr
    obtain ⟨marks,found,hm,hru,ha⟩ := resolveSource_ok hes hf
    obtain ⟨fs',founds,hfs',hrn,ha'⟩ := ih hl
    refine ⟨{ f with marks } :: fs',found :: founds,.cons ⟨rfl,rfl,rfl,hm⟩ hfs',?_,ha.append ha'⟩
    rw [followAll,Act.perform_bind hru,Act.perform_bind hrn]
    rfl

theorem markers_find_own_iff {fs : List Moved} (hfs : ∀ f ∈ fs, f.IsExtracted store) :
    ((∃ found shelf, (followAll store fs).perform {} = (.ok found, shelf) ∧
      List.Forall₂ Owns fs found) ↔
      ∀ before f after, fs = before ++ f :: after →
        (∀ x ∈ f.comments.head?, Leads store f.source f.reference f.file x) ∧
        (∀ x ∈ f.comments, x.Quiet) ∧ (f.comments.map Extracted.name).Nodup ∧
        (∀ m ∈ f.marks, ∀ p ∈ m.2, Loadable store p) ∧
        ∀ x ∈ f.comments.tail, Unclaimed store (before.flatMap loads ++ f.loads) f.file x) ∧
    ∀ trees trees' shelf, List.Forall₂ (fun f es => Carries f.source f.reference f.comments es) fs
      trees →
      (resolveSources store trees).perform {} = (.ok trees', shelf) →
      ∃ fs' found, List.Forall₂ Alike fs fs' ∧
        (followAll store fs').perform {} = (.ok found, shelf) ∧
        Answers found.flatten trees.flatten trees'.flatten := by
  refine ⟨?_, fun trees trees' shelf htrees hrun => resolveSources_ok htrees hrun⟩
  rw [followAll_own_iff (stocked_nil store)]
  refine forall_congr' fun before => forall_congr' fun f => forall_congr' fun after =>
    imp_congr_right fun hsplit => ?_
  have hf : f.IsExtracted store := hfs f (by rw [hsplit]; simp)
  rw [nil_append]
  constructor
  · rintro ⟨hsettled, hloadable, hunclaimed⟩
    obtain ⟨hleads, hquiet, hnodup⟩ := hf.settled_iff.mp hsettled
    exact ⟨hleads, hquiet, hnodup, hloadable, hunclaimed⟩
  · rintro ⟨hleads, hquiet, hnodup, hloadable, hunclaimed⟩
    exact ⟨hf.settled_iff.mpr ⟨hleads, hquiet, hnodup⟩, hloadable, hunclaimed⟩

section

open Job

variable {path src : String} {xs : List Extracted} {f : Moved} {x : Extracted}

def sourceTrees (store : Store) (source : String) : Except Fault (List Element) := do
  (← sourceElements source (store.lines source)).mapM fun e => do
    return dropStage "lines" (← parseExtract "extract" "markdown" e)

def plainReport (path : String) : Report :=
  { path, extension := none, overwrote := true, extract := true }

def twoSources : Job where
  settings := { adHoc := true }
  store :=
    { home := [], folders := [[],["d"]]
      files := [(["d","a.h"],.text "/** a */\n/** b */\n"),(["d","b.h"],.text "\n/** c */\n")] }

def halfMoved : Job := ((overwriteOne (plainReport "d/a.h")).perform twoSources).2

def bothMoved : Job := ((overwriteOne (plainReport "d/b.h")).perform halfMoved).2

def firstMoved : Moved :=
  ⟨"d/a.h","./a.md","/d/a.md",[(⟨1,1,some "a "⟩,[]),(⟨2,2,some "b "⟩,[])],rfl⟩

def secondMoved : Moved :=
  ⟨"d/b.h","./b.md","/d/b.md",[(⟨2,2,some "c "⟩,[])],rfl⟩

lemma isExtracted_of (text tgt new : String) {j j' : Job}
  (hj : j' = ((overwriteOne (plainReport f.source)).perform j).2)
  (hmd : ".md".toList <:+ tgt.toList) (hm : Comment.Marked f.reference f.comments new)
  (hc : j.settings.dryRun = false ∧ (j.store.read f.source).toOption = some (.text text) ∧
    ((overwriteOne (plainReport f.source)).perform j).1.toOption.map Report.extractPath =
      some (some (some tgt)) ∧
    (sourceComments (Path.Simple.of f.source).text (Content.text text).lines).toOption =
      some f.comments ∧
    (j'.store.read f.source).toOption = some (.text new) ∧
    (st.read f.file).toOption = (j'.store.read tgt).toOption ∧
    (j'.store.read tgt).toOption.isSome) :
  f.IsExtracted st := by
  obtain ⟨hd,hrd,hrn,hcm,hn,hf,ht⟩ := hc
  obtain ⟨r',hr',htg⟩ := Option.map_eq_some_iff.mp hrn
  obtain ⟨c,hc⟩ := Option.isSome_iff_exists.mp ht
  exact ⟨j,plainReport f.source,r',j',text,tgt,new,rfl,rfl,hd,ok_of_toOption hrd,
    Prod.ext (ok_of_toOption hr') hj.symm,htg,hmd,ok_of_toOption hcm,ok_of_toOption hn,hm,
    (ok_of_toOption (hf.trans hc)).trans (ok_of_toOption hc).symm⟩

lemma firstMoved_isExtracted : firstMoved.IsExtracted bothMoved.store :=
  isExtracted_of "/** a */\n/** b */\n" "d/a.md" ("/** " ++ Comment.marker "./a.md" ⟨1,1,some "a "⟩ ++
      ("*/\n/** " ++ Comment.marker "" ⟨2,2,some "b "⟩ ++ "*/\n"))
    halfMoved.eq_def (by decide) (.cons _ _ _ (.cons _ _ _ (.nil _))) (by decide +kernel)

lemma secondMoved_isExtracted : secondMoved.IsExtracted bothMoved.store :=
  isExtracted_of "\n/** c */\n" "d/b.md" ("\n/** " ++ Comment.marker "./b.md" ⟨2,2,some "c "⟩ ++ "*/\n")
    bothMoved.eq_def (by decide) (.cons _ _ _ (.nil _)) (by decide +kernel)

lemma leads_of {ref file : String} (h : (Uri.parse (slashed (x.uri ref))).toOption.map (fun parts =>
    (parts.fragment,(fileOf st parts (some src)).toOption)) = some (x.name,some (some file))) :
  Leads st src ref file x := by
  obtain ⟨parts,hp,hl⟩ := Option.map_eq_some_iff.mp h
  obtain ⟨hfr,hf⟩ := Prod.mk.inj hl
  exact ⟨parts,ok_of_toOption hp,hfr,ok_of_toOption hf⟩

def references (e : Element) : List (Option String × Option String) :=
  (waiting .final e).map fun a =>
    ((e.at? a).bind (·.attribute? "uri"),(e.at? a).bind (·.attribute? "source"))

lemma refers_of {e : Element} (h : references e = [(some (x.uri path),some src)]) :
  ∃ a m, Refers src path x e a m := by
  obtain ⟨a,hw,hp⟩ := map_eq_singleton_iff.mp h
  obtain ⟨hu,hs⟩ := Prod.mk.inj hp
  obtain ⟨m,hm,hu⟩ := Option.bind_eq_some_iff.mp hu
  rw [hm] at hs
  exact ⟨a,m,hw,hm,hu,hs⟩

def areMarkers (source : String) :
    String → List Extracted → List (List (Option String × Option String)) → Bool
  | _, xs, [] => xs.isEmpty
  | path, xs, [] :: rest => areMarkers source path xs rest
  | _, [], (_ :: _) :: _ => false
  | path, x :: xs, (r :: rs) :: rest =>
    r :: rs == [(some (x.uri path),some source)] && areMarkers source "" xs rest

lemma carries_of {es : List Element} (h : areMarkers src path xs (es.map references)) :
    Carries src path xs es := by
  induction es generalizing path xs with
  | nil =>
    rw [map_nil,areMarkers,List.isEmpty_iff] at h
    exact h ▸ .nil
  | cons e es ih =>
    rw [map_cons] at h
    cases hr : references e with
    | nil =>
      rw [hr] at h
      exact .code (map_eq_nil_iff.mp hr) (ih h)
    | cons r rs =>
      rw [hr] at h
      cases xs with
      | nil => cases h
      | cons x xs =>
        rw [areMarkers,Bool.and_eq_true,beq_iff_eq] at h
        obtain ⟨a,m,hrf⟩ := refers_of (hr.trans h.1)
        exact .marker hrf (ih h.2)

lemma carried_of {found : Except Fault (List Element)}
  (h : found.toOption.map (fun es => areMarkers f.source f.reference f.comments
    (es.map references)) = some true) :
  ∃ es, found = .ok es ∧ Carries f.source f.reference f.comments es := by
  obtain ⟨es,hes,hm⟩ := Option.map_eq_some_iff.mp h
  exact ⟨es,ok_of_toOption hes,carries_of hm⟩

abbrev Checked (store : Store) (f : Moved) (x : Extracted) : Prop :=
  (Uri.parse (slashed (x.uri f.reference))).toOption.map (fun parts =>
    (parts.fragment,(fileOf store parts (some f.source)).toOption)) = some (x.name,some (some f.file)) ∧
  (∀ x ∈ f.comments, x.Quiet) ∧ (f.comments.map Extracted.name).Nodup ∧
  (sourceTrees store f.source).toOption.map (fun es =>
    areMarkers f.source f.reference f.comments (es.map references)) = some true

lemma moved_checked : Checked bothMoved.store firstMoved ⟨1,1,some "a "⟩ ∧
    Checked bothMoved.store secondMoved ⟨2,2,some "c "⟩ := by
  decide +kernel

lemma firstMoved_then_second (pre : List Moved) (f : Moved) (after : List Moved)
  (h : [firstMoved,secondMoved] = pre ++ f :: after) :
  (∀ x ∈ f.comments.head?, Leads bothMoved.store f.source f.reference f.file x) ∧
    (∀ x ∈ f.comments, x.Quiet) ∧ (f.comments.map Extracted.name).Nodup ∧
    (∀ m ∈ f.marks, ∀ p ∈ m.2, Loadable bothMoved.store p) ∧
    ∀ x ∈ f.comments.tail, Unclaimed bothMoved.store (pre.flatMap loads ++ f.loads) f.file x := by
  rcases pre with _ | ⟨g,_ | ⟨g',pre⟩⟩
  · cases h
    obtain ⟨⟨hl,hq,hn,-⟩,-⟩ := moved_checked
    refine ⟨?_,hq,hn,
      forall_mem_cons.mpr ⟨forall_mem_nil _,forall_mem_singleton.mpr (forall_mem_nil _)⟩,fun x _ p
        hp => (by cases hp)⟩
    rintro x ⟨rfl⟩
    exact leads_of hl
  · obtain ⟨rfl,hr⟩ := cons.inj h
    cases hr
    obtain ⟨-,hl,hq,hn,-⟩ := moved_checked
    refine ⟨?_,hq,hn,forall_mem_singleton.mpr (forall_mem_nil _),forall_mem_nil _⟩
    rintro x ⟨rfl⟩
    exact leads_of hl
  · simp at h

lemma firstMoved_carried : ∃ es, sourceTrees bothMoved.store "d/a.h" = .ok es ∧
  Carries firstMoved.source firstMoved.reference firstMoved.comments es :=
  carried_of moved_checked.1.2.2.2

lemma secondMoved_carried : ∃ es, sourceTrees bothMoved.store "d/b.h" = .ok es ∧
  Carries secondMoved.source secondMoved.reference secondMoved.comments es :=
  carried_of moved_checked.2.2.2.2

end

theorem markers_find_own_iff_at_two_sources :
    (∀ f ∈ [firstMoved, secondMoved], f.IsExtracted bothMoved.store) ∧
    (∃ found shelf, (followAll bothMoved.store [firstMoved, secondMoved]).perform {} =
      (.ok found, shelf) ∧ List.Forall₂ Owns [firstMoved, secondMoved] found) ∧
    ∃ es es', sourceTrees bothMoved.store "d/a.h" = .ok es ∧
      sourceTrees bothMoved.store "d/b.h" = .ok es' ∧
      ∀ trees shelf, (resolveSources bothMoved.store [es, es']).perform {} = (.ok trees, shelf) →
        ∃ fs found, List.Forall₂ Alike [firstMoved, secondMoved] fs ∧
          (followAll bothMoved.store fs).perform {} = (.ok found, shelf) ∧
          Answers found.flatten [es, es'].flatten trees.flatten := by
  have hfs : ∀ f ∈ [firstMoved, secondMoved], f.IsExtracted bothMoved.store :=
    forall_mem_cons.mpr ⟨firstMoved_isExtracted,
      forall_mem_singleton.mpr secondMoved_isExtracted⟩
  obtain ⟨hown, hresolves⟩ := markers_find_own_iff hfs
  obtain ⟨es, hes, hcarry⟩ := firstMoved_carried
  obtain ⟨es', hes', hcarry'⟩ := secondMoved_carried
  exact ⟨hfs, hown.mpr firstMoved_then_second, es, es', hes, hes', fun trees shelf =>
    hresolves _ trees shelf (.cons hcarry (.cons hcarry' .nil))⟩

theorem markers_mixed_up_at_two_sources :
    (∀ f ∈ [secondMoved, firstMoved], f.IsExtracted bothMoved.store) ∧
    ¬ ∃ found shelf, (followAll bothMoved.store [secondMoved, firstMoved]).perform {} =
      (.ok found, shelf) ∧ List.Forall₂ Owns [secondMoved, firstMoved] found := by
  refine ⟨forall_mem_cons.mpr ⟨secondMoved_isExtracted,
    forall_mem_singleton.mpr firstMoved_isExtracted⟩, fun hown => ?_⟩
  have hfits := (followAll_own_iff (stocked_nil _)).mp hown [secondMoved] firstMoved [] rfl
  have hlast : (⟨2, 2, some "b "⟩ : Extracted) ∈ firstMoved.comments.tail := by
    simp [firstMoved, comments]
  have hnames : namesIn bothMoved.store secondMoved.file = ["line-2-2"] := by
    rw [namesIn, secondMoved_isExtracted.sections]
    decide +kernel
  have hearlier : secondMoved.file ∈ ([] ++ [secondMoved].flatMap loads ++ firstMoved.loads).takeWhile
      (· ≠ firstMoved.file) := by
    decide
  refine hfits.unclaimed _ hlast _ hearlier ?_
  rw [hnames]
  decide +kernel

-- Names tell lines only: comments of two sources may share theirs.
example : (⟨2, 2, some "b "⟩ : Extracted).name = (⟨2, 2, some "c "⟩ : Extracted).name := by
  decide +kernel

end Shelf.Moved

end Docweave
