import Docweave.Proofs.Jobs.UnmarkedDrawing

namespace Docweave

open List

section

variable {α β γ : Type} {f : α → Except Fault β} {xs : List α} {ys : List β} {zs : List γ}

lemma mapM_then {g : β → Except Fault γ} (h : xs.mapM f = .ok ys) (h' : ys.mapM g = .ok zs) :
    xs.mapM (fun x => f x >>= g) = .ok zs := by
  rw [mapM_ok_iff] at h h' ⊢
  refine forall₂_comp (fun x y z hxy hyz => ?_) h h'
  rw [hxy]
  exact hyz

end

namespace Job

open Element Docweave.Tree Comment Files

variable {src name : String} {path : Path.Simple} {s s' : Job} {es : List Element}

section

def Placed (store : Store) (path : Path.Simple) (stage : String) : Prop :=
  ∃ target place, xmlPath path stage = .ok target ∧ store.target target.text = .ok place

lemma Placed.follows (h : Placed s.store path name) (hf : Follows s s') : Placed s'.store path name := by
  obtain ⟨tgt,loc,hp,ht⟩ := h
  exact ⟨tgt,loc,hp,hf.store.target ht⟩

instance : Act.Frame Follows := ⟨.refl,.trans⟩

lemma withShelf_follows {α : Type} (f : Store → Act Shelf α) : (withShelf f).Keeps Follows :=
  fun _ => ⟨rfl,rfl,rfl⟩

def Places {α : Type} (path : Path.Simple) (stages : List String) (a : Act Job α) : Prop :=
  ∀ s x s', a.perform s = (.ok x,s') → Follows s s' ∧ ∀ stage ∈ stages, Placed s'.store path stage

lemma writeXml_places (stage : String) (es : List Element) : Places path [stage] (writeXml path stage es) := by
  intro s _ s' h
  obtain ⟨tgt,text,store,hp,-,hw,rfl⟩ := writeXml_ok_iff.mp h
  obtain ⟨loc,ht,hc,-⟩ := Store.write_ok hw
  refine ⟨⟨rfl,hc.folders⟩,fun stage' hs => ?_⟩
  obtain rfl := mem_singleton.mp hs
  exact ⟨tgt,loc,hp,hc.folders.target ht⟩

lemma places_of_keeps {α : Type} {a : Act Job α} (h : a.Keeps Follows) : Places path [] a :=
  fun _ _ _ hr => ⟨h.of_perform hr,forall_mem_nil _⟩

lemma Places.bind {α β : Type} {a : Act Job α} {f : α → Act Job β} {first rest : List String}
    (ha : Places path first a) (hf : ∀ x, Places path rest (f x)) : Places path (first ++ rest) (a >>= f) := by
  intro s y s' h
  obtain ⟨x,s1,hx,hr⟩ := Act.bind_ok h
  obtain ⟨f1,hfr⟩ := ha _ _ _ hx
  obtain ⟨f2,hl⟩ := hf x _ _ _ hr
  refine ⟨f1.trans f2,fun stage hs => ?_⟩
  rcases mem_append.mp hs with hm | hm
  · exact (hfr stage hm).follows f2
  · exact hl stage hm

lemma stagewise_places : Stagewise dry fun stages _ a => Places path stages a where
  pure x := places_of_keeps (Act.keeps_pure x)
  fail fault := places_of_keeps (Act.keeps_fail fault)
  shelf f := places_of_keeps (withShelf_follows f)
  get _ hf := fun s => hf s s
  bind ha hf h := h ▸ ha.bind hf

lemma renderStaged_placed {out : List (Element × String)} {counts : List (String × Nat)}
    (h : (renderStaged src).perform s = (.ok (out,counts),s')) : Follows s s' ∧ Writable s'.store (.of src) :=
  stagewise_places.renderStaged (fun stage _ => writeXml_places stage) _ _ _ h

end

variable {out : List (Element × String)} {counts : List (String × Nat)} {text : String} {ps : List Passage}
  {ws : List String}

lemma renderStaged_ok (h : (renderStaged src).perform s = (.ok (out,counts),s')) : ∃ es1 es2 es3 s2 s3,
    sourceElements (Path.Simple.of src).text (s.store.lines (Path.Simple.of src).text) = .ok es1 ∧
    es1.mapM readDraft = .ok es2 ∧ Beside s s2 ∧
    (es2.mapM fun e => withShelf (resolveAll .final · e)).perform s2 = (.ok es3,s3) ∧
    es3.mapM (draw s.settings.width s.settings.markers) = .ok out := by
  have hs := Act.get_bind_ok h
  obtain ⟨es1,s1,h1,h⟩ := Act.bind_ok hs
  obtain ⟨es2,s2,h2,h⟩ := Act.bind_ok h
  obtain ⟨es3,s3,h3,h⟩ := Act.bind_ok h
  obtain ⟨es4,s4,h4,h⟩ := Act.bind_ok h
  obtain ⟨es5,s5,h5,h⟩ := Act.bind_ok h
  obtain ⟨es6,s6,h6,h⟩ := Act.bind_ok h
  obtain ⟨out',s7,h7,h⟩ := Act.bind_ok h
  obtain ⟨_,s8,-,hp,-⟩ := Act.map_ok h
  cases hp
  obtain ⟨hes1,hb1⟩ := readComments_ok h1
  obtain ⟨hes2,hb2⟩ := plainStage_ok h2
  obtain ⟨made,s3',hm,hr⟩ := Act.bind_ok h3
  obtain ⟨_,s3'',-,hm'⟩ := Act.bind_ok hr
  obtain ⟨rfl,-⟩ := Act.pure_ok hm'
  have hf := mapM_then (plainStage_ok h6).1 (perform_mapM_ofExcept_ok h7).1
  have hl := mapM_then (plainStage_ok h5).1 hf
  exact ⟨es1,es2,made,s2,s3',hes1,hes2,hb1.trans hb2,hm,mapM_then (plainStage_ok h4).1 hl⟩

lemma injectStaged_ok {sheet : Sheet} (h : (injectStaged src).perform s = (.ok sheet,s')) :
    ∃ out, (renderStaged src).perform s = (.ok (out,sheet.counts),s') ∧
      sheet.text = String.join (out.map Prod.snd) := by
  obtain ⟨⟨out,counts⟩,s1,hr,rfl,rfl⟩ := Act.map_ok h
  exact ⟨out,hr,rfl⟩

lemma sourceElements_drafts (hs : IsSource text ps) (path : String) :
    ∃ es, sourceElements path (Content.text text).lines = .ok es ∧ Forall₂ (IsDrafted path) ps es := by
  obtain ⟨marked,es,hm,-,hes,hd⟩ := drafts_of_source hs path
  refine ⟨es,?_,hd⟩
  rw [sourceElements,hm]
  exact hes

lemma renderStaged_draws (hrd : s.store.read (Path.Simple.of src).text = .ok (.text text))
    (hsr : IsSource text ps)
  (hb : Unmarked ps) (h : (renderStaged src).perform s = (.ok (out,counts),s')) :
  Forall₂ (Draws s.settings.width (Path.Simple.of src).text) ps (out.map Prod.snd) := by
  obtain ⟨es1,es2,es3,s2,s3,hes1,hes2,-,hes3,hwr⟩ := renderStaged_ok h
  obtain ⟨es,hes,hd⟩ := sourceElements_drafts hsr (Path.Simple.of src).text
  rw [Store.lines,hrd] at hes1
  obtain rfl : es = es1 := Except.ok.inj (hes.symm.trans hes1)
  have hpr : Forall₂ (fun p e' => ∃ e, (p ∈ ps ∧ IsDrafted (Path.Simple.of src).text p e) ∧
      readDraft e = .ok e') ps es2 :=
    forall₂_comp (fun p e e' hp he => ⟨e,hp,he⟩)
      (forall₂_imp hd fun p hp e he => And.intro hp he) ((mapM_ok_iff _ _ _).mp hes2)
  have hs : ∀ e' ∈ es2, waiting .final e' = [] := by
    intro e' he'
    obtain ⟨p,-,e,⟨hp,he⟩,hr⟩ := forall₂_mem_right hpr he'
    exact (sketched_of_readDraft he hb hp hr).settled
  obtain ⟨s4,hrn,-⟩ := resolveEach_settled (s := s2) hs
  obtain ⟨hsm,-⟩ := Prod.mk.inj (hrn.symm.trans hes3)
  obtain rfl : es2 = es3 := Except.ok.inj hsm
  rw [forall₂_map_right_iff]
  refine forall₂_comp (fun p e' w hp hw => ?_) hpr ((mapM_ok_iff _ _ _).mp hwr)
  obtain ⟨e,⟨hm,he⟩,hr⟩ := hp
  exact (draws_iff he hb hm).mpr ⟨e',w,hr,hw,rfl⟩

lemma complete_drafted {e : Element} {p : Passage} {src : String} (h : IsDrafted src p e) :
    Throughout Complete e := by
  cases p with
  | code n cs => exact throughout_leaf h.2 h.1.children
  | comment r => exact h.complete

lemma spelled_of_complete (h : ∀ e ∈ es, Throughout Complete e) : Spelled path es := by
  refine (xml_ok_iff _).mpr (throughout_iff.mpr ⟨?_,h⟩)
  intro a ha
  obtain rfl := mem_singleton.mp ha
  intro h
  cases h

lemma mapM_stageable {wd : Option Int} {markers : Bool} (h : Forall₂ (Stageable wd markers) es ws) :
    ∃ es1 es2 es3 out, es.mapM (liftSingles "paragraph" "contentLines") = .ok es1 ∧
      es1.mapM (liftTrees .final markers) = .ok es2 ∧ es2.mapM tidied = .ok es3 ∧
      es3.mapM (inked wd) = .ok out ∧ (∀ e ∈ es, Throughout Complete e) ∧
      (∀ e ∈ es1, Throughout Complete e) ∧ (∀ e ∈ es2, Throughout Complete e) ∧
      (∀ e ∈ es3, Throughout Complete e) ∧ (∀ e ∈ out.map Prod.fst, Throughout Complete e) ∧
      out.map Prod.snd = ws := by
  have ha {R : Element → String → Prop} {xs : List Element}
      (hxs : Forall₂ (fun e t => Throughout Complete e ∧ R e t) xs ws) : ∀ e ∈ xs, Throughout Complete e := by
    intro e he
    obtain ⟨t,-,hc,-⟩ := forall₂_mem_right hxs.flip he
    exact hc
  obtain ⟨es1,hes1,h1⟩ := mapM_of_forall₂ (h.imp fun _ _ hx => hx.2)
  obtain ⟨es2,hes2,h2⟩ := mapM_of_forall₂ (h1.imp fun _ _ hx => hx.2)
  obtain ⟨es3,hes3,h3⟩ := mapM_of_forall₂ (h2.imp fun _ _ hx => hx.2)
  obtain ⟨out,hwr,h4⟩ := mapM_of_forall₂ (h3.imp fun _ _ hx => hx.2)
  refine ⟨es1,es2,es3,out,hes1,hes2,hes3,hwr,ha h,ha h1,ha h2,ha h3,forall_mem_map.mpr fun w hw => ?_,?_⟩
  · obtain ⟨t,-,hc,-⟩ := forall₂_mem_right h4.flip hw
    exact hc
  · rw [← forall₂_eq_eq_eq,forall₂_map_left_iff]
    exact h4.imp fun w t hwt => hwt.2

def Drawable (s : Job) (source : String) (ps : List Passage) (ws : List String) : Prop :=
  ∀ es, Forall₂ (IsDrafted (Path.Simple.of source).text) ps es → ∃ es2, es.mapM readDraft = .ok es2 ∧
    (∀ e ∈ es2, Throughout Complete e) ∧ ∀ s2, Beside s s2 → ∃ es3 s3,
      (es2.mapM fun e => withShelf (resolveAll .final · e)).perform s2 = (.ok es3,s3) ∧
      Forall₂ (Stageable s.settings.width s.settings.markers) es3 ws

lemma renderStaged_stages (hr : s.store.read (Path.Simple.of src).text = .ok (.text text))
    (hsr : IsSource text ps) (hdr : Drawable s src ps ws) (hw : Writable s.store (.of src)) :
    ∃ out counts s', (renderStaged src).perform s = (.ok (out,counts),s') ∧ out.map Prod.snd = ws := by
  obtain ⟨marked,es,hm,hg,hes,hd⟩ := drafts_of_source hsr (Path.Simple.of src).text
  obtain ⟨es2,hes2,hc2,hrs⟩ := hdr es hd
  have hc : ∀ e ∈ es, Throughout Complete e := by
    intro e he
    obtain ⟨p,-,hp⟩ := forall₂_mem_right hd he
    exact complete_drafted hp
  have hl : Tree.readLines 4 (Path.Simple.of src).text (s.store.lines (Path.Simple.of src).text) =
    .ok marked := by
    rw [Store.lines,hr]
    exact hm
  obtain ⟨s1,run1,f1⟩ := readComments_run hl hes hw (spelled_of_complete hg) (spelled_of_complete hc)
  obtain ⟨s2,run2,f2⟩ := plainStage_run "_md" hes2 (hw.follows f1) (by decide) (spelled_of_complete hc2)
  have f2 := f1.trans f2
  obtain ⟨es3,s3',ha,hs⟩ := hrs s2 ((readComments_ok run1).2.trans (plainStage_ok run2).2)
  obtain ⟨es4,es5,es6,out,hes4,hes5,hes6,hwr,c3,c4,c5,c6,c7,ht⟩ := mapM_stageable hs
  have hpl : Stagewise dry fun stages _ a => Places (.of src) stages a := stagewise_places
  obtain ⟨f3',-⟩ := hpl.mapM (fun _ => hpl.shelf _) es2 _ _ _ ha
  obtain ⟨s3,run3,f3⟩ := stage_run "_resolved" ha f3' (hw.follows f2) (by decide) (spelled_of_complete c3)
  have f3 := f2.trans f3
  obtain ⟨s4,run4,f4⟩ := plainStage_run "_single" hes4 (hw.follows f3) (by decide) (spelled_of_complete c4)
  have f4 := f3.trans f4
  obtain ⟨s5,run5,f5⟩ := plainStage_run "_trees" hes5 (hw.follows f4) (by decide) (spelled_of_complete c5)
  have f5 := f4.trans f5
  obtain ⟨s6,run6,f6⟩ := plainStage_run "_manipulated" hes6 (hw.follows f5) (by decide) (spelled_of_complete c6)
  obtain ⟨s7,run7,-⟩ := writeXml_run "_output" (hw.follows (f5.trans f6)) (by decide) (spelled_of_complete c7)
  refine ⟨out,countTags [] es,s7,?_,ht⟩
  have run2' : (plainStage (.of src) "_md" (fun e => do
      return dropStage "lines" (← parseExtract "extract" "markdown" e)) es).perform s1 = (.ok es2,s2) := run2
  rw [renderStaged,Act.perform_get_bind,Act.perform_bind run1,Act.perform_bind run2',
    Act.perform_bind run3,Act.perform_bind run4,Act.perform_bind run5]
  change (plainStage (.of src) "_manipulated" tidied es5 >>= _).perform s5 = _
  rw [Act.perform_bind run6]
  change (es6.mapM (fun e => Act.ofExcept (inked s.settings.width e)) >>= _).perform s6 = _
  rw [Act.perform_bind (Act.perform_mapM_ofExcept hwr),Act.perform_bind run7]
  rfl

lemma injectStaged_draws (hrd : s.store.read (Path.Simple.of src).text = .ok (.text text))
    (hsr : IsSource text ps)
  (hb : Unmarked ps) (hdw : Forall₂ (Draws s.settings.width (Path.Simple.of src).text) ps ws)
  (hw : Writable s.store (.of src)) :
  ∃ sheet s', (injectStaged src).perform s = (.ok sheet,s') ∧ sheet.text = String.join ws := by
  have hdr : Drawable s src ps ws := by
    intro es hd
    have hst : Forall₂ (fun e t => ∃ e', readDraft e = .ok e' ∧ Sketched e' ∧
        Stageable s.settings.width s.settings.markers e' t) es ws :=
      forall₂_join hd hdw fun p hp e t he ht => by
        obtain ⟨e',w,hr,hw,rfl⟩ := (draws_iff he hb hp).mp ht
        have hs := sketched_of_readDraft he hb hp hr
        exact ⟨e',hr,hs,hs.stageable hw⟩
    obtain ⟨es2,hes2,hsk⟩ := mapM_of_forall₂ hst
    have ha : ∀ e ∈ es2, Sketched e := by
      intro e he
      obtain ⟨t,-,hs,-⟩ := forall₂_mem_right hsk.flip he
      exact hs
    refine ⟨es2,hes2,fun e he => (ha e he).complete,fun s2 _ => ?_⟩
    obtain ⟨s3,hru,-⟩ := resolveEach_settled (s := s2) fun e he => (ha e he).settled
    exact ⟨es2,s3,hru,hsk.imp fun _ _ h => h.2⟩
  obtain ⟨out,counts,s',hrn,htx⟩ := renderStaged_stages hrd hsr hdr hw
  refine ⟨⟨String.join (out.map Prod.snd),counts⟩,s',?_,by rw [htx]⟩
  rw [injectStaged,Act.perform_bind hrn]
  rfl

lemma unreferring_of_checked (h : (readMarkdown "markdown" text).toOption.map (fun m =>
    m.descendants.all fun x => x.tag != "doc_uri") = some true) : Unreferring text := by
  intro m hm x hx
  rw [hm] at h
  have ha : (m.descendants.all fun x => x.tag != "doc_uri") := Option.some.inj h
  simpa using all_eq_true.mp ha x hx

lemma unmarked_singleton {r : Remark} (h : Unreferring (String.ofList r.words)) : Unmarked [.comment r] := by
  intro r' hr'
  obtain rfl := Passage.comment.inj (mem_singleton.mp hr')
  exact h

lemma draws_singleton {wd : Option Int} {r : Remark} {w : String}
    (h : (drawn wd "a" r.mark.indent.length (String.ofList r.words)).toOption = some w) :
    Forall₂ (Draws wd (Path.Simple.of "a").text) [.comment r] [w] := by
  exact .cons (ok_of_toOption h) .nil

end Job

end Docweave
