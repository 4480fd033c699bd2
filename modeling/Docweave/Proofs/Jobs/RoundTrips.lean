import Docweave.Proofs.Jobs.DryReports
import Docweave.Proofs.Jobs.Repetition
import Docweave.Proofs.Markdown.MarkerText
import Docweave.Proofs.Sections.Histories
import Docweave.Proofs.Sections.MarkerRuns
import Docweave.Proofs.Sections.References
import Docweave.Proofs.Trees.Lifting

namespace Docweave

open List
open String (join ofList_toList ofList)

namespace Tree.Extracted

open Text Section Docweave.Shelf Files

structure Filed (store : Store) (file : String) (x : Extracted) (s : Section) : Prop where
  mem : s ∈ (sectionsOf store file).items
  name : s.name = x.name
  text : join s.lines = x.body ∨ join s.lines = x.body ++ "\n"
  count : s.lines.length = 1 ↔ '\n' ∉ x.body.toList

variable {fs : Store} {file src : String} {x : Extracted} {xs : List Extracted} {s : Section}
  {sh : Shelf}

lemma Filed.reads (h : Filed fs file x s) : x.ReadsAs s := by
  refine ⟨h.name,?_⟩
  rcases h.text with ht | ht
  · rw [ht]
  · rw [ht,dropEndNewlines_feed]

lemma Filed.readMarkdown (h : Filed fs file x s) (hr : '\r' ∉ x.body.toList) (tag : String) :
  readMarkdown tag (join s.lines) = readMarkdown tag x.body := by
  rcases h.text with ht | ht
  · rw [ht]
  · rw [ht,readMarkdown_feed hr]

lemma exists_filed {r : Job.Report} {tgt : String} (hcn : r.lineTypes = some [])
  (ht : r.extractPath = some (some tgt)) (hb : ∀ x ∈ xs, '\r' ∉ x.body.toList)
  (hr : fs.read file = .ok (.text (Job.extractHeader r ++ join (xs.map fragment))))
  (hq : ∀ x ∈ xs, x.Quiet) : ∀ x ∈ xs, ∃ s, Filed fs file x s := by
  intro x hx
  have hsc := read_extract hcn ht hb hr
  obtain ⟨s,hs,hn,hl⟩ := forall₂_mem_right (gather_quiet file hq).flip hx
  rw [← hsc] at hs
  have hc : s.lines.length = (fileLines (x.body ++ "\n")).length := by
    rcases hl with hl | hl
    · rw [hl]
    · rw [hl,length_closeLines]
  refine ⟨s,hs,hn,?_,by rw [hc,length_fileLines_feed]⟩
  rcases hl with hl | hl
  · exact .inr (by rw [hl,join_fileLines])
  have hj := join_closeLines (hb x hx)
  rw [ofList_toList] at hj
  refine .inl (Eq.trans ?_ hj)
  rw [hl,fileLines,String.toList_append]
  rfl

lemma find_later (hl : (loadFile fs file).perform {} = (.ok (),sh)) (h : Filed fs file x s) :
  (find fs (some (x.uri "")) (some src)).perform sh = (.ok s,sh) := by
  have hs : Stocked fs [file] sh := (stocked_nil fs).load hl
  refine ((later_finds_own_iff hs (mem_singleton_self file)).mpr ⟨rfl,?_,h.mem,h.reads⟩).1
  simp

end Tree.Extracted

namespace Tree

open Comment Element Markup Files Extracted

section

variable {path ref : String} {r : Remark} {x : Extracted}

def markerUri (path uri : String) : Element := (docUri uri).set "source" path

section

variable (path uri : String)

lemma children_markerUri : (markerUri path uri).children = [] := rfl

lemma resolved_markerUri : (markerUri path uri).value? "resolved" = some (.text (isTrue false)) := by
  rfl

lemma uri_markerUri : (markerUri path uri).attribute? "uri" = some uri := by
  rfl

lemma source_markerUri : (markerUri path uri).attribute? "source" = some path := attribute?_set _ _ _

lemma complete_markerUri : Complete (markerUri path uri) := complete_set complete_make _ _

end

lemma setSource_marker (path uri : String) :
  setSource (.text path) (page [paragraphOf [docUri uri]]) = .ok (page [paragraphOf [markerUri path uri]]) := by
  rfl

def Flush (r : Remark) : Prop := lineEnd r.mark.after = [] → r.lastIndent = []

instance (r : Remark) : Decidable (Flush r) := inferInstanceAs (Decidable (_ → _))

lemma Flush.trail (h : Flush r) : r.trail = [] ∨ r.trail = ['\n'] := by
  rw [Remark.trail]
  split
  · exact .inl (h ‹_›)
  · exact .inr rfl

structure Markable (path : String) : Prop where
  tight : Tight path.toList
  no_close : ¬ ['*','/'] <:+: path.toList

lemma markable_empty : Markable "" := ⟨forall_mem_nil _,inline_empty.no_close⟩

lemma Markable.inline (h : Markable path) : Inline path := by
  have hb {c : Char} (hc : Text.isBlank c = true) : c ∉ path.toList := by
    intro hm
    rw [(h.tight c hm).1] at hc
    cases hc
  exact ⟨hb (by decide),hb (by decide),hb (by decide),h.no_close⟩

lemma inline_name (x : Extracted) : Inline x.name := by
  refine Markable.inline ⟨tight_name x,fun hc => ?_⟩
  have hm : '*' ∈ x.name.toList := hc.subset mem_cons_self
  exact absurd (isNameChar_name x _ hm) (by decide)

lemma readMarkdown_label (hr : Markable ref) (x : Extracted) {tail : List Char}
    (ht : tail = [] ∨ tail = ['\n']) :
  readMarkdown "markdown" (ofList ((marker ref x).toList ++ tail)) =
    .ok (page [paragraphOf [docUri (x.uri ref)]]) := by
  have hrt : '\r' ∉ (marker ref x).toList := (inline_label hr.inline (inline_name x)).no_return
  have hm := readMarkdown_marker hr.tight x "markdown"
  rw [String.ofList_append,ofList_toList]
  rcases ht with rfl | rfl
  · exact (congrArg _ (String.append_empty)).trans hm
  · exact (readMarkdown_feed hrt "markdown").trans hm

end

section

variable {width wd : Option Int} {path ref t : String} {ps qs : List Passage}
  {p : Passage} {r q : Remark} {x : Extracted}
  {e : Element} {es : List Element} {store fs : Store} {file : String} {sh sh' : Shelf}

def Liftable (r : Remark) : Prop :=
  '\n' ∉ r.words → ∀ m, readMarkdown "markdown" (ofList r.words) = .ok m → IsSingle m.children

def sketch (block : Element) : String × Bool := (block.tag,block.children.isEmpty)

lemma isSingle_iff_sketch {bs : List Element} (htp : ∀ c ∈ bs, IsTop c) :
  IsSingle bs ↔ bs.map sketch = [] ∨ bs.map sketch = [("paragraph",false)] := by
  rw [map_eq_nil_iff,map_eq_singleton_iff]
  refine or_congr_right ⟨?_,?_⟩
  · rintro ⟨first,rest,rfl⟩
    exact ⟨_,rfl,rfl⟩
  rintro ⟨block,rfl,hb⟩
  obtain ⟨ht,hk⟩ := Prod.mk.inj hb
  obtain ⟨hm,-⟩ := (htp block mem_cons_self).paragraph ht
  obtain ⟨first,rest,hc⟩ := exists_cons_of_ne_nil (isEmpty_eq_false_iff.mp hk)
  rw [hc] at hm
  exact ⟨first,rest,congrArg (· :: []) hm⟩

lemma liftable_iff_sketch {shape : List (String × Bool)} (hf : '\n' ∉ r.words)
  (h : (readMarkdown "markdown" (ofList r.words)).toOption.map (·.children.map sketch) = some shape) :
  Liftable r ↔ shape = [] ∨ shape = [("paragraph",false)] := by
  obtain ⟨m,hm,rfl⟩ := Option.map_eq_some_iff.mp h
  have hr := ok_of_toOption hm
  rw [← isSingle_iff_sketch (isTop_readMarkdown hr)]
  constructor
  · exact fun hl => hl hf m hr
  · intro hs _ m' hm'
    rwa [← Except.ok.inj (hr.symm.trans hm')]

inductive Refilled (path : String) : Passage → Element → Prop
  | code {n n' : Nat} {cs : List Char} {e : Element} : IsDrafted path (.code n' cs) e →
    Refilled path (.code n cs) e
  | comment {r q : Remark} {e ref : Element} {text lines : String} {blocks : List Element} :
      IsDraft path q e → q.mark.indent = r.mark.indent →
      readMarkdown "markdown" (ofList r.words) = .ok (page blocks) →
      (∀ c ∈ blocks, Throughout Unlinked c) → IsResolved lines blocks ref → (lines = "1" ↔ '\n' ∉ r.words) →
      Refilled path (.comment r) (pointing e text ref)

lemma draw_refilled_iff (h : Refilled path p e) :
  (∃ w, draw wd false e = .ok w ∧ w.2 = t) ↔ (∀ r, p = .comment r → Liftable r) ∧ Draws wd path p t := by
  cases h with
  | code hc =>
    obtain ⟨hln,-⟩ := hc
    rw [draw_leaf hln.children hln.text]
    constructor
    · rintro ⟨w,hw,rfl⟩
      cases hw
      exact ⟨fun r hr => Passage.noConfusion hr,rfl⟩
    · rintro ⟨-,ht⟩
      exact ⟨_,rfl,ht.symm⟩
  | @comment r q e ref text lines bs he hi hrd hb href hl =>
    rw [draw_pointing_iff he hrd hb href,hi]
    refine and_congr_left fun _ => ⟨fun hs r' hr' hf m hm => ?_,fun hlf ho => ?_⟩
    · obtain rfl := Passage.comment.inj hr'
      cases hrd.symm.trans hm
      exact hs (hl.mpr hf)
    · exact hlf r rfl (hl.mp ho) _ hrd

lemma stageable_refilled {w : Element × String} (h : Refilled path p e) (hw : draw wd false e = .ok w) :
  Stageable wd false e w.2 := by
  have hlt := ((draw_refilled_iff h).mp ⟨w,hw,rfl⟩).1
  cases h with
  | code hc =>
    obtain ⟨hl,hcm⟩ := hc
    exact (sketched_leaf hl.children hl.text hcm).stageable hw
  | comment he hi hr hb href hln =>
    obtain ⟨ref',bs',hlf,-⟩ := exists_lifts href hb (isTop_readMarkdown hr) fun ho => hlt _ rfl (hln.mp ho) _ hr
    refine hlf.stageable he (throughout_iff.mpr ⟨href.complete,?_⟩) hw
    rw [href.children]
    exact complete_unlinked hb

structure FiledAway (store : Store) (file : String) (r : Remark) : Prop where
  flush : Flush r
  filed : ∃ s, Filed store file r.extracted s
  no_return : '\r' ∉ r.words
  reads : ∃ m, readMarkdown "markdown" (ofList r.words) = .ok m
  bare : Unreferring (ofList r.words)

lemma toString_eq_one_iff (n : Nat) : toString n = "1" ↔ n = 1 := by
  refine ⟨fun h => ?_,fun h => by rw [h]; rfl⟩
  have hw := Text.whole_toString n
  rw [h] at hw
  exact Int.ofNat.inj (Except.ok.inj (hw.symm.trans (Text.whole_toString 1)))

lemma readDraft_marker (h : IsDraft path q e) (hq : r.Rereads (marker ref x).toList q) (hf : Flush r)
  (hr : Markable ref) : ∃ text, readDraft e = .ok (pointing e text (markerUri path (x.uri ref))) := by
  refine ⟨_,(readDraft_ok_iff h).mpr ⟨_,_,?_,setSource_marker path _,rfl⟩⟩
  rw [hq.words]
  exact readMarkdown_label hr x hf.trail

lemma resolve_marker (h : IsDraft path q e) (hq : r.Rereads (marker ref r.extracted).toList q)
  (hk : FiledAway fs file r) (hr : Markable ref) (hfl : file ≠ "")
  (hfn : ∀ s, Filed fs file r.extracted s →
    (Shelf.find fs (some (r.extracted.uri ref)) (some path)).perform sh = (.ok s,sh')) :
  ∃ e2 e3, readDraft e = .ok e2 ∧ (resolveAll .final fs e2).perform sh = (.ok e3,sh') ∧
    Throughout Complete e2 ∧ Refilled path (.comment r) e3 := by
  obtain ⟨text,hd⟩ := readDraft_marker h hq hk.flush hr
  obtain ⟨s,hs⟩ := hk.filed
  obtain ⟨m,hm⟩ := hk.reads
  obtain ⟨bs,rfl,hb⟩ := unlinked_readMarkdown hm hk.bare
  have hbd : r.extracted.body.toList = r.words := String.toList_ofList
  have hp : s.path = file := Shelf.path_of_mem hs.mem
  have ht : IsText fs s (page bs) := by
    obtain ⟨rel,hrl⟩ := Path.relative_ok fs.cwd "." (hp.symm ▸ hfl)
    refine ⟨rel,page bs,hrl,?_,setSource_unlinked ⟨bs,rfl,hb⟩ _⟩
    exact (hs.readMarkdown (hbd.symm ▸ hk.no_return) "markdown").trans hm
  have hc := complete_markerUri path (r.extracted.uri ref)
  have hf := hfn s hs
  rw [← uri_markerUri path (r.extracted.uri ref),← source_markerUri path (r.extracted.uri ref)] at hf
  have hrs := resolveAll_pointing e text (children_markerUri path _) (resolved_markerUri path _) hf ht hb
  refine ⟨_,_,hd,hrs,?_,.comment h hq.indent hm hb (isResolved_answered hc) ?_⟩
  · exact complete_pointing h text (throughout_leaf hc (children_markerUri path _))
  · rw [toString_eq_one_iff,hs.count,hbd]

lemma resolve_marked (hrr : Rereads ps (labels ref ((extracts ps).map Extracted.name)) qs)
  (hd : Forall₂ (IsDrafted path) qs es) (hrf : Markable ref)
  (hk : ∀ r, .comment r ∈ ps → FiledAway fs file r) (hfl : file ≠ "")
  (hf : ∀ x ∈ (extracts ps).head?, ∀ s, Filed fs file x s →
    (Shelf.find fs (some (x.uri ref)) (some path)).perform sh = (.ok s,sh'))
  (hlt : ∀ x s, Filed fs file x s → (Shelf.find fs (some (x.uri "")) (some path)).perform sh' = (.ok s,sh')) :
  ∃ es2 es3 last, es.mapM readDraft = .ok es2 ∧ (es2.mapM (resolveAll .final fs)).perform sh = (.ok es3,last) ∧
    (∀ e ∈ es2, Throughout Complete e) ∧ Forall₂ (Refilled path) ps es3 := by
  induction ps generalizing ref qs es sh with
  | nil =>
    cases hrr
    cases hd
    exact ⟨[],[],sh,rfl,rfl,forall_mem_nil _,.nil⟩
  | cons p ps ih =>
    cases p with
    | code n cs =>
      cases hrr with
      | code hrr =>
        obtain ⟨e,es,hcd,ho,rfl⟩ := forall₂_cons_left_iff.mp hd
        obtain ⟨es2,es3,last,hrd,hrs,hc,hrl⟩ := ih hrr ho hrf (fun r hr => hk r (mem_cons_of_mem _ hr)) hf
        obtain ⟨hl,hw⟩ := hcd
        have hwt : waiting .final e = [] := waiting_untouched (untouched_leaf hl.children) .final
        refine ⟨e :: es2,e :: es3,last,mapM_cons_ok.mpr ⟨e,es2,readDraft_leaf hl.children,hrd,rfl⟩,
          ?_,forall_mem_cons.mpr ⟨throughout_leaf hw hl.children,hc⟩,
          .cons (.code ⟨hl,hw⟩) hrl⟩
        rw [mapM_cons,Act.perform_bind (resolveAll_settled hwt sh),Act.perform_bind hrs]
        rfl
    | comment r =>
      cases hrr with
      | comment hq hrr =>
        obtain ⟨e,es,hcm,ho,rfl⟩ := forall₂_cons_left_iff.mp hd
        obtain ⟨e2,e3,hdr,ha,hw,hre⟩ := resolve_marker hcm hq (hk r mem_cons_self) hrf hfl (hf r.extracted rfl)
        obtain ⟨es2,es3,last,hrd,hrs,hc,hrl⟩ := ih hrr ho markable_empty
          (fun r hr => hk r (mem_cons_of_mem _ hr)) fun x _ => hlt x
        refine ⟨e2 :: es2,e3 :: es3,last,mapM_cons_ok.mpr ⟨e2,es2,hdr,hrd,rfl⟩,?_,
          forall_mem_cons.mpr ⟨hw,hc⟩,.cons hre hrl⟩
        rw [mapM_cons,Act.perform_bind ha,Act.perform_bind hrs]
        rfl

end

end Tree

namespace Job

open Comment Element Docweave.Tree Files Extracted

section

variable {s : Job} {es es2 : List Element}

lemma perform_mapM_withShelf {f : Store → Element → Act Shelf Element} {σ σ' : Shelf} (hsh : s.shelf = some σ)
  (h : (es.mapM (f s.store)).perform σ = (.ok es2,σ')) :
  ∃ s', (es.mapM fun e => withShelf (f · e)).perform s = (.ok es2,s') := by
  induction es generalizing s σ es2 with
  | nil =>
    cases h
    exact ⟨s,rfl⟩
  | cons e es ih =>
    rw [mapM_cons] at h
    obtain ⟨e2,σ1,hf,hr⟩ := Act.bind_ok h
    obtain ⟨rest,σ2,hl,rfl,rfl⟩ := Act.map_ok hr
    have ho : (withShelf (f · e)).perform s = (.ok e2,{ s with shelf := some σ1 }) := by
      have hrn : (withShelf (f · e)).perform s = (((f s.store e).perform (s.shelf.getD {})).1,
          { s with shelf := some ((f s.store e).perform (s.shelf.getD {})).2 }) := rfl
      rw [hrn,hsh,Option.getD_some,hf]
    obtain ⟨s',hs'⟩ := ih (s := { s with shelf := some σ1 }) rfl hl
    refine ⟨s',?_⟩
    rw [mapM_cons,Act.perform_bind ho,Act.perform_bind hs']
    rfl

end

section

variable {src text reference ref file : String} {s s2 : Job} {ps qs : List Passage} {es es2 : List Element}
  {ws : List String}
variable {path : String} {es3 : List Element}

structure Parted (store : Store) (source reference file : String) (ps : List Passage) : Prop where
  marked : store.read source = .ok (.text (labelled ps (labels reference ((extracts ps).map Extracted.name))))
  markable : Markable reference
  dotted : reference.toList.head? = some '.'
  leads : ∀ x ∈ (extracts ps).head?, Shelf.Leads store source reference file x
  kept : ∀ r, .comment r ∈ ps → FiledAway store file r
  loadable : Shelf.Loadable store file
  placed : ∃ place c, Store.Holds store file place c ∧ ¬ IsXml place

lemma Parted.resolve (h : Parted s.store src ref file ps)
  (hrr : Rereads ps (labels ref ((extracts ps).map Extracted.name)) qs) (hd : Forall₂ (IsDrafted src) qs es)
  (hsh : s.shelf = some {}) (hb : Beside s s2) : ∃ es2 es3 s3, es.mapM readDraft = .ok es2 ∧
    (es2.mapM fun e => withShelf (resolveAll .final · e)).perform s2 = (.ok es3,s3) ∧
    (∀ e ∈ es2, Throughout Complete e) ∧ Forall₂ (Refilled src) ps es3 := by
  obtain ⟨loc,c,hh,hxm⟩ := h.placed
  have hre : s2.store.read file = s.store.read file := by
    rw [hh.read]
    exact (hh.same hb.folders (hb.others loc hxm)).read
  have hsc : Shelf.sectionsOf s2.store file = Shelf.sectionsOf s.store file := by
    rw [Shelf.sectionsOf,Shelf.sectionsOf,Store.lines,Store.lines,hre]
  have hf {x : Extracted} {t : Section} (ht : Filed s.store file x t) : Filed s2.store file x t :=
    ⟨hsc ▸ ht.mem,ht.name,ht.text,ht.count⟩
  have hk : ∀ r, .comment r ∈ ps → FiledAway s2.store file r := by
    intro r hr
    obtain ⟨hfl,⟨t,ht⟩,hrt,hrd,hbr⟩ := h.kept r hr
    exact ⟨hfl,⟨t,hf ht⟩,hrt,hrd,hbr⟩
  have hl : Shelf.Loadable s2.store file := by
    refine ⟨hsc ▸ h.loadable.sound,?_⟩
    rw [Shelf.namesIn,hsc]
    exact h.loadable.distinct
  have hfi : file ≠ "" := by
    rintro rfl
    cases hh.target
  obtain ⟨sh,hld⟩ := (Shelf.stocked_nil s2.store).load_ok_iff.mpr hl
  have hfr : ∀ x ∈ (extracts ps).head?, ∀ t, Filed s2.store file x t →
      (Shelf.find s2.store (some (x.uri ref)) (some src)).perform {} = (.ok t,sh) := by
    intro x hx t ht
    obtain ⟨parts,hp,hfg,hfileOf⟩ := h.leads x hx
    refine ((Shelf.first_finds_own_iff (Shelf.stocked_nil _) h.dotted).mpr ⟨⟨parts,hp,hfg,?_⟩,hld,
      ht.mem,ht.reads⟩).1
    rw [Shelf.fileOf_home hb.folders.home]
    exact hfileOf
  obtain ⟨es2,es3,last,hes2,hrn,hc,hrf⟩ := resolve_marked hrr hd h.markable hk hfi hfr fun x t ht =>
    find_later hld ht
  obtain ⟨s3,hs3⟩ := perform_mapM_withShelf (f := resolveAll .final) (hb.shelf.trans hsh) hrn
  exact ⟨es2,es3,s3,hes2,hs3,hc,hrf⟩

variable {out : List (Element × String)} {wd : Option Int}

lemma draws_unique {t t' : String} {p : Passage} (h : Draws wd path p t) (h' : Draws wd path p t') : t = t' := by
  cases p with
  | code n cs => exact Eq.trans h (Eq.symm h')
  | comment r => exact Except.ok.inj (Eq.trans (Eq.symm h) h')

lemma draw_each_refilled (h : Forall₂ (Refilled path) ps es3) (hd : Forall₂ (Draws wd path) ps ws)
  (hwr : es3.mapM (draw wd false) = .ok out) : (∀ r, .comment r ∈ ps → Liftable r) ∧ out.map Prod.snd = ws := by
  have hb : Forall₂ (fun p w => (∀ r, p = .comment r → Liftable r) ∧ Draws wd path p w.2) ps out := by
    refine forall₂_comp (fun p e w hp hw => ?_) h ((mapM_ok_iff _ _ _).mp hwr)
    exact (draw_refilled_iff hp).mp ⟨w,hw,rfl⟩
  refine ⟨fun r hr => ?_,?_⟩
  · obtain ⟨w,-,hl,-⟩ := forall₂_mem_right hb.flip hr
    exact hl r rfl
  · rw [← forall₂_eq_eq_eq,forall₂_map_left_iff]
    exact forall₂_join hb hd fun p _ w t hw ht => draws_unique hw.2 ht

lemma stageable_each_refilled (h : Forall₂ (Refilled path) ps es3) (hd : Forall₂ (Draws wd path) ps ws)
  (hl : ∀ r, .comment r ∈ ps → Liftable r) : Forall₂ (Stageable wd false) es3 ws := by
  refine forall₂_join h hd fun p hp e t he ht => ?_
  obtain ⟨w,hw,rfl⟩ := (draw_refilled_iff he).mpr ⟨fun r hr => hl r (hr ▸ hp),ht⟩
  exact stageable_refilled he hw

lemma injectStaged_parted (h : Parted s.store (Path.Simple.of src).text ref file ps)
  (hsr : IsSource text ps) (hm : s.settings.markers = false) (hs : s.shelf = some {})
  (hdr : Forall₂ (Draws s.settings.width (Path.Simple.of src).text) ps ws) :
  ((∃ sheet s', (injectStaged src).perform s = (.ok sheet,s')) ↔
    Writable s.store (.of src) ∧ ∀ r, .comment r ∈ ps → Liftable r) ∧
  ∀ sheet s', (injectStaged src).perform s = (.ok sheet,s') → sheet.text = join ws := by
  obtain ⟨qs,hqs,hrr,-⟩ := exists_source_labelled hsr (by rw [length_labels,length_map])
    (inline_labels h.markable.inline (forall_mem_map.mpr fun x _ => inline_name x))
  have hrn {sheet : Sheet} {s' : Job} (hi : (injectStaged src).perform s = (.ok sheet,s')) :
      (∀ r, .comment r ∈ ps → Liftable r) ∧ sheet.text = join ws := by
    obtain ⟨out,hr,htx⟩ := injectStaged_ok hi
    obtain ⟨es1,es2,es3,s2,s3,hes1,hes2,hb,hes3,hwr⟩ := renderStaged_ok hr
    obtain ⟨es,hes,hd⟩ := sourceElements_drafts hqs (Path.Simple.of src).text
    rw [Store.lines,h.marked] at hes1
    obtain rfl : es = es1 := Except.ok.inj (hes.symm.trans hes1)
    obtain ⟨es2',es3',s3',hes2',hes3',-,hrf⟩ := h.resolve hrr hd hs hb
    obtain rfl : es2' = es2 := Except.ok.inj (hes2'.symm.trans hes2)
    obtain rfl : es3' = es3 := Except.ok.inj (Prod.mk.inj (hes3'.symm.trans hes3)).1
    rw [hm] at hwr
    obtain ⟨hl,ht⟩ := draw_each_refilled hrf hdr hwr
    exact ⟨hl,by rw [htx,ht]⟩
  refine ⟨⟨?_,?_⟩,fun sheet s' hi => (hrn hi).2⟩
  · rintro ⟨sheet,s',hi⟩
    obtain ⟨out,hr,-⟩ := injectStaged_ok hi
    obtain ⟨hf,hw⟩ := renderStaged_placed hr
    have hbc : Follows s' s := ⟨hf.settings.symm,hf.store.symm⟩
    exact ⟨Writable.follows hw hbc,(hrn hi).1⟩
  · rintro ⟨hw,hl⟩
    have hdf : Drawable s src qs ws := by
      intro es hd
      obtain ⟨es2,es3,s3,hes2,-,hc,-⟩ := h.resolve hrr hd hs (.refl s)
      refine ⟨es2,hes2,hc,fun s2 hb => ?_⟩
      obtain ⟨es2',es3',s3',hes2',hes3',-,hrf⟩ := h.resolve hrr hd hs hb
      obtain rfl : es2' = es2 := Except.ok.inj (hes2'.symm.trans hes2)
      rw [hm]
      exact ⟨es3',s3',hes3',stageable_each_refilled hrf hdr hl⟩
    obtain ⟨out,counts,s',hr,-⟩ := renderStaged_stages h.marked hqs hdf hw
    refine ⟨⟨join (out.map Prod.snd),counts⟩,s',?_⟩
    rw [injectStaged,Act.perform_bind hr]
    rfl

end

section

open Store

variable {path text target tgt reference ref : String} {j j' : Job} {ps : List Passage}
  {loc : Place} {c : Content}
  {ws : List String} {r : Remark}

lemma isFolder_of_holds {fs : Store} (h : Holds fs path loc c) : fs.isFolder path = false := by
  obtain ⟨hl,hd⟩ := target_ok h.target
  rw [isFolder,hl]
  exact hd

lemma holds_of_locate {fs : Store} {file : String} (h : Holds fs tgt loc c)
  (hs : fs.locate file = fs.locate tgt) : Holds fs file loc c := by
  obtain ⟨hl,hd⟩ := target_ok h.target
  exact ⟨target_of_locate (hs.trans hl) hd,h.content⟩

structure Injects (j : Job) : Prop where
  extract : j.settings.extract = false
  trees : j.settings.adHoc = false
  wet : j.settings.dryRun = false
  events : j.events = []

lemma Injects.start (h : Injects j) (path : String) :
    (startExtract { given path false with lineTypes := some [] }).perform j =
      (.ok ((given path false).looked,none),j) := by
  rw [startExtract,Act.perform_get_bind]
  dsimp only
  rw [h.wet]
  rfl

/-- The job as a source of it is about to be written. -/
def opened (path : String) (j : Job) : Job := { j.scratched path with shelf := some (j.shelf.getD {}) }

lemma Injects.write (h : Injects j) (path : String) :
    (writeSource (given path false).looked none).perform (j.scratched path) =
      (injectStaged path).perform (j.opened path) := by
  have ht : (j.scratched path).settings.adHoc = false := h.trees
  rw [writeSource,Act.perform_get_bind]
  dsimp only
  rw [ht]
  have hs : (modify fun j => { j with shelf := some (j.shelf.getD {}) } : Act Job Unit).perform
    (j.scratched path) =
      (.ok (),j.opened path) := rfl
  exact Act.perform_bind hs fun _ => injectStaged path

section

variable (h : Injects j) (hr : j.store.read path = .ok (.text text))

include h hr

lemma Injects.of_run (hrn : (run [path]).perform j = (.ok (),j')) :
    ∃ sheet j₁, (injectStaged path).perform (j.opened path) = (.ok sheet,j₁) ∧
      j'.store.read path = .ok (.text sheet.text) := by
  obtain ⟨loc,hp⟩ := read_iff_holds.mp hr
  obtain ⟨r,k,ho,rfl⟩ := (run_one (isFolder_of_holds hp) h.events).mp hrn
  rw [h.extract] at ho
  obtain ⟨started,ref,sheet,old,fs,j₁,j2,hst,hs,-,hsr,-,rfl⟩ := writes_of_ok h.wet ho
  cases hst with
  | opens ha => exact absurd ha.extract Bool.false_ne_true
  | off =>
    obtain ⟨loc',ht,hc,hcn⟩ := write_ok hsr
    have hn : Holds fs path loc' (.text sheet.text) := ⟨hc.folders.target ht,hcn⟩
    exact ⟨sheet,j2,(h.write path).symm.trans hs,hn.read⟩

lemma Injects.draws (hsr : IsSource text ps) (hbr : Unmarked ps) (hru : (run [path]).perform j = (.ok (),j')) :
  ∃ ws, Forall₂ (Draws j.settings.width (Path.Simple.of path).text) ps ws ∧
    j'.store.read path = .ok (.text (join ws)) := by
  obtain ⟨sheet,j₁,hs,hb⟩ := h.of_run hr hru
  obtain ⟨out,hrn,ht⟩ := injectStaged_ok hs
  obtain ⟨_,hp⟩ := read_iff_holds.mp hr
  have hd := renderStaged_draws (s := j.opened path) hp.simple.read hsr hbr hrn
  exact ⟨_,hd,by rw [hb,ht]⟩

lemma Injects.run {sheet : Sheet} {j₁ : Job}
    (hs : (injectStaged path).perform (j.opened path) = (.ok sheet,j₁)) :
    ∃ j', (run [path]).perform j = (.ok (),j') := by
  obtain ⟨loc,hp⟩ := read_iff_holds.mp hr
  rw [← h.write] at hs
  have ht := writeSource_touches hs
  have hk : Holds j₁.store path loc (.text text) := by
    exact ht.holds hp (not_targetAt_none _ _)
  have hol : (j₁.store.lines (given path false).looked.path).toExcept = .ok (Content.text text).lines.items := by
    change (j₁.store.lines path).toExcept = _
    rw [Store.lines,hk.read]
    rfl
  obtain ⟨store,hst⟩ : ∃ store, j₁.store.write path sheet.text = .ok store :=
    ⟨_,write_of_target hk.target sheet.text⟩
  have hw : (changeStore (·.write path sheet.text)).perform j₁ = (.ok (),{ j₁ with store }) :=
    perform_changeStore hst
  have hwt : j₁.settings.dryRun = false := (congrArg Settings.dryRun ht.settings).trans h.wet
  have ho : (overwriteOne (given path false)).perform j =
      (.ok ((given path false).looked.written (Content.text text).lines.items sheet),
        { j₁ with store }.cleared) := by
    rw [overwriteOne,Act.perform_bind (h.start path)]
    refine perform_withScratch (k := { j₁ with store }) ?_
    change ((writeSource (given path false).looked none) >>= _).perform (j.scratched path) = _
    rw [Act.perform_bind hs,Act.perform_get_bind,Act.perform_ofExcept_bind hol,Act.perform_get_bind,hwt]
    exact Act.perform_bind hw fun _ =>
      pure ((given path false).looked.written (Content.text text).lines.items sheet)
  rw [← h.extract] at ho
  exact ⟨_,(run_one (isFolder_of_holds hp) h.events).mpr ⟨_,_,ho,rfl⟩⟩

end

lemma Injects.run_parted {file new : String} (h : Injects j) (hm : j.settings.markers = false)
  (hsh : j.shelf = none) (hsr : IsSource text ps) (hr : j.store.read path = .ok (.text new))
  (hp : Parted j.store (Path.Simple.of path).text ref file ps)
  (hd : Forall₂ (Draws j.settings.width (Path.Simple.of path).text) ps ws) :
  ((∃ j', (Job.run [path]).perform j = (.ok (),j')) ↔
    Writable j.store (.of path) ∧ ∀ r, .comment r ∈ ps → Liftable r) ∧
  ∀ j', (Job.run [path]).perform j = (.ok (),j') → j'.store.read path = .ok (.text (join ws)) := by
  have he : (j.opened path).shelf = some {} := by
    rw [opened,hsh]
    rfl
  obtain ⟨hi,ht⟩ := injectStaged_parted (s := j.opened path) hp hsr hm he hd
  refine ⟨⟨?_,fun hrg => ?_⟩,fun j' hrn => ?_⟩
  · rintro ⟨j',hrn⟩
    obtain ⟨sheet,j₁,hs,-⟩ := h.of_run hr hrn
    exact hi.mp ⟨sheet,j₁,hs⟩
  · obtain ⟨sheet,j₁,hs⟩ := hi.mpr hrg
    exact h.run hr hs
  · obtain ⟨sheet,j₁,hs,hb⟩ := h.of_run hr hrn
    rw [hb,ht sheet j₁ hs]

lemma readMarkdown_of_draws {wd : Option Int} (h : Forall₂ (Draws wd path) ps ws)
  (hr : .comment r ∈ ps) : ∃ m, readMarkdown "markdown" (ofList r.words) = .ok m := by
  obtain ⟨t,-,ht⟩ := forall₂_mem_right h.flip hr
  obtain ⟨m,hm,-⟩ := bind_ok ht
  exact ⟨m,hm⟩

section

variable (he : j.settings.extract) (ht : j.settings.adHoc = false) (hw : j.settings.dryRun = false)
  (hev : j.events = []) (hrd : j.store.read path = .ok (.text text)) (hsr : IsSource text ps)
  (hto : extractPath j.store j.settings.extractFolder path = .ok tgt) (hmd : ".md".toList <:+ tgt.toList)
  (hr : referencePath j.store j.settings.extractFolder path tgt = .ok ref)
  (hrn : (run [path]).perform j = (.ok (),j'))

include he ht hw hev hrd hsr hto hmd hr hrn

lemma run_extracts : ∃ started loc, started.lineTypes = some [] ∧
    started.extractPath = some (some tgt) ∧ ¬ IsXml loc ∧
    j'.store.read path = .ok (.text (labelled ps (labels ref ((extracts ps).map Extracted.name)))) ∧
    Holds j'.store tgt loc (.text (extractHeader started ++
      join ((extracts ps).map Extracted.fragment))) := by
  obtain ⟨_,hp⟩ := read_iff_holds.mp hrd
  obtain ⟨r,k,ho,rfl⟩ := (run_one (isFolder_of_holds hp) hev).mp hrn
  rw [he] at ho
  have ha : Aims { given path true with lineTypes := some [] } j tgt := ⟨hw,rfl,hto⟩
  have htg : r.extractPath = some (some tgt) := by
    obtain ⟨started,ref',sheet,old,fs,j₁,j2,hs,-,-,-,rfl,-⟩ := writes_of_ok hw ho
    cases hs.aimed ha with
    | made _ _ _ hrs =>
      obtain ⟨_,-,rfl,-⟩ := made_ok hrs
      rfl
  obtain ⟨started,ref',loc,ws,j₁,k1,k2,hs,hst,-,hx,hws,hwr,hf⟩ :=
    overwriteOne_moves rfl hw hrd hsr ho htg hmd
  have hc : started.lineTypes = some [] := by rw [hst]
  have hg : started.extractPath = some (some tgt) := by rw [hst]
  rw [hst] at hs
  obtain rfl : ref = ref' :=
    Except.ok.inj (hr.symm.trans (free_of_start ha hs).2.1)
  rw [ht] at hws
  rw [hws.labelled] at hwr
  exact ⟨started,loc,hc,hg,hx,hwr,hf⟩

lemma run_parts {file : String} (hm : Markable ref) (hbr : Unmarked ps) (hfl : ∀ r, .comment r ∈ ps → Flush r)
  (hrm : ∀ r, .comment r ∈ ps → ∃ m, readMarkdown "markdown" (ofList r.words) = .ok m)
  (hld : ∀ x ∈ (extracts ps).head?, Shelf.Leads j'.store (Path.Simple.of path).text ref file x)
  (hsm : j'.store.locate file = j'.store.locate tgt) (hb : Extracted.ReadsBack j'.store file (extracts ps)) :
  (∃ new, j'.store.read path = .ok (.text new)) ∧ Parted j'.store (Path.Simple.of path).text ref file ps := by
  obtain ⟨started,loc,hc,hg,hx,hmk,hfi⟩ :=
    run_extracts he ht hw hev hrd hsr hto hmd hr hrn
  obtain ⟨_,hp⟩ := read_iff_holds.mp hmk
  have hh := holds_of_locate hfi hsm
  have hrt := hsr.no_return
  have hq := ((Extracted.readsBack_iff hc hg hrt hh.read).mp hb).1
  have hf := exists_filed hc hg hrt hh.read hq
  have hk : ∀ r, .comment r ∈ ps → FiledAway j'.store file r := by
    intro r hr
    have hmm := mem_extracts.mpr ⟨r,hr,rfl⟩
    have hbd : r.extracted.body.toList = r.words := String.toList_ofList
    have hre := hrt r.extracted hmm
    rw [hbd] at hre
    exact ⟨hfl r hr,hf _ hmm,hre,hrm r hr,hbr r hr⟩
  have hl : Shelf.Loadable j'.store file := (Shelf.stocked_nil _).load_ok_iff.mp (hb.loads {})
  have hd := dotted_referencePath hto hr
  exact ⟨⟨_,hmk⟩,hp.simple.read,hm,hd,hld,hk,hl,loc,_,hh,hx⟩

end

def fresh (settings : Settings) (extract : Bool) (store : Store) : Job where
  settings := { settings with extract }
  store

variable {settings : Settings} {store fs : Store} {file : String} {j₁ : Job}

theorem extraction_then_injection_iff (htrees : settings.adHoc = false)
    (hwet : settings.dryRun = false)
    (hmarkers : settings.markers = false) (hread : store.read path = .ok (.text text))
    (hsource : IsSource text ps) (hbare : Unmarked ps) (hflush : ∀ r, .comment r ∈ ps → Flush r)
    (hto : extractPath store settings.extractFolder path = .ok target)
    (hmd : ".md".toList <:+ target.toList)
    (hreference : referencePath store settings.extractFolder path target = .ok reference)
    (hmarkable : Markable reference)
    (hextraction : (run [path]).perform (fresh settings true store) = (.ok (), j₁))
    (hleads : ∀ x ∈ (extracts ps).head?, Shelf.Leads j₁.store
      (Path.Simple.of path).text reference file x)
    (hsame : j₁.store.locate file = j₁.store.locate target)
    (hback : Extracted.ReadsBack j₁.store file (extracts ps))
    (hinjection : (run [path]).perform (fresh settings false store) = (.ok (), j)) :
    ((∃ j', (run [path]).perform (fresh settings false j₁.store) = (.ok (), j')) ↔
      Writable j₁.store (.of path) ∧ ∀ r, .comment r ∈ ps → Liftable r) ∧
    ∀ j', (run [path]).perform (fresh settings false j₁.store) = (.ok (), j') →
      j'.store.read path = j.store.read path := by
  have hinjects (store : Store) : Injects (fresh settings false store) :=
    ⟨rfl, htrees, hwet, rfl⟩
  obtain ⟨ws, hdraws, hdirect⟩ := (hinjects store).draws hread hsource hbare hinjection
  obtain ⟨⟨new, hnew⟩, hparted⟩ := run_parts (j := fresh settings true store) rfl htrees hwet rfl
    hread hsource hto hmd
    hreference hextraction hmarkable hbare hflush (fun r hr => readMarkdown_of_draws hdraws hr)
      hleads hsame hback
  rw [hdirect]
  exact (hinjects j₁.store).run_parted hmarkers rfl hsource hnew hparted hdraws

section

def wideSettings : Settings := { width := some 80 }

def movedJob (text : String) : Job :=
  ((run ["d/a.h"]).perform (fresh wideSettings true (extractJob text).store)).2

lemma paths_example (text : String) :
  extractPath (extractJob text).store wideSettings.extractFolder "d/a.h" = .ok "d/a.md" ∧
  referencePath (extractJob text).store wideSettings.extractFolder "d/a.h" "d/a.md" = .ok "./a.md" ∧
  Markable "./a.md" := by
  have hh : (extractJob text).store.home = (extractJob "").store.home := rfl
  have ht : "./a.md".toList.all (fun c => !Text.isBlank c && (c != ']' && c.toNat != 9252)) := by
    decide +kernel
  refine ⟨congrArg Except.ok (by decide +kernel),?_,fun c hc => ?_,by decide +kernel⟩
  · rw [referencePath_of_home hh]
    exact ok_of_toOption (by decide +kernel)
  · simpa using all_eq_true.mp ht c hc

structure MovedOut (text : String) (ps : List Passage) : Prop where
  run : (run ["d/a.h"]).perform (fresh wideSettings true (extractJob text).store) = (.ok (),movedJob text)
  leads : ∀ x ∈ (extracts ps).head?,
    Shelf.Leads (movedJob text).store (Path.Simple.of "d/a.h").text "./a.md" "/d/a.md" x
  same : (movedJob text).store.locate "/d/a.md" = (movedJob text).store.locate "d/a.md"
  back : Extracted.ReadsBack (movedJob text).store "/d/a.md" (extracts ps)

lemma movedOut_of_checked {x : Extracted} (hsr : IsSource text ps) (hf : (extracts ps).head? = some x)
  (hc : ((Job.run ["d/a.h"]).perform (fresh wideSettings true (extractJob text).store)).1.toOption = some () ∧
    (Uri.parse (Shelf.slashed (x.uri "./a.md"))).toOption.map (fun parts => (parts.fragment,
      (Shelf.fileOf (movedJob text).store parts (some (Path.Simple.of "d/a.h").text)).toOption)) =
        some (x.name,some (some "/d/a.md")) ∧ (movedJob text).store.locate "d/a.md" = .ok ["d","a.md"] ∧
    (movedJob text).store.locate "/d/a.md" = .ok ["d","a.md"])
  (hq : (∀ x ∈ extracts ps, x.Quiet) ∧ ((extracts ps).map Extracted.name).Nodup) : MovedOut text ps := by
  obtain ⟨hr,hl,hp,hp'⟩ := hc
  have he : (Job.run ["d/a.h"]).perform (fresh wideSettings true (extractJob text).store) =
      (.ok (),movedJob text) := by
    exact run_of_toOption hr
  have hs := hp'.trans hp.symm
  refine ⟨he,fun y hy => ?_,hs,?_⟩
  · cases hf.symm.trans hy
    exact Shelf.Moved.leads_of hl
  · obtain ⟨started,loc,hc,hg,-,-,hfl⟩ := run_extracts
      (j := fresh wideSettings true (extractJob text).store) rfl rfl rfl rfl (extractJob_read text) hsr
      (paths_example text).1 (by decide) (paths_example text).2.1 he
    exact (Extracted.readsBack_iff hc hg hsr.no_return (holds_of_locate hfl hs).read).mpr hq

lemma writable_example {fs : Store} (h : (extractJob "").store.SameFolders fs) : Writable fs (.of "d/a.h") := by
  intro stage hs
  obtain ⟨tgt,loc,hp,ht⟩ :=
    (writable_of_checked (by decide +kernel) : Writable (extractJob "").store (.of "d/a.h")) stage hs
  exact ⟨tgt,loc,hp,h.target ht⟩

lemma inject_example {ws : List String} (hsr : IsSource text ps) (hb : Unmarked ps)
  (hd : Forall₂ (Draws (some 80) "d/a.h") ps ws) :
  ∃ j, (run ["d/a.h"]).perform (fresh wideSettings false (extractJob text).store) = (.ok (),j) := by
  have hi : Injects (fresh wideSettings false (extractJob text).store) := ⟨rfl,rfl,rfl,rfl⟩
  obtain ⟨_,hp⟩ := read_iff_holds.mp (extractJob_read text)
  have hw : Writable (extractJob text).store (.of "d/a.h") := writable_example ⟨rfl,rfl⟩
  rw [← extractReport_path] at hd
  obtain ⟨sheet,j,hs,-⟩ := injectStaged_draws
    (s := (fresh wideSettings false (extractJob text).store).opened "d/a.h") hp.simple.read hsr hb hd hw
  exact hi.run (extractJob_read text) hs

structure Sample (text : String) (ps : List Passage) (ws : List String) : Prop where
  source : IsSource text ps
  bare : Unmarked ps
  flush : ∀ r, .comment r ∈ ps → Flush r
  draws : Forall₂ (Draws (some 80) "d/a.h") ps ws
  moved : MovedOut text ps

def listText : String := "/** a */\nint x;\n/** b\n * - c */\n"

def paragraphRemark : Remark := ⟨1,⟨[],true,['a',' ']⟩,[],some (1,none)⟩

def listRemark : Remark :=
  ⟨3,⟨[],true,['b','\n']⟩,[(4,⟨1,.starSpace,['-',' ','c',' ']⟩)],some (4,none)⟩

def listPassages : List Passage :=
  [.comment paragraphRemark,.code 1 ['\n'],.code 2 ['i','n','t',' ','x',';','\n'],.comment listRemark,
    .code 4 ['\n']]

lemma listPassages_comments {P : Remark → Prop} (hp : P paragraphRemark) (hl : P listRemark) :
  ∀ r, .comment r ∈ listPassages → P r := by
  intro r hr
  simp only [listPassages,mem_cons,Passage.comment.injEq,reduceCtorEq,not_mem_nil,or_false,false_or] at hr
  rcases hr with rfl | rfl
  · exact hp
  · exact hl

lemma listText_sample : Sample listText listPassages
  ["/** a\n */","\n","int x;\n","/** b\n * \n * -   c\n */","\n"] := by
  have hs : IsSource listText listPassages :=
    ⟨⟨.inl rfl,.inl rfl,.inl rfl,.inl rfl,.inl rfl,trivial⟩,by decide +kernel⟩
  have hp : Draws (some 80) "d/a.h" (.comment paragraphRemark) "/** a\n */" :=
    ok_of_toOption (by decide +kernel)
  have hl : Draws (some 80) "d/a.h" (.comment listRemark) "/** b\n * \n * -   c\n */" :=
    ok_of_toOption (by decide +kernel)
  refine ⟨hs,?_,listPassages_comments (by decide) (by decide),
    .cons hp (.cons rfl (.cons rfl (.cons hl (.cons rfl .nil)))),?_⟩
  · exact listPassages_comments (unreferring_of_checked (by decide +kernel))
      (unreferring_of_checked (by decide +kernel))
  · exact movedOut_of_checked hs rfl (by decide +kernel) (by decide +kernel)

end

theorem extraction_then_injection_iff_at_list : ∃ j₁ j j',
    (run ["d/a.h"]).perform (fresh wideSettings true (extractJob listText).store) = (.ok (), j₁) ∧
    (run ["d/a.h"]).perform (fresh wideSettings false (extractJob listText).store) = (.ok (), j) ∧
    (run ["d/a.h"]).perform (fresh wideSettings false j₁.store) = (.ok (), j') ∧
    j'.store.read "d/a.h" = j.store.read "d/a.h" := by
  have hsketch : (readMarkdown "markdown" (String.ofList paragraphRemark.words)).toOption.map
    (·.children.map sketch) =
      some [("paragraph", false)] := by
    decide +kernel
  have hlift : ∀ r, .comment r ∈ listPassages → Liftable r :=
    listPassages_comments ((liftable_iff_sketch (by decide) hsketch).mpr (.inr rfl))
      fun hfeed => absurd hfeed (by decide)
  have hfolders : (extractJob "").store.SameFolders (movedJob listText).store :=
    ⟨by decide +kernel, by decide +kernel⟩
  obtain ⟨hsource, hbare, hflush, hdraws, hextraction, hleads, hsame, hback⟩ := listText_sample
  obtain ⟨hto, hreference, hmarkable⟩ := paths_example listText
  obtain ⟨j, hinjection⟩ := inject_example hsource hbare hdraws
  obtain ⟨hiff, hequal⟩ := extraction_then_injection_iff rfl rfl rfl
    (extractJob_read listText) hsource hbare hflush hto
    (by decide) hreference hmarkable hextraction hleads hsame hback hinjection
  obtain ⟨j', hagain⟩ := hiff.mpr ⟨writable_example hfolders, hlift⟩
  exact ⟨movedJob listText, j, j', hextraction, hinjection, hagain, hequal j' hagain⟩

section

def titleText : String := "/** ## T */\n"

def titleRemark : Remark := ⟨1,⟨[],true,['#','#',' ','T',' ']⟩,[],some (1,none)⟩

def titlePassages : List Passage := [.comment titleRemark,.code 1 ['\n']]

lemma titlePassages_comment {P : Remark → Prop} (h : P titleRemark) : ∀ r, .comment r ∈ titlePassages → P r := by
  intro r hr
  simp only [titlePassages,mem_cons,Passage.comment.injEq,reduceCtorEq,not_mem_nil,or_false] at hr
  rwa [hr]

lemma titleText_sample : Sample titleText titlePassages ["/** ## T\n */","\n"] := by
  have hs : IsSource titleText titlePassages := ⟨⟨.inl rfl,.inl rfl,trivial⟩,by decide +kernel⟩
  have ht : Draws (some 80) "d/a.h" (.comment titleRemark) "/** ## T\n */" := ok_of_toOption (by decide +kernel)
  refine ⟨hs,titlePassages_comment (unreferring_of_checked (by decide +kernel)),
    titlePassages_comment (by decide),.cons ht (.cons rfl .nil),?_⟩
  exact movedOut_of_checked hs rfl (by decide +kernel) (by decide +kernel)

end

theorem injection_after_extraction_fails_at_heading : ∃ j₁ j,
    IsSource titleText titlePassages ∧ Unmarked titlePassages ∧
    (run ["d/a.h"]).perform (fresh wideSettings true (extractJob titleText).store) = (.ok (), j₁) ∧
    Extracted.ReadsBack j₁.store "/d/a.md" (extracts titlePassages) ∧
    (run ["d/a.h"]).perform (fresh wideSettings false (extractJob titleText).store) = (.ok (), j) ∧
    ∀ j', (run ["d/a.h"]).perform (fresh wideSettings false j₁.store) ≠ (.ok (), j') := by
  have hsketch : (readMarkdown "markdown" (String.ofList titleRemark.words)).toOption.map
    (·.children.map sketch) =
      some [("header", false)] := by
    decide +kernel
  have hlift : ¬ Liftable titleRemark := by
    rw [liftable_iff_sketch (by decide) hsketch]
    decide
  obtain ⟨hsource, hbare, hflush, hdraws, hextraction, hleads, hsame, hback⟩ := titleText_sample
  generalize movedJob titleText = j₁ at hextraction hleads hsame hback
  obtain ⟨hto, hreference, hmarkable⟩ := paths_example titleText
  obtain ⟨j, hinjection⟩ := inject_example hsource hbare hdraws
  rw [← extractReport_path] at hdraws
  obtain ⟨⟨new, hnew⟩, hparted⟩ := run_parts (j :=
    fresh wideSettings true (extractJob titleText).store) rfl rfl rfl rfl
    (extractJob_read titleText) hsource hto (by decide) hreference hextraction
      hmarkable hbare hflush
    (fun r hr => readMarkdown_of_draws hdraws hr) hleads hsame hback
  refine ⟨j₁, j, hsource, hbare, hextraction, hback, hinjection, fun j' hagain => ?_⟩
  have hinjects : Injects (fresh wideSettings false j₁.store) := ⟨rfl, rfl, rfl, rfl⟩
  obtain ⟨hiff, -⟩ := hinjects.run_parted rfl rfl hsource hnew hparted hdraws
  exact hlift ((hiff.mp ⟨j', hagain⟩).2 titleRemark mem_cons_self)

example : (readMarkdown "markdown" "a\n\n## T\n").toOption.map (·.children.map sketch) =
    some [("paragraph", false), ("header", false)] := by
  decide +kernel

end

end Job

end Docweave
