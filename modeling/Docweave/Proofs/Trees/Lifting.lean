import Docweave.Proofs.Markdown.Paragraphs
import Docweave.Proofs.Trees.LiftingOrder

namespace Docweave.Tree

open Element Markup List

def page (blocks : List Element) : Element := { tag := "markdown", children := blocks }

def holding (e : Element) (text : String) (blocks : List Element) : Element :=
  { e with children := [{ tag := "extract", text := some text },page blocks] }

def paragraphOf (spans : List Element) : Element := make "paragraph" [("newlines","2")] none spans

def pointing (e : Element) (text : String) (ref : Element) : Element := holding e text [paragraphOf [ref]]

structure IsResolved (lines : String) (blocks : List Element) (ref : Element) : Prop where
  resolved : ref.value? "resolved" = some (.text (isTrue true))
  lines : ref.value? "contentLines" = some (.text lines)
  children : ref.children = blocks
  complete : Complete ref

def IsSingle (blocks : List Element) : Prop := blocks = [] ∨ ∃ first rest, blocks = [paragraphOf (first :: rest)]

section

variable {e ref ref' : Element} {text : String} {bs : List Element} {ls : String}

lemma liftSingles_pointing (e : Element) (text : String) (ref : Element) :
  ∃ n, liftSingles "paragraph" "contentLines" (pointing e text ref) =
    (changeDown (liftSingle "paragraph" "contentLines") (n + 1) ref).bind fun ref' =>
      .ok (pointing e text ref') := by
  obtain ⟨n,hsz⟩ : ∃ n, (pointing e text ref).size = n + 3 := by
    refine ⟨ref.size + 1,?_⟩
    simp only [pointing,holding,page,paragraphOf,make,size,sizes]
    omega
  refine ⟨n,?_⟩
  have hk : (pointing e text ref).children = [{ tag := "extract", text := some text },
    page [paragraphOf [ref]]] := rfl
  have hp : changeDown (liftSingle "paragraph" "contentLines") (n + 3) (page [paragraphOf [ref]]) =
      (changeDown (liftSingle "paragraph" "contentLines") (n + 1) ref).bind fun ref' =>
        .ok (page [paragraphOf [ref']]) := by
    rw [changeDown,liftSingle_fixed rfl,ok_bind,show (page [paragraphOf [ref]]).children =
      [paragraphOf [ref]] from rfl,
      mapM_cons,changeDown,liftSingle_fixed rfl,ok_bind,show (paragraphOf [ref]).children =
        [ref] from rfl,mapM_cons]
    cases changeDown (liftSingle "paragraph" "contentLines") (n + 1) ref <;> rfl
  rw [liftSingles,liftSinglesWith,hsz,hk,mapM_cons,mapM_cons,hp]
  cases changeDown (liftSingle "paragraph" "contentLines") (n + 1) ref <;> rfl

lemma liftSingle_of_pointing {x : Element}
  (h : liftSingles "paragraph" "contentLines" (pointing e text ref) = .ok x) :
  ∃ ref', liftSingle "paragraph" "contentLines" ref = .ok ref' := by
  obtain ⟨n,hr⟩ := liftSingles_pointing e text ref
  rw [hr] at h
  obtain ⟨changed,hc,-⟩ := bind_ok h
  obtain ⟨ref',href',-⟩ := bind_ok hc
  exact ⟨ref',href'⟩

lemma IsResolved.setLines (h : IsResolved ls bs ref) (ls' : String) (bs' : List Element) :
    IsResolved ls' bs' { ref.set "contentLines" ls' with children := bs' } :=
  ⟨(value?_set_ne ref (by decide) ls').trans h.resolved,value?_set ref _ _,rfl,complete_set h.complete _ _⟩

lemma liftSingle_long (h : IsResolved ls bs ref) (hl : ls ≠ "1") :
  liftSingle "paragraph" "contentLines" ref = .ok ref := by
  have hv : ref.value? "contentLines" ≠ some (.text "1") := by
    rw [h.lines]
    exact fun heq => hl (Value.text.inj (Option.some.inj heq))
  rw [liftSingle,if_pos hv]
  rfl

lemma liftSingle_nothing (h : IsResolved "1" [] ref) :
    liftSingle "paragraph" "contentLines" ref = .ok { ref.set "contentLines" "zero" with children := [] } := by
  rw [liftSingle,h.lines]
  cases ref with | mk tag attributes text tail children =>
  obtain rfl : children = [] := h.children
  rfl

lemma isSingle_of_liftSingle (h : IsResolved "1" bs ref) (htp : ∀ c ∈ bs, IsTop c)
  (hr : liftSingle "paragraph" "contentLines" ref = .ok ref') : IsSingle bs := by
  rw [liftSingle,h.lines,if_neg (by decide),h.children] at hr
  rcases bs with _ | ⟨child,_ | ⟨second,rest⟩⟩
  · exact .inl rfl
  · dsimp only at hr
    split at hr
    · obtain ⟨_,-,hr⟩ := bind_ok hr
      cases hr
    next ht =>
      obtain ⟨hm,-⟩ := (htp child mem_cons_self).paragraph (not_not.mp ht)
      cases hk : child.children with
      | nil =>
        rw [hk] at hr
        cases hr
      | cons first rest =>
        rw [hk] at hm
        exact .inr ⟨first,rest,congrArg (· :: []) hm⟩
  · obtain ⟨_,-,hr⟩ := bind_ok hr
    cases hr

end

section

variable {e ref : Element} {text : String} {bs : List Element}

lemma forest_pointing : forest [] 0 (pointing e text ref).children =
    ([0],{ tag := "extract", text := some text }) :: ([1],page [paragraphOf [ref]]) ::
      ([1,0],paragraphOf [ref]) :: ([1,0,0],ref) :: forest [1,0,0] 0 ref.children := by
  cases ref
  simp [pointing,holding,page,paragraphOf,make,forest,nodes]

lemma firstGrandchild?_pointing (h : ref.has "resolved") :
  firstGrandchild? Edition.final.isReference (pointing e text ref) = some ([1],0,0) := by
  have hp : Edition.final.isReference (paragraphOf [ref]) = false := rfl
  have href : Edition.final.isReference ref := h
  rw [firstGrandchild?,forest_pointing]
  simp [hp,href]

lemma spanContained_blocks {spans : List Element}
  (h : ∀ c ∈ bs, c.attribute? "layout" = none ∧ c.value? "resolved" = none) :
  spanContained .final (paragraphOf spans) bs = .ok ([],bs) := by
  cases bs with
  | nil => rfl
  | cons c rest =>
    obtain ⟨hl,hr⟩ := h c mem_cons_self
    have hc : canContain .final (paragraphOf spans) c = .ok false := by
      rw [canContain,has,hl,hr]
      rfl
    rw [spanContained,hc]
    rfl

lemma spanContained_spans {par : Element} (h : ∀ c ∈ bs, c.attribute? "layout" = some "span") :
  spanContained .final par bs = .ok (bs,[]) := by
  induction bs with
  | nil => rfl
  | cons c rest ih =>
    rw [forall_mem_cons] at h
    have hc : canContain .final par c = .ok true := if_pos (.inl h.1)
    rw [spanContained,hc,ih h.2]
    rfl

lemma liftReference_blocks (h : ∀ c ∈ ref.children, c.attribute? "layout" = none ∧ c.value? "resolved" = none) :
  liftReference .final false 0 0 (page [paragraphOf [ref]]) =
    .ok (page (ref.children.map (noteLift .final "grandparent"))) := by
  rw [liftReference_eq (p := paragraphOf [ref]) rfl rfl,marksOf,if_neg Bool.false_ne_true,pure_bind]
  dsimp only
  rw [spanContained_blocks h]
  cases ref.children with
  | nil => rfl
  | cons c rest => simp [page,paragraphOf,make,placed]

lemma liftReference_spans (h : ∀ c ∈ ref.children, c.attribute? "layout" = some "span")
    (hne : ref.children ≠ []) :
  liftReference .final false 0 0 (page [paragraphOf [ref]]) =
    .ok (page [paragraphOf (ref.children.map (noteLift .final "parent"))]) := by
  rw [liftReference_eq (p := paragraphOf [ref]) rfl rfl,marksOf,if_neg Bool.false_ne_true,pure_bind]
  dsimp only
  rw [spanContained_spans h]
  simpa [page,paragraphOf,make,placed] using hne

lemma liftTrees_pointing (href : ref.has "resolved")
  (hl : liftReference .final false 0 0 (page [paragraphOf [ref]]) = .ok (page bs))
  (hb : ∀ c ∈ bs, Throughout (fun x => x.value? "resolved" = none) c) :
  liftTrees .final false (pointing e text ref) = liftTrees .final false (holding e text bs) := by
  have hn : firstGrandchild? Edition.final.isReference (holding e text bs) = none :=
    firstGrandchild?_unresolved (throughout_panel rfl rfl (throughout_iff.mpr ⟨rfl,hb⟩))
  have hc : changeAt (liftReference .final false 0 0) [1] (pointing e text ref) = .ok (holding e text bs) := by
    rw [changeAt,show (pointing e text ref).at? [1] = some (page [paragraphOf [ref]]) from rfl]
    dsimp only
    rw [hl]
    rfl
  have hs (n : Nat) : onGrandchildren Edition.final.isReference (liftReference .final false) n
      (holding e text bs) = .ok (holding e text bs) := by
    cases n with
    | zero => rfl
    | succ n => rw [onGrandchildren,hn]
  rw [liftTrees,liftTrees,onGrandchildren,firstGrandchild?_pointing href]
  dsimp only
  rw [hc,ok_bind,hs,hs]

end

section

open Comment

variable {wd : Option Int} {path text body : String} {r : Remark} {e ref ref' : Element}
  {bs : List Element} {ls : String}

structure Lifts (ref ref' : Element) (blocks : List Element) : Prop where
  single : liftSingle "paragraph" "contentLines" ref = .ok ref'
  resolved : ref'.has "resolved" = true
  complete : Complete ref'
  children : ∀ c ∈ ref'.children, Throughout Unlinked c
  lift : liftReference .final false 0 0 (page [paragraphOf [ref']]) = .ok (page blocks)
  lifted : ∀ c ∈ blocks, Throughout Unlinked c

namespace Lifts

variable (h : Lifts ref ref' bs)

include h

lemma liftSingles (e : Element) (text : String) :
  liftSingles "paragraph" "contentLines" (pointing e text ref) = .ok (pointing e text ref') := by
  obtain ⟨n,hr⟩ := liftSingles_pointing e text ref
  rw [hr,changeDown,h.single,ok_bind,mapM_changeDown_fixed n fun c hc =>
    (h.children c hc).imp fun _ hx => hx.single]
  cases ref'
  rfl

lemma liftTrees (e : Element) (text : String) :
  liftTrees .final false (pointing e text ref') = liftTrees .final false (holding e text bs) :=
  liftTrees_pointing h.resolved h.lift fun c hc => (h.lifted c hc).imp fun _ hx => hx.resolved

lemma isPanel (he : IsDraft path r e) (text : String) :
  IsPanel path r.mark.indent.length text (page bs) (holding e text bs) := isPanel_draft he ⟨bs,rfl,h.lifted⟩ text

lemma draw (he : IsDraft path r e) (text : String) :
  draw wd false (pointing e text ref) = draw wd false (holding e text bs) := by
  rw [Tree.draw,Tree.draw,h.liftSingles,liftSingles_untouched (h.isPanel he text).untouched,ok_bind,
    ok_bind,h.liftTrees]

end Lifts

lemma alike_note (name : String) (x : Element) (text : String) (hn : name ∈ notes := by decide) :
    Alike x (x.set name text) := by
  refine alike_iff.mpr ⟨⟨rfl,?_,fun _ => rfl,rfl⟩,forall₂_same.mpr fun c _ => .refl c⟩
  rw [Element.set,setValue,outline_setKey,if_pos hn]

lemma unlinked_note {name : String} {x : Element} (h : Throughout Unlinked x) (text : String)
    (hn : name ∉ telling := by decide) : Throughout Unlinked (x.set name text) := by
  obtain ⟨hx,hk⟩ := throughout_iff.mp h
  have hv {other : String} (ho : other ∈ telling) : (x.set name text).value? other = x.value? other := by
    have hne : other ≠ name := fun heq => hn (heq ▸ ho)
    exact value?_set_ne x hne text
  refine throughout_iff.mpr ⟨⟨complete_set hx.complete name text,?_,?_,hx.tag,?_,?_⟩,hk⟩
  · rw [AsksPlainly,hv (by decide)]
    exact hx.asks
  · rw [Literal,has,hv (by decide)]
    exact hx.literal
  · exact (hv (by decide)).trans hx.resolved
  · exact (hv (by decide)).trans hx.single

lemma forall₂_alike_map {f : Element → Element} (h : ∀ c ∈ bs, Alike c (f c)) : Forall₂ Alike bs (bs.map f) := by
  rw [forall₂_map_right_iff]
  exact forall₂_same.mpr h

lemma alike_paragraphOf {spans spans' : List Element} (h : Forall₂ Alike spans spans') :
  Alike (paragraphOf spans) (paragraphOf spans') :=
  alike_iff.mpr ⟨⟨rfl,rfl,fun _ => rfl,rfl⟩,h⟩

lemma lifts_blocks (hs : liftSingle "paragraph" "contentLines" ref = .ok ref') (h : IsResolved ls bs ref')
    (hb : ∀ c ∈ bs, Throughout Unlinked c) (ht : ∀ c ∈ bs, IsTop c) :
    Lifts ref ref' (bs.map (noteLift .final "grandparent")) where
  single := hs
  resolved := by rw [has,h.resolved]; rfl
  complete := h.complete
  children := h.children.symm ▸ hb
  lift := by
    rw [← h.children] at hb ht ⊢
    exact liftReference_blocks fun c hc => ⟨(ht c hc).layout,(throughout_iff.mp (hb c hc)).1.resolved⟩
  lifted := by
    intro c hc
    obtain ⟨x,hx,rfl⟩ := mem_map.mp hc
    exact unlinked_note (hb x hx) _

lemma lifts_paragraph {first : Element} {rest : List Element}
    (h : IsResolved "1" [paragraphOf (first :: rest)] ref)
    (hp : Throughout Unlinked (paragraphOf (first :: rest)))
    (htp : IsTop (paragraphOf (first :: rest))) :
    Lifts ref { ref.set "contentLines" "lifted" with
        children := first.set "liftedSingle" (isTrue true) :: rest }
      [paragraphOf ((first.set "liftedSingle" (isTrue true) :: rest).map (noteLift .final "parent"))] := by
  have hu : ∀ c ∈ first.set "liftedSingle" (isTrue true) :: rest, Throughout Unlinked c := by
    have hk := (throughout_iff.mp hp).2
    rw [show (paragraphOf (first :: rest)).children = first :: rest from rfl,forall_mem_cons] at hk
    exact forall_mem_cons.mpr ⟨unlinked_note hk.1 _,hk.2⟩
  have hsp : ∀ c ∈ first.set "liftedSingle" (isTrue true) :: rest, c.attribute? "layout" = some "span" := by
    have hs : ∀ c ∈ first :: rest, c.attribute? "layout" = some "span" := by
      intro c hc
      refine ((htp.paragraph rfl).2 c hc).resolve_right fun ht => ?_
      exact (throughout_iff.mp (hp.child hc)).1.tag (by simp [ht])
    rw [forall_mem_cons] at hs ⊢
    exact ⟨(attribute?_set_ne first (by decide) _).trans hs.1,hs.2⟩
  have hl := h.setLines "lifted" (first.set "liftedSingle" (isTrue true) :: rest)
  refine ⟨?_,?_,hl.complete,hu,?_,?_⟩
  · rw [liftSingle,h.lines,h.children]
    rfl
  · rw [has,hl.resolved]
    rfl
  · rw [liftReference_spans hsp (by simp)]
  · rw [forall_mem_singleton]
    refine throughout_iff.mpr ⟨unlinked_make ["newlines"] (by decide) rfl (by decide),fun c hc => ?_⟩
    obtain ⟨x,hx,rfl⟩ := mem_map.mp hc
    exact unlinked_note (hu x hx) _

lemma exists_lifts (h : IsResolved ls bs ref) (hb : ∀ c ∈ bs, Throughout Unlinked c) (ht : ∀ c ∈ bs, IsTop c)
  (hs : ls = "1" → IsSingle bs) : ∃ ref' bs', Lifts ref ref' bs' ∧ Forall₂ Alike bs bs' := by
  by_cases hl : ls = "1"
  · obtain rfl := hl
    rcases hs rfl with rfl | ⟨first,rest,rfl⟩
    · exact ⟨_,_,lifts_blocks (liftSingle_nothing h) (h.setLines "zero" []) hb ht,.nil⟩
    · rw [forall_mem_singleton] at hb ht
      refine ⟨_,_,lifts_paragraph h hb ht,.cons (alike_paragraphOf (.cons ?_ ?_)) .nil⟩
      · exact (alike_note "liftedSingle" first _).trans (alike_note "liftedTree" _ _)
      · exact forall₂_alike_map fun c _ => alike_note "liftedTree" c _
  · refine ⟨ref,_,lifts_blocks (liftSingle_long h hl) h hb ht,?_⟩
    exact forall₂_alike_map fun c _ => alike_note "liftedTree" c _

lemma draw_pointing_iff (he : IsDraft path r e) (hr : readMarkdown "markdown" body = .ok (page bs))
  (hb : ∀ c ∈ bs, Throughout Unlinked c) (h : IsResolved ls bs ref) {t : String} :
  (∃ w, draw wd false (pointing e text ref) = .ok w ∧ w.2 = t) ↔
    (ls = "1" → IsSingle bs) ∧ drawn wd path r.mark.indent.length body = .ok t := by
  have htp : ∀ c ∈ bs, IsTop c := isTop_readMarkdown hr
  have hbd : IsPanel path r.mark.indent.length body (page bs) (holding e body bs) :=
    isPanel_draft he ⟨bs,rfl,hb⟩ body
  have hsm {ref' : Element} {bs' : List Element} (hl : Lifts ref ref' bs') (ha : Forall₂ Alike bs bs') :
      (∃ w, draw wd false (pointing e text ref) = .ok w ∧ w.2 = t) ↔
        drawn wd path r.mark.indent.length body = .ok t := by
    have hp : Alike (holding e body bs) (holding e text bs') := by
      refine alike_iff.mpr ⟨⟨rfl,rfl,fun _ => rfl,rfl⟩,.cons rfl (.cons ?_ .nil)⟩
      exact alike_iff.mpr ⟨⟨rfl,rfl,fun _ => rfl,rfl⟩,ha⟩
    have hd : drawn wd path r.mark.indent.length body = .ok t ↔
        ∃ w, draw wd false (holding e body bs) = .ok w ∧ w.2 = t := drawn_ok_iff hr hbd
    rw [hd,hl.draw he text]
    constructor
    · rintro ⟨w,hw,rfl⟩
      exact draw_alike (hl.isPanel he text) hbd hp.symm hw
    · rintro ⟨w,hw,rfl⟩
      exact draw_alike hbd (hl.isPanel he text) hp hw
  constructor
  · rintro ⟨w,hw,ht⟩
    have hs : ls = "1" → IsSingle bs := by
      rintro rfl
      obtain ⟨singles,hsn,-⟩ := bind_ok hw
      obtain ⟨ref',href'⟩ := liftSingle_of_pointing hsn
      exact isSingle_of_liftSingle h htp href'
    obtain ⟨ref',bs',hl,ha⟩ := exists_lifts h hb htp hs
    exact ⟨hs,(hsm hl ha).mp ⟨w,hw,ht⟩⟩
  · rintro ⟨hs,hdr⟩
    obtain ⟨ref',bs',hl,ha⟩ := exists_lifts h hb htp hs
    exact (hsm hl ha).mpr hdr

end

section

open Comment

variable {wd : Option Int} {path text : String} {r : Remark} {e ref ref' : Element} {w : Element × String}
  {bs : List Element}

lemma complete_holding (he : IsDraft path r e) (text : String) (h : ∀ c ∈ bs, Throughout Complete c) :
  Throughout Complete (holding e text bs) := by
  have hn {x : Element} (hx : x.attributes = []) : Complete x := by
    intro a ha
    rw [hx] at ha
    cases ha
  exact throughout_iff.mpr ⟨(throughout_iff.mp he.complete).1,
    throughout_panel rfl (hn rfl) (throughout_iff.mpr ⟨hn rfl,h⟩)⟩

lemma complete_pointing (he : IsDraft path r e) (text : String) (h : Throughout Complete ref) :
  Throughout Complete (pointing e text ref) :=
  complete_holding he text (forall_mem_singleton.mpr
    (throughout_iff.mpr ⟨complete_make,forall_mem_singleton.mpr h⟩))

lemma complete_unlinked (h : ∀ c ∈ bs, Throughout Unlinked c) : ∀ c ∈ bs, Throughout Complete c :=
  fun c hc => (h c hc).imp fun _ hx => hx.complete

lemma Lifts.stageable (h : Lifts ref ref' bs) (he : IsDraft path r e) (href : Throughout Complete ref)
  (hw : Tree.draw wd false (pointing e text ref) = .ok w) : Stageable wd false (pointing e text ref) w.2 := by
  have hs := (h.isPanel he text).sketched
  rw [h.draw he text] at hw
  obtain ⟨-,htr,e3,ht,hi,hc3,hc'⟩ := hs.stages hw
  exact ⟨complete_pointing he text href,_,h.liftSingles e text,
    complete_pointing he text (throughout_iff.mpr ⟨h.complete,complete_unlinked h.children⟩),_,
    (h.liftTrees e text).trans htr,hs.complete,e3,ht,hc3,w,hi,hc',rfl⟩

end

section

variable {fs : Files.Store} {sh sh' : Shelf} {s : Section} {e m ref : Element} {text : String}
  {bs : List Element}

lemma not_awaits_of_value? {x : Element} (h : x.value? "resolved" = none) : ¬ Awaits .final x := by
  rintro ⟨-,hv⟩
  rw [h] at hv
  cases hv

lemma filter_awaits_unlinked {es : List Element} (h : ∀ c ∈ es, Throughout Unlinked c) (address : Address)
  (i : Nat) : (forest address i es).filter (fun p => Awaits .final p.2) = [] := by
  rw [filter_eq_nil_iff]
  intro p hp ha
  exact not_awaits_of_value? (forall_forest h p hp).resolved (of_decide_eq_true ha)

lemma waiting_pointing (href : ∀ c ∈ ref.children, Throughout Unlinked c) :
    waiting .final (pointing e text ref) = if Awaits .final ref then [[1,0,0]] else [] := by
  have hpr : ¬ Awaits .final (paragraphOf [ref]) := not_awaits_of_value? rfl
  have hp : ¬ Awaits .final (page [paragraphOf [ref]]) := not_awaits_of_value? rfl
  have he : ¬ Awaits .final { tag := "extract", text := some text } := not_awaits_of_value? rfl
  rw [waiting_eq,forest_pointing]
  simp only [filter_cons,hpr,hp,he,filter_awaits_unlinked href]
  by_cases h : Awaits .final ref <;> simp [h]

lemma resolveAll_pointing (e : Element) (text : String) (hl : m.children = [])
    (haw : m.value? "resolved" = some (.text (isTrue false)))
    (hfn : (Shelf.find fs (m.attribute? "uri") (m.attribute? "source")).perform sh = (.ok s,sh'))
    (ht : IsText fs s (page bs)) (hb : ∀ c ∈ bs, Throughout Unlinked c) :
    (resolveAll .final fs (pointing e text m)).perform sh =
      (.ok (pointing e text { answered s m with children := bs }),sh') := by
  have hf : waiting .final (pointing e text m) = [[1,0,0]] := by
    rw [waiting_pointing (by simp [hl]),if_pos ⟨fun h => absurd h (by decide),haw⟩]
  have hls : waiting .final (pointing e text { answered s m with children := bs }) = [] := by
    rw [waiting_pointing hb,if_neg (not_awaits_answered .final s m bs)]
  have hr : (resolveReference fs m).perform sh = (.ok { answered s m with children := bs },sh') := by
    refine resolveReference_ok_iff.mpr ⟨s,page bs,hfn,ht,?_⟩
    rw [hl]
    rfl
  have hrn : ([[1,0,0]].foldlM (resolveAt fs) (pointing e text m)).perform sh =
      (.ok (pointing e text { answered s m with children := bs }),sh') := by
    rw [foldlM_cons,Act.perform_bind (resolveAt_run (show (pointing e text m).at? [1,0,0] = some m from rfl) hr)]
    rfl
  have hru : (resolveAll .final fs (pointing e text m)).perform sh =
      (resolveRounds .final fs (2 * fs.size + sh.sections.length + 2) (pointing e text m)).perform sh := rfl
  rw [hru,resolveRounds,hf]
  rw [if_neg (by decide),Act.perform_bind hrn,resolveRounds,hls]
  rfl

lemma isResolved_answered (hc : Complete m) :
    IsResolved (toString s.lines.length) bs { answered s m with children := bs } := by
  refine ⟨value?_set _ _ _,?_,rfl,complete_set (complete_set (complete_set hc _ _) _ _) _ _⟩
  have hl : (answered s m).value? "contentLines" = some (.text (toString s.lines.length)) := by
    rw [answered,value?_set_ne _ (by decide),value?_set_ne _ (by decide),value?_set]
  exact hl

end

end Docweave.Tree
