import Docweave.Proofs.Layout.DrawnComments
import Docweave.Proofs.Trees.Resolution

namespace Docweave

open List
open String (ofList)

namespace Element

variable {P : Element → Prop} {f : Element → Except Fault Element} {e : Element}

lemma mapHeads_fixed (h : Throughout (fun x => f x = .ok x) e) : mapHeads f e = .ok e := by
  induction e using byChildren with
  | step e ih =>
    obtain ⟨hh,hk⟩ := throughout_iff.mp h
    have hes : mapHeadsEach f e.children = .ok e.children :=
      mapHeadsEach_ok_iff.mpr (forall₂_same.mpr fun c hc => ih c hc (hk c hc))
    exact mapHeads_ok_iff.mpr ⟨e,e.children,hh,hes,by cases e; rfl⟩

lemma Throughout.deep (h : Throughout P e) : Throughout (fun x => P x ∧ ∀ c ∈ x.children, P c) e := by
  induction e using byChildren with
  | step e ih =>
    obtain ⟨hh,hk⟩ := throughout_iff.mp h
    exact throughout_iff.mpr ⟨⟨hh,fun c hc => (throughout_iff.mp (hk c hc)).1⟩,fun c hc => ih c hc (hk c hc)⟩

lemma Alike.symm {e' : Element} (h : Alike e e') : Alike e' e := Eq.symm h

lemma Alike.trans {a b c : Element} (hab : Alike a b) (hbc : Alike b c) : Alike a c := Eq.trans hbc hab

lemma Throughout.imp {Q : Element → Prop} (h : Throughout P e) (hi : ∀ x, P x → Q x) : Throughout Q e :=
  fun x hx => hi x (h x hx)

lemma value?_of_attributes {name : String} (h : ∀ a ∈ e.attributes, a.1 ≠ name) : e.value? name = none := by
  have hl : e.attributes.lookup name = none := by
    rw [lookup_eq_none_iff]
    intro a ha
    rw [bne_iff_ne]
    exact (h a ha).symm
  rw [value?,hl]

end Element

namespace Tree

open Element

structure Unlinked (e : Element) : Prop where
  complete : Complete e
  asks : AsksPlainly e
  literal : Literal Plain e
  tag : e.tag ∉ ["extract","comment","doc_uri"]
  resolved : e.value? "resolved" = none
  single : e.value? "contentLines" = none

section

open Markup

variable {tag : String} {attrs : List (String × String)} {text : Option String}
  {children : List Element}
variable {e : Element} {name : String}

lemma value?_make (h : name ∉ attrs.map Prod.fst) : (make tag attrs text children).value? name = none := by
  refine value?_of_attributes fun a ha hn => h ?_
  obtain ⟨b,hb,rfl⟩ := mem_map.mp ha
  exact mem_map.mpr ⟨b,hb,hn⟩

lemma complete_make : Complete (make tag attrs text children) := by
  intro a ha
  obtain ⟨b,-,rfl⟩ := mem_map.mp ha
  simp

lemma literal_of_value? {P : String → Prop} (h : e.value? "verbatim" = none) : Literal P e := by
  intro hv
  rw [has,h] at hv
  cases hv

def telling : List String := ["setNewlines","verbatim","resolved","contentLines"]

lemma unlinked_make (ns : List String) (ht : tag ∉ ["extract","comment","doc_uri"])
    (hn : attrs.map Prod.fst = ns)
    (h : ∀ name ∈ telling, name ∉ ns) : Unlinked (make tag attrs text children) where
  complete := complete_make
  asks := .inl (value?_make (hn ▸ h _ (by decide)))
  literal := literal_of_value? (value?_make (hn ▸ h _ (by decide)))
  tag := ht
  resolved := value?_make (hn ▸ h _ (by decide))
  single := value?_make (hn ▸ h _ (by decide))

lemma value?_cut (h : IsCut e) (hn : name ∉ ["layout","transcript"]) : e.value? name = none := by
  refine value?_of_attributes fun a ha hs => hn ?_
  obtain ⟨text,rfl | rfl⟩ := h.attributes a ha <;> simp [← hs]

lemma complete_cut (h : IsCut e) : Complete e := by
  intro a ha
  obtain ⟨text,rfl | rfl⟩ := h.attributes a ha <;> simp

lemma unlinked_of_sprout (h : Sprout (CodeOf fun c => ¬ Seldom c) e) (ht : e.tag ≠ "doc_uri") : Unlinked e := by
  cases h with
  | reference => exact absurd rfl ht
  | header level children => exact unlinked_make ["level","newlines"] (by decide) rfl (by decide)
  | list ordered children => exact unlinked_make ["ordered","newlines"] (by decide) rfl (by decide)
  | paragraph children => exact unlinked_make ["newlines"] (by decide) rfl (by decide)
  | text text => exact unlinked_make ["layout"] (by decide) rfl (by decide)
  | span tag wrap hs children =>
    refine unlinked_make ["wrap","layout"] (fun hm => ?_) rfl (by decide)
    simp only [mem_cons,not_mem_nil,or_false] at hs hm
    rcases hs with rfl | rfl | rfl <;> simp at hm
  | member children =>
    exact ⟨complete_make,.inr rfl,literal_of_value? rfl,
      (by decide : "list_item" ∉ ["extract","comment","doc_uri"]),rfl,rfl⟩
  | code text language hc =>
    refine ⟨complete_make,.inl rfl,fun _ => ⟨(by decide : "block_code" ≠ "text"),fun text' htx' => ?_⟩,
      (by decide : "block_code" ∉ ["extract","comment","doc_uri"]),rfl,rfl⟩
    obtain rfl := Option.some.inj htx'
    exact hc
  | cut h =>
    refine ⟨complete_cut h,.inl (value?_cut h (by decide)),literal_of_value? (value?_cut h (by decide)),?_,
      value?_cut h (by decide),value?_cut h (by decide)⟩
    rcases h.tag with ht | ht
    · rw [ht]
      decide
    · rw [ht]
      decide
  | @command e h =>
    have hn {name : String} (hnm : name ∉ ["layout","transcript"]) (hne : name ≠ "splitter") :
        (e.set "splitter" (isTrue true)).value? name = none := by
      rw [value?_set_ne _ hne]
      exact value?_cut h hnm
    exact ⟨complete_set (complete_cut h) "splitter" _,.inl (hn (by decide) (by decide)),
      literal_of_value? (hn (by decide) (by decide)),
      (by decide : "text" ∉ ["extract","comment","doc_uri"]),hn (by decide) (by decide),
      hn (by decide) (by decide)⟩

def Unreferring (text : String) : Prop :=
  ∀ m, readMarkdown "markdown" text = .ok m → ∀ x ∈ m.descendants, x.tag ≠ "doc_uri"

lemma unlinked_readMarkdown {text : String} {m : Element} (h : readMarkdown "markdown" text = .ok m)
    (hb : Unreferring text) : ∃ es, m = { tag := "markdown", children := es } ∧
    ∀ c ∈ es, Throughout Unlinked c := by
  obtain ⟨es,rfl,hes⟩ := sprout_readMarkdown (codeOf_tokens text) h
  refine ⟨es,rfl,fun c hc x hx => unlinked_of_sprout (hes c hc x hx) (hb _ h x ?_)⟩
  rw [descendants_eq]
  exact mem_flatMap.mpr ⟨c,hc,hx⟩

end

section

structure Framed (e : Element) : Prop where
  comment : e.tag = "comment" → ∀ c ∈ e.children, c.tag ∈ ["extract","markdown"]
  inside : e.tag ≠ "comment" → ∀ c ∈ e.children, c.tag ∉ ["extract","comment"]

lemma stable_framed : Stable Framed := by
  intro e e' he h
  refine ⟨fun ht c hc => ?_,fun ht c hc => ?_⟩ <;> obtain ⟨x,hx,hcx⟩ := h.children c hc <;> rw [hcx]
  · exact he.comment (h.tag.symm.trans ht) x hx
  · exact he.inside (h.tag.symm.trans_ne ht) x hx

lemma noExtract_of_framed {e : Element} (h : Throughout Framed e) (ht : e.tag ∉ ["extract","comment"]) :
  Throughout NoExtract e := by
  induction e using byChildren with
  | step e ih =>
    obtain ⟨hf,hk⟩ := throughout_iff.mp h
    simp only [mem_cons,not_mem_nil,or_false,not_or] at ht
    exact throughout_iff.mpr ⟨ht.1,fun c hc => ih c hc (hk c hc) (hf.inside ht.2 c hc)⟩

structure Easel (e : Element) : Prop where
  tag : e.tag = "comment"
  text : e.text = none
  complete : Throughout Complete e
  framed : Throughout Framed e
  literal : Throughout (Literal Plain) e

namespace Easel

variable {e : Element}

lemma no_outputs (h : Easel e) : ∀ c ∈ e.children, c.tag ≠ "outputs" := by
  intro c hc ht
  have hm := (throughout_iff.mp h.framed).1.comment h.tag c hc
  rw [ht] at hm
  revert hm
  decide

lemma noExtract (h : Easel e) : ∀ m ∈ e.children, m.tag = "markdown" → Throughout NoExtract m := by
  intro m hm ht
  refine noExtract_of_framed (h.framed.child hm) ?_
  rw [ht]
  decide

end Easel

def tidied (e : Element) : Except Fault Element := do
  stripNewlines (← joinTexts (← resolveSplitters (← setNewlines e)))

variable {width wd : Option Int} {e e' t : Element} {w : Element × String}

lemma Easel.tidied (h : Easel e) (ht : Tree.tidied e = .ok t) : Easel t where
  tag := (manipulated_kept ht).tag.trans h.tag
  text := (manipulated_kept ht).text.trans h.text
  complete := stable_tidied stable_complete ht h.complete
  framed := stable_tidied stable_framed ht h.framed
  literal := stable_tidied (stable_literal Plain) ht h.literal

def finished (width : Option Int) (e : Element) : Except Fault (Element × String) := do
  inked width (← tidied e)

lemma finished_alike (h : Alike e e') (he : Easel e) (hak : Throughout AsksPlainly e)
    (he' : Throughout Complete e')
  (hr : finished wd e = .ok w) : ∃ w', finished wd e' = .ok w' ∧ w'.2 = w.2 := by
  obtain ⟨t,ht,hw⟩ := bind_ok hr
  obtain ⟨t',ht',ha⟩ := alike_tidied h he' hak ht
  have hf := he.tidied ht
  have htg : t.tag ≠ "extract" := by
    rw [hf.tag]
    decide
  obtain ⟨w',hw',hs⟩ := inked_alike ha hf.text htg hf.no_outputs hf.noExtract hw
  refine ⟨w',?_,hs⟩
  rw [finished,Tree.tidied,ht']
  exact hw'

lemma fine_finished (he : Easel e) (hr : finished wd e = .ok w) :
  ∃ t, tidied e = .ok t ∧ inked wd t = .ok w ∧ Throughout Complete t ∧ Throughout Complete w.1 ∧ Plain w.2 := by
  obtain ⟨t,ht,hw⟩ := bind_ok hr
  have hf := he.tidied ht
  obtain ⟨hc,hp⟩ := complete_inked hf.text hf.no_outputs hw hf.complete fun m hm _ => hf.literal.child hm
  exact ⟨t,ht,hw,hf.complete,hc,hp⟩

end

section

variable {e e' : Element}

lemma changeDown_fixed {f : Element → Except Fault Element} {fuel : Nat}
  (h : Throughout (fun x => f x = .ok x) e) : changeDown f fuel e = .ok e := by
  induction fuel generalizing e with
  | zero => rfl
  | succ fuel ih =>
    obtain ⟨hh,hk⟩ := throughout_iff.mp h
    have hm : e.children.mapM (changeDown f fuel) = .ok e.children := by
      rw [mapM_ok_iff]
      exact forall₂_same.mpr fun c hc => ih (hk c hc)
    rw [changeDown,hh,ok_bind,hm]
    cases e
    rfl

lemma liftSingle_fixed (h : e.value? "contentLines" = none) :
    liftSingle "paragraph" "contentLines" e = .ok e := by
  rw [liftSingle,h]
  rfl

def Untouched (e : Element) : Prop :=
  ∀ c ∈ e.children, Throughout (fun x => x.value? "resolved" = none ∧ x.value? "contentLines" = none) c

lemma mapM_changeDown_fixed (n : Nat) {es : List Element}
  (h : ∀ c ∈ es, Throughout (fun x => x.value? "contentLines" = none) c) :
  es.mapM (changeDown (liftSingle "paragraph" "contentLines") n) = .ok es := by
  rw [mapM_ok_iff]
  exact forall₂_same.mpr fun c hc => changeDown_fixed ((h c hc).imp fun _ => liftSingle_fixed)

lemma liftSingles_untouched (h : Untouched e) : liftSingles "paragraph" "contentLines" e = .ok e := by
  rw [liftSingles,liftSinglesWith,mapM_changeDown_fixed _ fun c hc => (h c hc).imp fun _ hx => hx.2]
  cases e
  rfl

def Nested (e : Element) : Prop := (e.first? [.below "paragraph",.below "paragraph"]).isSome

lemma below_alike {tag : String} {places places' : List (Address × Element)}
  (h : Forall₂ (fun p p' => p'.1 = p.1 ∧ Alike p.2 p'.2) places places') (root root' : Element) :
  Forall₂ (fun p p' => p'.1 = p.1 ∧ Alike p.2 p'.2) ((Step.below tag).take root places)
    ((Step.below tag).take root' places') := by
  refine rel_flatMap h fun p p' hp => ?_
  refine rel_filter (fun x x' hx => ?_) ?_
  · simp [hx.2.head.tag]
  · rw [hp.1]
    exact forest_alike _ _ hp.2.children

lemma nested_alike (h : Alike e e') : Nested e' ↔ Nested e := by
  have hr : Forall₂ (fun p p' : Address × Element => p'.1 = p.1 ∧ Alike p.2 p'.2) [([],e)] [([],e')] :=
    .cons ⟨rfl,h⟩ .nil
  have hp : Forall₂ (fun p p' => p'.1 = p.1 ∧ Alike p.2 p'.2)
      (e.select [.below "paragraph",.below "paragraph"]) (e'.select [.below "paragraph",.below "paragraph"]) :=
    below_alike (below_alike hr e e') e e'
  rw [Nested,Nested,first?,first?]
  generalize e.select [.below "paragraph",.below "paragraph"] = xs at hp ⊢
  generalize e'.select [.below "paragraph",.below "paragraph"] = ys at hp ⊢
  cases hp with
  | nil => exact Iff.rfl
  | cons => exact Iff.rfl

lemma firstGrandchild?_none {test : Element → Bool} (h : ∀ x ∈ e.descendants, test x = false) :
  firstGrandchild? test e = none := by
  rw [firstGrandchild?,findSome?_eq_none_iff]
  intro p hp
  have hf := h p.2 (mem_map.mpr ⟨p,hp,rfl⟩)
  dsimp only
  split
  · rw [hf]
    rfl
  · rfl

lemma firstGrandchild?_unresolved (h : ∀ c ∈ e.children, Throughout (fun x => x.value? "resolved" = none) c) :
  firstGrandchild? Edition.final.isReference e = none := by
  refine firstGrandchild?_none fun x hx => ?_
  rw [descendants_eq] at hx
  obtain ⟨c,hc,hx⟩ := mem_flatMap.mp hx
  have hv := h c hc x hx
  rw [Edition.isReference,has,hv]
  rfl

lemma liftTrees_untouched_iff {leaveMarkers : Bool} (h : Untouched e) :
  liftTrees .final leaveMarkers e = .ok e' ↔ e' = e ∧ ¬ Nested e := by
  rw [liftTrees,onGrandchildren,firstGrandchild?_unresolved fun c hc => (h c hc).imp fun _ hx => hx.1,Nested]
  rw [ok_bind]
  cases e.first? [.below "paragraph",.below "paragraph"] with
  | none =>
    exact ⟨fun h => ⟨(Except.ok.inj h).symm,by simp⟩,fun h => congrArg Except.ok h.1.symm⟩
  | some found =>
    refine ⟨fun h => ?_,fun h => absurd rfl h.2⟩
    obtain ⟨_,-,h⟩ := bind_ok h
    obtain ⟨_,-,h⟩ := bind_ok h
    cases h

end

section

variable {P : Element → Prop} {markers' : Bool}

def draw (width : Option Int) (markers : Bool) (e : Element) : Except Fault (Element × String) := do
  finished width (← liftTrees .final markers (← liftSingles "paragraph" "contentLines" e))

def canvas (path : String) (indent : Nat) (text : String) (m : Element) : Element where
  tag := "comment"
  attributes := [("source",.text path),("indentStart",.text (toString indent))]
  children := [{ tag := "extract", text := some text },m]

def drawn (width : Option Int) (path : String) (indent : Nat) (text : String) : Except Fault String := do
  let m ← readMarkdown "markdown" text
  return (← draw width false (canvas path indent text m)).2

variable {wd : Option Int} {markers : Bool} {path text : String} {ind : Nat} {m e e' : Element}
  {w : Element × String}

lemma draw_untouched_iff (h : Untouched e) : draw wd markers e = .ok w ↔ ¬ Nested e ∧ finished wd e = .ok w := by
  rw [draw,liftSingles_untouched h,ok_bind]
  constructor
  · intro hr
    obtain ⟨lifted,hl,hw⟩ := bind_ok hr
    obtain ⟨rfl,hn⟩ := (liftTrees_untouched_iff h).mp hl
    exact ⟨hn,hw⟩
  · rintro ⟨hn,hw⟩
    rw [(liftTrees_untouched_iff h).mpr ⟨rfl,hn⟩]
    exact hw

def IsUnlinked (m : Element) : Prop :=
  ∃ es, m = { tag := "markdown", children := es } ∧ ∀ c ∈ es, Throughout Unlinked c

lemma IsUnlinked.throughout (hm : IsUnlinked m) (hP : ∀ x, Unlinked x → (∀ c ∈ x.children, Unlinked c) → P x)
    (hr : ∀ es, (∀ c ∈ es, Unlinked c) → P { tag := "markdown", children := es }) : Throughout P m := by
  obtain ⟨es,rfl,hes⟩ := hm
  refine throughout_iff.mpr ⟨hr es fun c hc => (throughout_iff.mp (hes c hc)).1,fun c hc => ?_⟩
  exact (hes c hc).deep.imp fun x hx => hP x hx.1 hx.2

structure IsPanel (path : String) (indent : Nat) (text : String) (m e : Element) : Prop where
  alike : Alike (canvas path indent text m) e
  complete : Throughout Complete e
  children : e.children = [{ tag := "extract", text := some text },m]
  unlinked : IsUnlinked m

lemma throughout_panel (h : e.children = [{ tag := "extract", text := some text },m])
    (he : P { tag := "extract", text := some text }) (hm : Throughout P m) :
      ∀ c ∈ e.children, Throughout P c := by
  rw [h]
  simpa using ⟨throughout_leaf he rfl,hm⟩

namespace IsPanel

variable (h : IsPanel path ind text m e)

include h

lemma untouched : Untouched e :=
  throughout_panel h.children ⟨rfl,rfl⟩
    (h.unlinked.throughout (fun _ hx _ => ⟨hx.resolved,hx.single⟩) fun _ _ => ⟨rfl,rfl⟩)

lemma asks : Throughout AsksPlainly e := by
  refine throughout_iff.mpr ⟨.inl ?_,throughout_panel h.children (.inl rfl)
    (h.unlinked.throughout (fun _ hx _ => hx.asks) fun _ _ => .inl rfl)⟩
  rw [h.alike.head.value?]
  rfl

lemma easel : Easel e := by
  have htg (es : List Element) (hes : ∀ c ∈ es, Unlinked c) : ∀ c ∈ es, c.tag ∉ ["extract","comment"] := by
    intro c hc hmm
    refine (hes c hc).tag ?_
    simp only [mem_cons,not_mem_nil,or_false] at hmm ⊢
    exact hmm.imp_right .inl
  have ht : e.tag = "comment" := h.alike.head.tag
  have hv : e.value? "verbatim" = none := by
    rw [h.alike.head.value?]
    rfl
  refine ⟨ht,h.alike.head.text (by decide : "comment" ≠ "extract"),h.complete,
    throughout_iff.mpr ⟨⟨fun _ => ?_,fun hne => ?_⟩,?_⟩,
    throughout_iff.mpr ⟨literal_of_value? hv,?_⟩⟩
  · obtain ⟨es,rfl,-⟩ := h.unlinked
    rw [h.children]
    simp
  · exact absurd ht hne
  · refine throughout_panel h.children ⟨fun ht => ?_,fun _ => forall_mem_nil _⟩
      (h.unlinked.throughout (fun x hx hk => ⟨fun ht => ?_,fun _ => htg _ hk⟩) fun es hes =>
        ⟨fun ht => ?_,fun _ => htg es hes⟩)
    · simp at ht
    · exact absurd (by simp [ht]) hx.tag
    · simp at ht
  · exact throughout_panel h.children (literal_of_value? rfl)
      (h.unlinked.throughout (fun _ hx _ => hx.literal) fun _ _ => literal_of_value? rfl)

end IsPanel

lemma isPanel_canvas (path : String) (ind : Nat) (text : String) (hm : IsUnlinked m) :
  IsPanel path ind text m (canvas path ind text m) := by
  refine ⟨.refl _,throughout_iff.mpr ⟨fun a ha => ?_,throughout_panel rfl (fun _ ha => absurd ha not_mem_nil)
    (hm.throughout (fun _ hx _ => hx.complete) fun _ _ _ ha => absurd ha not_mem_nil)⟩,rfl,hm⟩
  rcases mem_cons.mp ha with rfl | ha
  · simp
  · obtain rfl := mem_singleton.mp ha
    simp

lemma draw_alike {path' text' : String} {ind' : Nat} {m' : Element} (h : IsPanel path ind text m e)
  (h' : IsPanel path' ind' text' m' e') (ha : Alike e e') (hr : draw wd markers e = .ok w) :
  ∃ w', draw wd markers' e' = .ok w' ∧ w'.2 = w.2 := by
  obtain ⟨hn,hw⟩ := (draw_untouched_iff h.untouched).mp hr
  obtain ⟨w',hw',hs⟩ := finished_alike ha h.easel h.asks h'.complete hw
  exact ⟨w',(draw_untouched_iff h'.untouched).mpr ⟨(nested_alike ha).not.mpr hn,hw'⟩,hs⟩

lemma draw_panels (h : IsPanel path ind text m e) (h' : IsPanel path ind text m e')
  (hr : draw wd markers e = .ok w) : ∃ w', draw wd markers' e' = .ok w' ∧ w'.2 = w.2 :=
  draw_alike h h' (h.alike.symm.trans h'.alike) hr

lemma drawn_ok_iff (hrd : readMarkdown "markdown" text = .ok m) (h : IsPanel path ind text m e) {t : String} :
  drawn wd path ind text = .ok t ↔ ∃ w, draw wd markers e = .ok w ∧ w.2 = t := by
  have hc := isPanel_canvas path ind text h.unlinked
  rw [drawn,hrd,ok_bind]
  constructor
  · intro hr
    obtain ⟨w,hw,rfl⟩ := map_ok hr
    exact draw_panels hc h hw
  · rintro ⟨w,hw,rfl⟩
    obtain ⟨w',hw',hs⟩ := draw_panels h hc hw
    rw [hw',ok_bind,hs]
    rfl

end

section

open Comment

variable {width wd : Option Int} {markers : Bool} {path text t : String} {m e e' : Element}
  {w : Element × String}
  {r : Remark} {ind : Nat}

def readDraft (e : Element) : Except Fault Element := do
  return dropStage "lines" (← parseExtract "extract" "markdown" e)

lemma setSource_unlinked (hm : IsUnlinked m) (src : Value) : setSource src m = .ok m := by
  obtain ⟨es,rfl,hes⟩ := hm
  have hf : mapHeadsEach (fun e : Element => (.ok (if e.tag = "doc_uri" then e.setValue "source" src else e) :
      Except Fault Element)) es = .ok es := by
    refine mapHeadsEach_ok_iff.mpr (forall₂_same.mpr fun c hc => mapHeads_fixed ((hes c hc).imp fun x hx => ?_))
    rw [if_neg fun ht => hx.tag (by simp [ht])]
  rw [setSource,hf]
  rfl

lemma IsDraft.source {r : Remark} (h : IsDraft path r e) : e.value? "source" = some (.text path) := by
  rw [Element.value?,← lookup_outline (by decide),h.outline]
  rfl

lemma readDraft_ok_iff (h : IsDraft path r e) :
    readDraft e = .ok e' ↔ ∃ m m', readMarkdown "markdown" (ofList r.words) = .ok m ∧
      setSource (.text path) m = .ok m' ∧
      e' = { e with children := [{ tag := "extract", text := some (ofList r.words) },m'] } := by
  obtain ⟨es,hk,-⟩ := h.extracted.children
  have hf : e.first? [.child "extract"] = some { tag := "extract", text := some (ofList r.words) } := by
    simp [first?,select,Step.take,childNodes,hk]
    rfl
  have hd (m : Element) : dropStage "lines" (e.append m) =
      { e with children := [{ tag := "extract", text := some (ofList r.words) },m] } := by
    rw [Element.append,hk]
    rfl
  rw [readDraft,parseExtract,parse_extract,ok_bind,hf]
  dsimp only
  rw [h.source,Option.getD_some]
  constructor
  · intro hr
    obtain ⟨parsed,hp,rfl⟩ := map_ok hr
    obtain ⟨m,hrd,hp⟩ := bind_ok hp
    obtain ⟨m',hm',rfl⟩ := map_ok hp
    exact ⟨m,m',hrd,hm',hd m'⟩
  · rintro ⟨m,m',hrd,hm',rfl⟩
    rw [hrd,ok_bind,hm',ok_bind,pure_bind,hd]
    rfl

lemma readDraft_comment (h : IsDraft path r e) (hb : Unreferring (ofList r.words)) :
    readDraft e = .ok e' ↔ ∃ m, readMarkdown "markdown" (ofList r.words) = .ok m ∧ IsUnlinked m ∧
      e' = { e with children := [{ tag := "extract", text := some (ofList r.words) },m] } := by
  rw [readDraft_ok_iff h]
  constructor
  · rintro ⟨m,m',hr,hm',rfl⟩
    have hm : IsUnlinked m := unlinked_readMarkdown hr hb
    rw [setSource_unlinked hm] at hm'
    cases hm'
    exact ⟨m,hr,hm,rfl⟩
  · rintro ⟨m,hr,hm,rfl⟩
    exact ⟨m,m,hr,setSource_unlinked hm _,rfl⟩

lemma isPanel_draft (h : IsDraft path r e) (hm : IsUnlinked m) (text : String) :
    IsPanel path r.mark.indent.length text m
      { e with children := [{ tag := "extract", text := some text },m] } := by
  have hc := isPanel_canvas path r.mark.indent.length text hm
  refine ⟨alike_iff.mpr ⟨⟨h.extracted.tag,?_,fun _ => h.text,h.tail⟩,?_⟩,
    throughout_iff.mpr ⟨(throughout_iff.mp h.complete).1,(throughout_iff.mp hc.complete).2⟩,rfl,hm⟩
  · exact h.outline.trans (by simp [canvas,Element.outline,notes])
  · exact forall₂_same.mpr fun c _ => .refl c

structure Sketched (e : Element) : Prop where
  settled : waiting .final e = []
  complete : Throughout Complete e
  stages : ∀ {width markers w}, draw width markers e = .ok w →
    liftSingles "paragraph" "contentLines" e = .ok e ∧ liftTrees .final markers e = .ok e ∧
      ∃ t, tidied e = .ok t ∧ inked width t = .ok w ∧ Throughout Complete t ∧ Throughout Complete w.1

def Stageable (width : Option Int) (markers : Bool) (e : Element) (t : String) : Prop :=
  Throughout Complete e ∧ ∃ e1, liftSingles "paragraph" "contentLines" e = .ok e1 ∧ Throughout Complete e1 ∧
    ∃ e2, liftTrees .final markers e1 = .ok e2 ∧ Throughout Complete e2 ∧
      ∃ e3, tidied e2 = .ok e3 ∧ Throughout Complete e3 ∧
        ∃ w, inked width e3 = .ok w ∧ Throughout Complete w.1 ∧ w.2 = t

lemma Sketched.stageable (h : Sketched e) (hw : draw wd markers e = .ok w) : Stageable wd markers e w.2 := by
  obtain ⟨hs,htr,e3,ht,hi,hc,hc'⟩ := h.stages hw
  exact ⟨h.complete,e,hs,h.complete,e,htr,h.complete,e3,ht,hc,w,hi,hc',rfl⟩

lemma waiting_untouched (h : Untouched e) (d : Edition) : waiting d e = [] := by
  rw [waiting_eq,map_eq_nil_iff,filter_eq_nil_iff]
  intro p hp ha
  have hm : p.2 ∈ e.descendants := mem_map.mpr ⟨p,hp,rfl⟩
  rw [descendants_eq] at hm
  obtain ⟨c,hc,hx⟩ := mem_flatMap.mp hm
  have hs := (of_decide_eq_true ha).2
  rw [(h c hc _ hx).1] at hs
  cases hs

lemma sketched_untouched (h : Untouched e) (hc : Throughout Complete e)
  (hf : ∀ {wd w}, finished wd e = .ok w → ∃ t, tidied e = .ok t ∧ inked wd t = .ok w ∧ Throughout Complete t ∧
    Throughout Complete w.1) : Sketched e := by
  refine ⟨waiting_untouched h .final,hc,fun hr => ?_⟩
  obtain ⟨hn,hw⟩ := (draw_untouched_iff h).mp hr
  exact ⟨liftSingles_untouched h,(liftTrees_untouched_iff h).mpr ⟨rfl,hn⟩,hf hw⟩

lemma IsPanel.sketched (h : IsPanel path ind text m e) : Sketched e := by
  refine sketched_untouched h.untouched h.complete fun hw => ?_
  obtain ⟨t,ht,hi,hcm,hcm',-⟩ := fine_finished h.easel hw
  exact ⟨t,ht,hi,hcm,hcm'⟩

section

variable (h : e.children = []) {text : String}

include h

lemma untouched_leaf : Untouched e := by
  intro c hc
  rw [h] at hc
  cases hc

lemma not_nested_leaf : ¬ Nested e := by
  simp [Nested,first?,select,Step.take,nodesBelow,h,forest]

lemma tidied_leaf : tidied e = .ok e := by
  obtain ⟨tag,attrs,text,tail,children⟩ := e
  obtain rfl : children = [] := h
  rfl

lemma inked_leaf (ht : e.text = some text) : inked wd e = .ok (e,text) := by
  have hn : childIndex? "outputs" e = none := childIndex?_of_leaf "outputs" h
  have hp : addPieces 4 e = .ok e := by
    rw [addPieces,h]
    rfl
  have hl : layOut e = .ok e := by
    rw [layOut,hn]
    rfl
  rw [inked,hp,ok_bind,hl,ok_bind,writeElement,hn,ht]
  rfl

lemma finished_leaf (ht : e.text = some text) : finished wd e = .ok (e,text) := by
  rw [finished,tidied_leaf h]
  exact inked_leaf h ht

lemma draw_leaf (ht : e.text = some text) : draw wd markers e = .ok (e,text) :=
  (draw_untouched_iff (untouched_leaf h)).mpr ⟨not_nested_leaf h,finished_leaf h ht⟩

lemma sketched_leaf (ht : e.text = some text) (hcm : Complete e) : Sketched e := by
  have hc := throughout_leaf hcm h
  refine sketched_untouched (untouched_leaf h) hc fun hw => ?_
  cases (finished_leaf h ht).symm.trans hw
  exact ⟨e,tidied_leaf h,inked_leaf h ht,hc,hc⟩

lemma readDraft_leaf : readDraft e = .ok e := by
  have hf : e.first? [.child "extract"] = none := by
    simp [first?,select,Step.take,childNodes,h]
  rw [readDraft,parseExtract,parse_extract,ok_bind,hf]
  rw [pure_bind,dropStage,childIndex?_of_leaf "lines" h]
  rfl

end

def Unmarked (ps : List Passage) : Prop := ∀ r, .comment r ∈ ps → Unreferring (ofList r.words)

def Draws (width : Option Int) (path : String) : Passage → String → Prop
  | .code _ cs, t => t = ofList cs
  | .comment r, t => drawn width path r.mark.indent.length (ofList r.words) = .ok t

variable {p : Passage} {ps : List Passage}

lemma sketched_of_readDraft (h : IsDrafted path p e) (hb : Unmarked ps) (hp : p ∈ ps)
  (hr : readDraft e = .ok e') : Sketched e' := by
  cases p with
  | code n cs =>
    obtain ⟨hl,hc⟩ := h
    rw [readDraft_leaf hl.children] at hr
    cases hr
    exact sketched_leaf hl.children hl.text hc
  | comment r =>
    obtain ⟨m,-,hm,rfl⟩ := (readDraft_comment h (hb r hp)).mp hr
    exact (isPanel_draft h hm _).sketched

lemma draws_iff (h : IsDrafted path p e) (hb : Unmarked ps) (hp : p ∈ ps) :
  Draws wd path p t ↔ ∃ e' w, readDraft e = .ok e' ∧ draw wd markers e' = .ok w ∧ w.2 = t := by
  cases p with
  | code n cs =>
    obtain ⟨hl,hc⟩ := h
    rw [readDraft_leaf hl.children]
    constructor
    · rintro rfl
      exact ⟨e,_,rfl,draw_leaf hl.children hl.text,rfl⟩
    · rintro ⟨e',w,hr,hw,rfl⟩
      cases hr
      rw [draw_leaf hl.children hl.text] at hw
      cases hw
      rfl
  | comment r =>
    constructor
    · intro hd
      obtain ⟨m,hmr,-⟩ := bind_ok hd
      have hm : IsUnlinked m := unlinked_readMarkdown hmr (hb r hp)
      obtain ⟨w,hw,rfl⟩ := (drawn_ok_iff hmr (isPanel_draft h hm _)).mp hd
      exact ⟨_,w,(readDraft_comment h (hb r hp)).mpr ⟨m,hmr,hm,rfl⟩,hw,rfl⟩
    · rintro ⟨e',w,hr,hw,rfl⟩
      obtain ⟨m,hmr,hm,rfl⟩ := (readDraft_comment h (hb r hp)).mp hr
      exact (drawn_ok_iff hmr (isPanel_draft h hm _)).mpr ⟨w,hw,rfl⟩

lemma plain_drawn (hb : Unreferring text) (h : drawn wd path ind text = .ok t) : Plain t := by
  obtain ⟨m,hmr,h⟩ := bind_ok h
  have hm : IsUnlinked m := unlinked_readMarkdown hmr hb
  have hc := isPanel_canvas path ind text hm
  obtain ⟨w,hw,rfl⟩ := map_ok h
  obtain ⟨-,hf⟩ := (draw_untouched_iff hc.untouched).mp hw
  obtain ⟨t,-,-,-,-,hp⟩ := fine_finished hc.easel hf
  exact hp

end

end Tree

end Docweave
