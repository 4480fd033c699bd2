import Docweave.Proofs.Markdown.Markup

namespace Docweave

namespace Element

lemma forall₂_mapHeadsEach {f : Element → Except Fault Element} {es es' : List Element}
  (h : mapHeadsEach f es = .ok es') :
  List.Forall₂ (fun e e' => ∃ head children, f e = .ok head ∧ mapHeadsEach f e.children = .ok children ∧
    e' = { head with children }) es es' :=
  (mapHeadsEach_ok_iff.mp h).imp fun _ _ => mapHeads_ok_iff.mp

end Element

namespace Markup

open Act Element

def IsSpan (e : Element) : Prop := e.attribute? "layout" = some "span" ∨ e.tag = "doc_uri"

structure IsTop (e : Element) : Prop where
  layout : e.attribute? "layout" = none
  paragraph : e.tag = "paragraph" →
    e = make "paragraph" [("newlines","2")] none e.children ∧ ∀ c ∈ e.children, IsSpan c

def Shoot.Is (Q : Element → Prop) (s : Shoot) : Prop := ∀ e, s = .element e → Q e

section

variable {Q : Element → Prop}

lemma all_is_singleton {e : Element} (h : Q e) : All (Shoot.Is Q) [.element e] := by
  intro s hs x hx
  obtain rfl := List.mem_singleton.mp hs
  obtain rfl := Shoot.element.inj hx
  exact h

lemma wrapShoots_is {tag : String} {attrs : List (String × String)} {body : List Shoot}
  (hQ : ∀ children, Shoot.elements body = .ok children → Q (make tag attrs none children)) :
  (wrapShoots tag attrs body).Yields (All (Shoot.Is Q)) :=
  (agree_ofExcept hQ).bind fun _ h => agree_pure (all_is_singleton h)

lemma elementRenderer_spans : elementRenderer.KeepsSpans elementRenderer (fun _ => True) (Shoot.Is IsSpan) where
  stray _ := ⟨rfl,fun _ h => nomatch h⟩
  reference _ := agree_pure (all_is_singleton (.inr rfl))
  autolink _ _ := agree_fail _
  codeSpan _ := agree_pure (all_is_singleton (.inl rfl))
  strong _ _ := wrapShoots_is fun _ _ => .inl rfl
  emphasis _ _ := wrapShoots_is fun _ _ => .inl rfl
  text s := by
    refine (agree_ofExcept fun es hes => isCut_cut hes).bind fun es hes => agree_pure ?_
    intro shoot hs x hx
    obtain ⟨e,he,rfl⟩ := List.mem_map.mp hs
    obtain rfl := Shoot.element.inj hx
    exact .inl (hes e he).layout
  html _ := agree_fail _

end

section

variable {ρ α : Type} {S B : α → Prop} {r : Renderer ρ α} {e : Element}

structure Renderer.Builds (r : Renderer ρ α) (S B : α → Prop) : Prop where
  blockCode : ∀ text language, (r.blockCode text language).Yields (All B)
  header : ∀ body level text, All S body → (r.header body level text).Yields (All B)
  list : ∀ body ordered, (r.list body ordered).Yields (All B)
  member : ∀ body, (r.member body).Yields (All B)
  paragraph : ∀ body, All S body → (r.paragraph body).Yields (All B)
  newline : r.newline.Yields (All B)

lemma agree_anything {β : Type} (a : Act (Session ρ) β) :
    Agree (On (fun _ => True) fun _ => True) a a fun _ => True :=
  fun _ _ => ⟨rfl,fun _ _ _ => ⟨⟨fun _ _ => trivial,trivial⟩,trivial⟩⟩

lemma agree_block (hs : r.KeepsSpans r (fun _ => True) S) (hb : r.Builds S B) (fuel : Nat) (t : Token) :
  Agree (On (fun _ => True) fun _ => True) (renderToken r fuel t) (renderToken r fuel t) (All B) := by
  cases fuel with
  | zero => exact agree_pure all_nil
  | succ fuel =>
    cases t with
    | newline => exact agree_hook hb.newline
    | code text language => exact agree_hook (hb.blockCode text language)
    | heading level text =>
      exact (agree_spans hs text).bind fun body hbd => agree_hook (hb.header body level text hbd)
    | paragraph text =>
      exact (agree_spans hs text).bind fun body hbd => agree_hook (hb.paragraph body hbd)
    | text text =>
      exact (agree_textSpans hs text).bind fun body hbd => agree_hook (hb.paragraph body hbd)
    | listStart ord => exact (agree_anything _).bind fun body _ => agree_hook (hb.list body ord)
    | memberStart => exact (agree_anything _).bind fun body _ => agree_hook (hb.member body)
    | looseStart => exact (agree_anything _).bind fun body _ => agree_hook (hb.member body)
    | table header => exact (agree_anything _).bind fun _ _ => agree_fail _
    | quoteStart => exact (agree_anything _).bind fun _ _ => agree_fail _
    | footnoteStart key =>
      exact (agree_anything _).bind fun _ _ => (agree_anything _).bind fun _ _ =>
        (agree_anything _).bind fun _ _ => agree_pure all_nil
    | rule | html | listEnd | memberEnd | quoteEnd | footnoteEnd => exact agree_fail _

lemma isTop_of_tag (tag : String) (he : e.tag = tag) (hl : e.attribute? "layout" = none)
    (h : tag ≠ "paragraph" := by decide) : IsTop e :=
  ⟨hl,fun ht => absurd (he.symm.trans ht) h⟩

lemma elementRenderer_builds : elementRenderer.Builds (Shoot.Is IsSpan) (Shoot.Is IsTop) where
  blockCode _ _ := agree_pure (all_is_singleton (isTop_of_tag "block_code" rfl rfl))
  header _ _ _ _ := wrapShoots_is fun _ _ => isTop_of_tag "header" rfl rfl
  list _ _ := wrapShoots_is fun _ _ => isTop_of_tag "list" rfl rfl
  member _ := wrapShoots_is fun _ _ => isTop_of_tag "list_item" rfl rfl
  paragraph _ hb := wrapShoots_is fun _ hk =>
    ⟨rfl,fun _ => ⟨rfl,forall_elements hk fun e he => hb _ he e rfl⟩⟩
  newline := agree_pure all_nil

lemma attribute?_markSplitter (e : Element) : (markSplitter e).attribute? "layout" = e.attribute? "layout" := by
  rw [markSplitter]
  split
  · exact attribute?_set_ne e (by decide) _
  · rfl

lemma markSplitter_of_tag (h : e.tag ≠ "at_command") : markSplitter e = e := if_neg h

lemma IsSpan.marked (h : IsSpan e) (children : List Element) : IsSpan { markSplitter e with children } := by
  rcases h with hl | ht
  · exact .inl ((attribute?_markSplitter e).trans hl)
  · rw [markSplitter_of_tag (by rw [ht]; decide)]
    exact .inr ht

lemma IsTop.marked (h : IsTop e) {children : List Element}
  (hk : mapHeadsEach (fun e => .ok (markSplitter e)) e.children = .ok children) :
  IsTop { markSplitter e with children } := by
  refine ⟨(attribute?_markSplitter e).trans h.layout,fun ht => ?_⟩
  by_cases hcm : e.tag = "at_command"
  · rw [markSplitter,if_pos hcm] at ht
    exact absurd ht (by decide : "text" ≠ "paragraph")
  rw [markSplitter_of_tag hcm] at ht ⊢
  obtain ⟨hm,hs⟩ := h.paragraph ht
  refine ⟨?_,fun c hc => ?_⟩
  · rw [hm]
    rfl
  · obtain ⟨x,hx,head,inside,hh,-,rfl⟩ := forall₂_mem_right (forall₂_mapHeadsEach hk) hc
    cases hh
    exact (hs x hx).marked inside

end

end Markup

namespace Tree

open Markup Element

lemma forall_top_readMarkdown {S : Shoot → Prop} {B : Element → Prop}
    (hsp : elementRenderer.KeepsSpans elementRenderer (fun _ => True) S)
    (hb : elementRenderer.Builds S (Shoot.Is B)) {tag text : String} {m : Element}
    (h : readMarkdown tag text = .ok m) : ∀ c ∈ m.children, ∃ x inside, B x ∧
      mapHeadsEach (fun e => .ok (markSplitter e)) x.children = .ok inside ∧
        c = { markSplitter x with children := inside } := by
  obtain ⟨reader,hrn⟩ : ∃ reader, (readElement tag text).perform {} = (.ok m,reader) := ⟨_,Prod.ext h rfl⟩
  obtain ⟨shoots,reader1,hsh,hr⟩ := Act.bind_ok hrn
  obtain ⟨s,hs⟩ := Act.within_ok hsh
  obtain ⟨es,reader2,hes,hr1⟩ := Act.bind_ok hr
  obtain ⟨es',reader3,hes',rfl,-⟩ := Act.map_ok hr1
  have ha : All (Shoot.Is B) shoots :=
    ((agree_render (fun fuel t _ => agree_block hsp hb fuel t) (fun _ _ _ _ => trivial) _ ⟨all_nil,
      trivial⟩).2 _ _ hs).2
  have ht : ∀ e ∈ es, B e := forall_elements (Act.ofExcept_ok hes) fun e he => ha _ he e rfl
  intro c hc
  obtain ⟨x,hx,head,inside,hh,hi,rfl⟩ :=
    forall₂_mem_right (forall₂_mapHeadsEach (Act.ofExcept_ok hes')) hc
  cases hh
  exact ⟨x,inside,ht x hx,hi,rfl⟩

lemma isTop_readMarkdown {tag text : String} {m : Element} (h : readMarkdown tag text = .ok m) :
  ∀ c ∈ m.children, IsTop c := by
  intro c hc
  obtain ⟨x,inside,hx,hi,rfl⟩ := forall_top_readMarkdown elementRenderer_spans elementRenderer_builds h c hc
  exact hx.marked hi

end Tree

end Docweave
