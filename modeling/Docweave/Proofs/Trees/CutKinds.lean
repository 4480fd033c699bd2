import Docweave.Proofs.Markdown.Paragraphs
import Docweave.Proofs.Trees.Splitting

namespace Docweave.Tree

open Element Markup List

section

variable {x y : Element} {name : String}

lemma of_mem_parts (h : y ∈ (parts x).2) : y.tag = x.tag ∧
    ∀ name, y.value? name = if name = "newlines" then x.value? "newlines" else none := by
  rw [parts_eq] at h
  obtain ⟨es,-,rfl⟩ := mem_map.mp h
  exact ⟨(copyAttributes_fields _ _ _).1,value?_restOf x⟩

lemma cutBefore_whole_iff {α : Type} (l : List (Bool × α)) : (cutBefore l).2 = [] ↔ ∀ p ∈ l, p.1 = false := by
  induction l with
  | nil => simp [cutBefore]
  | cons p l ih =>
    obtain ⟨flag,a⟩ := p
    cases flag <;> simp [cutBefore,ih]

lemma unflagged_partsEach_iff (cs : List Element) :
  (∀ p ∈ partsEach cs, p.1 = false) ↔ ∀ c ∈ cs, isSplitter c = false := by
  rw [partsEach_eq,forall_mem_flatMap]
  simp [flagged]

lemma parts_whole_iff (x : Element) : (parts x).2 = [] ↔ ∀ d ∈ x.children.tail, isSplitter d = false := by
  rw [parts_eq,portion,map_eq_nil_iff,cutBefore_whole_iff]
  cases x.children with
  | nil => simp [partsEach,uncutFirst]
  | cons c cs =>
    rw [partsEach_cons,uncutFirst,forall_mem_cons,forall_mem_append,unflagged_partsEach_iff]
    simp

def KeepsKind (x : Element) : Prop := ∀ y ∈ (parts x).2, ∀ name, name ≠ "split" → y.value? name = x.value? name

def Bare (x : Element) : Prop := ∀ name, name ≠ "split" → name ≠ "newlines" → x.value? name = none

lemma keepsKind_iff (x : Element) : KeepsKind x ↔ (∀ d ∈ x.children.tail, isSplitter d = false) ∨ Bare x := by
  rw [← parts_whole_iff]
  constructor
  · intro h
    cases hp : (parts x).2 with
    | nil => exact .inl rfl
    | cons y ys =>
      have hy : y ∈ (parts x).2 := by rw [hp]; exact mem_cons_self
      refine .inr fun name hs hn => ?_
      rw [← h y hy name hs,(of_mem_parts hy).2,if_neg hn]
  · rintro (hw | hb) y hy name hs
    · rw [hw] at hy
      cases hy
    · rw [(of_mem_parts hy).2]
      split
      · next h => rw [h]
      · next h => exact (hb name hs h).symm

end

section

variable {T : Token → Prop} {x x' : Element}

def Grown (x : Element) : Prop := x.children = [] ∨ (x.tag ≠ "doc_uri" ∧ (x.tag = "paragraph" ↔ Bare x))

lemma grown_of_value (tag name : String) {v : Value} (hx : x.tag = tag)
    (hv : x.value? name = some v)
    (ht : tag ∉ ["doc_uri","paragraph"] := by decide)
    (hn : name ∉ ["split","newlines"] := by decide) : Grown x := by
  simp only [mem_cons,not_mem_nil,or_false,not_or] at ht hn
  refine .inr ⟨hx ▸ ht.1,fun hp => absurd (hx.symm.trans hp) ht.2,fun hb => ?_⟩
  rw [hb name hn.1 hn.2] at hv
  cases hv

lemma grown_of_sprout (h : Sprout T x) : Grown x := by
  cases h with
  | reference => exact .inl rfl
  | code => exact .inl rfl
  | text => exact .inl rfl
  | cut h => exact .inl h.leaf
  | command h => exact .inl h.leaf
  | header => exact grown_of_value "header" "level" rfl rfl
  | list => exact grown_of_value "list" "ordered" rfl rfl
  | member => exact grown_of_value "list_item" "setNewlines" rfl rfl
  | span tag wrap ht =>
    refine grown_of_value tag "wrap" rfl rfl ?_
    simp only [mem_cons,not_mem_nil,or_false] at ht
    rcases ht with rfl | rfl | rfl <;> decide
  | paragraph children =>
    refine .inr ⟨(by decide : "paragraph" ≠ "doc_uri"),fun _ name _ hn => ?_,fun _ => rfl⟩
    have hb : (name == "newlines") = false := beq_eq_false_iff_ne.mpr hn
    simp [make,value?,lookup_cons,hb]

lemma Grown.setValue (h : Grown x) {name : String} (v : Value) (hn : name ∈ ["split","newlines"])
    {es : List Element}
    (hes : x.children = [] → es = []) : Grown { x.setValue name v with children := es } := by
  rcases h with hl | ⟨ht,hk⟩
  · exact .inl (hes hl)
  refine .inr ⟨ht,hk.trans (forall₃_congr fun other hs hnl => ?_)⟩
  have hne : other ≠ name := by
    rintro rfl
    simp [hs,hnl] at hn
  exact iff_of_eq (congrArg (· = none) (value?_setValue_ne x hne v).symm)

lemma grown_setSource {src : Value} {e e' : Element} (h : setSource src e = .ok e')
  (he : ∀ c ∈ e.children, Throughout Grown c) : ∀ c ∈ e'.children, Throughout Grown c := by
  obtain ⟨mapped,hm,rfl⟩ := map_ok h
  refine throughout_mapHeadsEach (fun x x' xs hx hx' hxs => ?_) hm he
  cases hx'
  split
  · next ht => exact .inl (hxs (hx.resolve_right fun hk => hk.1 ht))
  · exact hx.imp hxs id

lemma setNewline_ok (h : setNewline x = .ok x') : x' = x ∨ ∃ text, x' = x.set "newlines" text := by
  rw [setNewline] at h
  cases hv : x.value? "setNewlines" with
  | none =>
    rw [hv] at h
    exact .inl (Except.ok.inj h).symm
  | some v =>
    rw [hv] at h
    obtain ⟨steps,-,hl⟩ := bind_ok h
    exact .inr ⟨_,(Except.ok.inj hl).symm⟩

lemma grown_setNewline (hx : Grown x) (h : setNewline x = .ok x') {es : List Element}
    (hes : x.children = [] → es = []) :
    Grown { x' with children := es } := by
  rcases setNewline_ok h with rfl | ⟨text,rfl⟩
  · exact hx.imp hes id
  · exact hx.setValue _ (by simp) hes

lemma isSplitter_setNewline (h : setNewline x = .ok x') : isSplitter x' = isSplitter x := by
  rcases setNewline_ok h with rfl | ⟨text,rfl⟩
  · rfl
  · exact isSplitter_set_ne x (by decide) text

end

section

variable {comment parsed tree m m' : Element}

lemma elementRenderer_builds_unmarked : elementRenderer.Builds (Shoot.Is IsSpan)
    (Shoot.Is fun e => e.tag ≠ "at_command" ∧ isSplitter e = false) where
  blockCode _ _ := Act.agree_pure (all_is_singleton ⟨by simp [make],rfl⟩)
  header _ _ _ _ := wrapShoots_is fun _ _ => ⟨by simp [make],rfl⟩
  list _ _ := wrapShoots_is fun _ _ => ⟨by simp [make],rfl⟩
  member _ := wrapShoots_is fun _ _ => ⟨by simp [make],rfl⟩
  paragraph _ _ := wrapShoots_is fun _ _ => ⟨by simp [make],rfl⟩
  newline := Act.agree_pure all_nil

lemma unmarked_readMarkdown {tag text : String} (h : readMarkdown tag text = .ok m) :
  ∀ c ∈ m.children, isSplitter c = false := by
  intro c hc
  obtain ⟨x,inside,⟨ht,hx⟩,-,rfl⟩ :=
    forall_top_readMarkdown elementRenderer_spans elementRenderer_builds_unmarked h c hc
  rw [markSplitter_of_tag ht]
  exact hx

lemma unmarked_mapHeadsEach {f : Element → Except Fault Element}
  (hf : ∀ x x', f x = .ok x' → isSplitter x' = isSplitter x) {es es' : List Element}
  (h : mapHeadsEach f es = .ok es') (hes : ∀ c ∈ es, isSplitter c = false) : ∀ c ∈ es',
    isSplitter c = false := by
  intro c hc
  obtain ⟨x,hx,head,inside,hh,-,rfl⟩ := forall₂_mem_right (forall₂_mapHeadsEach h) hc
  exact (hf x head hh).trans (hes x hx)

lemma grown_markdown {text : String} {src : Value} (h : readMarkdown "markdown" text = .ok m)
  (h' : setSource src m = .ok m') : ∀ c ∈ m'.children, Throughout Grown c ∧ isSplitter c = false := by
  obtain ⟨es,rfl,hes⟩ := sprout_readMarkdown (T := fun _ => True) (fun _ _ _ _ => trivial) h
  have hg := grown_setSource h' fun c hc x hx => grown_of_sprout (hes c hc x hx)
  obtain ⟨mapped,hm,rfl⟩ := map_ok h'
  refine fun c hc => ⟨hg c hc,unmarked_mapHeadsEach (fun x x' hx => ?_) hm (unmarked_readMarkdown h) c hc⟩
  cases hx
  split
  · rw [isSplitter,isSplitter,value?_setValue_ne x (by decide)]
  · rfl

lemma parseExtract_children (h : parseExtract "extract" "markdown" comment = .ok parsed) :
  ∀ c ∈ parsed.children, c ∈ comment.children ∨ ∀ d ∈ c.children, Throughout Grown d ∧ isSplitter d = false := by
  obtain ⟨steps,-,h⟩ := bind_ok h
  split at h
  · cases h
    exact fun c => .inl
  split at h
  · obtain ⟨m,hm,h⟩ := bind_ok h
    obtain ⟨m',hm',rfl⟩ := map_ok h
    intro c hc
    rcases mem_append.mp hc with hc | hc
    · exact .inl hc
    · obtain rfl := mem_singleton.mp hc
      exact .inr (grown_markdown hm hm')
  · cases h

lemma grown_stages (hcm : ∀ c ∈ comment.children, Throughout (fun x => isSplitter x = false) c)
  (hp : parseExtract "extract" "markdown" comment = .ok parsed) (hnl : setNewlines parsed = .ok tree) :
  ∀ c ∈ tree.children, Throughout (fun x => Grown x ∨ ∀ d ∈ x.children.tail, isSplitter d = false) c := by
  obtain ⟨es,hes,rfl⟩ := map_ok hnl
  intro c hc
  obtain ⟨x,hx,head,inside,hh,hi,rfl⟩ := forall₂_mem_right (forall₂_mapHeadsEach hes) hc
  rcases parseExtract_children hp x hx with ho | hn
  · obtain ⟨hs,hb⟩ := throughout_iff.mp (hcm x ho)
    have hk : ∀ d ∈ inside, Throughout (fun x => isSplitter x = false) d :=
      throughout_mapHeadsEach (fun y y' ys hy hy' _ => (isSplitter_setNewline hy').trans hy) hi hb
    have ha : Throughout (fun x => isSplitter x = false) { head with children := inside } :=
      throughout_iff.mpr ⟨(isSplitter_setNewline hh).trans hs,hk⟩
    exact ha.deep.imp fun y hy => .inr fun d hd => hy.2 d (mem_of_mem_tail hd)
  · have hg := throughout_mapHeadsEach (fun y y' ys hy hy' hys => grown_setNewline hy hy' hys) hi
      fun d hd => (hn d hd).1
    have hu := unmarked_mapHeadsEach (fun _ _ => isSplitter_setNewline) hi fun d hd => (hn d hd).2
    exact throughout_iff.mpr ⟨.inr fun d hd => hu d (mem_of_mem_tail hd),fun d hd => (hg d hd).imp fun _ => .inl⟩

end

section

variable {comment parsed tree e' : Element}

lemma keepsKind_grown_iff {x : Element} (h : Grown x ∨ ∀ d ∈ x.children.tail, isSplitter d = false) :
  KeepsKind x ↔ ((∃ d ∈ x.children.tail, isSplitter d) → x.tag = "paragraph") := by
  rw [keepsKind_iff]
  by_cases hw : ∀ d ∈ x.children.tail, isSplitter d = false
  · refine iff_of_true (.inl hw) fun ⟨d,hd,hm⟩ => ?_
    exact absurd hm (ne_true_of_eq_false (hw d hd))
  have hc : ∃ d ∈ x.children.tail, isSplitter d := by simpa using hw
  have hne : x.children ≠ [] := by
    rintro hl
    simp [hl] at hc
  have hk := ((h.resolve_right hw).resolve_left hne).2
  rw [or_iff_right hw,← hk]
  exact ⟨fun ht _ => ht,fun ht => ht hc⟩

theorem splitting_keeps_kind_iff (hcomment : ∀ c ∈ comment.children,
    Throughout (fun x => isSplitter x = false) c)
    (hparse : parseExtract "extract" "markdown" comment = .ok parsed)
    (hnewlines : setNewlines parsed = .ok tree) (hsplit : resolveSplitters tree = .ok e') :
    e'.children.map cleared = (partsEach tree.children).map Prod.snd ∧
    (∀ x ∈ tree.descendants, ∀ y ∈ (parts x).2, y.tag = x.tag ∧
      ∀ name, y.value? name = if name = "newlines" then x.value? "newlines" else none) ∧
    ((∀ x ∈ tree.descendants, KeepsKind x) ↔
      ∀ x ∈ tree.descendants, (∃ d ∈ x.children.tail, isSplitter d = true) → x.tag = "paragraph") :=
        by
  refine ⟨?_, fun x _ y hy => of_mem_parts hy, forall₂_congr fun x hx => keepsKind_grown_iff ?_⟩
  · rw [← (resolveSplitters_parts hsplit).1, map_map]
    rfl
  · rw [descendants_eq] at hx
    obtain ⟨c, hc, hx⟩ := mem_flatMap.mp hx
    exact grown_stages hcomment hparse hnewlines c hc x hx

def spokenComment (text : String) : Element :=
  make "comment" [("source","a.h")] none [make "extract" [] (some text)]

theorem splitting_keeps_kind_at_paragraph : ∃ parsed tree e',
    parseExtract "extract" "markdown" (spokenComment "a @param b *c* @return d") = .ok parsed ∧
    setNewlines parsed = .ok tree ∧ resolveSplitters tree = .ok e' ∧
    (∃ x ∈ tree.descendants, (parts x).2.length = 2) ∧ ∀ x ∈ tree.descendants, KeepsKind x := by
  have hcomment : ∀ c ∈ (spokenComment "a @param b *c* @return d").children,
      Throughout (fun x => isSplitter x = false) c := by
    unfold Throughout
    decide +kernel
  have hstages : ((do
      setNewlines (← parseExtract "extract" "markdown" (spokenComment "a @param b *c* @return d"))).toOption.map
        fun tree => ((resolveSplitters tree).toOption.isSome,
          decide (∃ x ∈ tree.descendants, (parts x).2.length = 2),
          decide (∀ x ∈ tree.descendants, (∃ d ∈ x.children.tail, isSplitter d = true) →
            x.tag = "paragraph"))) =
      some (true, true, true) := by
    decide +kernel
  obtain ⟨tree, htree, hall⟩ := Option.map_eq_some_iff.mp hstages
  obtain ⟨hreturns, hrest⟩ := Prod.mk.inj hall
  obtain ⟨hcut, hparagraphs⟩ := Prod.mk.inj hrest
  obtain ⟨parsed, hparse, hnewlines⟩ := bind_ok (ok_of_toOption htree)
  obtain ⟨e', he'⟩ := Option.isSome_iff_exists.mp hreturns
  have hsplit := ok_of_toOption he'
  obtain ⟨-, -, hkinds⟩ := splitting_keeps_kind_iff hcomment hparse hnewlines hsplit
  exact ⟨parsed, tree, e', hparse, hnewlines, hsplit, of_decide_eq_true hcut,
    hkinds.mpr (of_decide_eq_true hparagraphs)⟩

def levels (e : Element) : List (Option String) :=
  (e.descendants.filter (·.tag == "header")).map (·.attribute? "level")

theorem header_loses_level : ∃ parsed tree e',
    parseExtract "extract" "markdown" (spokenComment "# a @return b") = .ok parsed ∧
    setNewlines parsed = .ok tree ∧ resolveSplitters tree = .ok e' ∧
    levels tree = [some "1"] ∧ levels e' = [some "1", none] := by
  have hstages : ((do
      let parsed ← parseExtract "extract" "markdown" (spokenComment "# a @return b")
      let tree ← setNewlines parsed
      let e' ← resolveSplitters tree
      return (levels tree, levels e')) : Except Fault _).toOption = some ([some "1"], [some "1", none]) := by
    decide +kernel
  obtain ⟨parsed, hparse, hrest⟩ := bind_ok (ok_of_toOption hstages)
  obtain ⟨tree, hnewlines, hrest⟩ := bind_ok hrest
  obtain ⟨e', hsplit, hlast⟩ := bind_ok hrest
  obtain ⟨hpre, hafter⟩ := Prod.mk.inj (Except.ok.inj hlast)
  exact ⟨parsed, tree, e', hparse, hnewlines, hsplit, hpre, hafter⟩

end

end Docweave.Tree
