import Docweave.Proofs.Jobs.UnmarkedDrawing
import Docweave.Proofs.Trees.Rounds

namespace Docweave.Tree

open List hiding tail
open Element
open Edition (final)

def blockTags : List String := ["paragraph","header","list","block_code"]

def InLine (e : Element) : Prop := e.attribute? "layout" = some "span" ∨ e.has "resolved" = true

def Hosts (e : Element) : Prop := e.tag ∈ ["paragraph","header","list_item"] ∨ InLine e

structure Textual (e : Element) : Prop where
  notMarker : e.tag ≠ "doc"
  text : e.text ≠ none → e.children = [] ∧ e.has "resolved" = false
  block : e.tag ∈ blockTags → e.attribute? "layout" = none ∧ e.has "resolved" = false

structure Movable (e : Element) : Prop extends Textual e where
  hosts : ∀ c ∈ e.children, c.has "resolved" = true → Hosts e
  kinds : e.has "resolved" = true → (∀ c ∈ e.children, InLine c) ∨ ∀ c ∈ e.children, c.tag ∈ blockTags

structure LiftShape (e : Element) : Prop where
  root : ¬ Hosts e
  all : Throughout Movable e

instance (e : Element) : Decidable (InLine e) := inferInstanceAs (Decidable (_ ∨ _))

instance (e : Element) : Decidable (Hosts e) := inferInstanceAs (Decidable (_ ∨ _))

instance (e : Element) : Decidable (Movable e) :=
  decidable_of_iff ((e.tag ≠ "doc" ∧ (e.text ≠ none → e.children = [] ∧ e.has "resolved" = false) ∧
      (e.tag ∈ blockTags → e.attribute? "layout" = none ∧ e.has "resolved" = false)) ∧
    (∀ c ∈ e.children, c.has "resolved" = true → Hosts e) ∧
    (e.has "resolved" = true → (∀ c ∈ e.children, InLine c) ∨ ∀ c ∈ e.children, c.tag ∈ blockTags))
    ⟨fun ⟨⟨hmkr,htext,hblock⟩,hhosts,hkinds⟩ => ⟨⟨hmkr,htext,hblock⟩,hhosts,hkinds⟩,
      fun h => ⟨⟨h.notMarker,h.text,h.block⟩,h.hosts,h.kinds⟩⟩

instance (e : Element) : Decidable (LiftShape e) :=
  decidable_of_iff (¬ Hosts e ∧ ∀ x ∈ e :: e.descendants, Movable x) ⟨fun h => ⟨h.1,h.2⟩,fun h => ⟨h.root,h.all⟩⟩

variable {e : Element}

def InBlock (e : Element) : Prop :=
  e.tag ∈ blockTags ∧ e.attribute? "layout" = none ∧ e.has "resolved" = false

def IsMarker (e : Element) : Prop := e.tag = "doc" ∧ e.attribute? "layout" = some "marker"

structure Sound (e : Element) : Prop where
  host : (∃ c ∈ e.children, c.has "resolved" = true) → sign? e = none
  kinds : e.has "resolved" = true →
    sign? e = none ∧ ((∀ c ∈ e.children, InLine c) ∨ ∀ c ∈ e.children, InBlock c)

structure Calm (e : Element) : Prop where
  unresolved : e.has "resolved" = false
  sound : Throughout Sound e

structure Rooted (e : Element) : Prop where
  self : e.has "resolved" = false
  children : ∀ c ∈ e.children, c.has "resolved" = false

lemma Movable.sound (h : Movable e) (hk : ∀ c ∈ e.children, Movable c) : Sound e := by
  have hs (hne : e.text = none) : sign? e = none := by
    rw [sign?,if_neg h.notMarker,hne]
    rfl
  refine ⟨?_,fun hr => ⟨hs ?_,(h.kinds hr).imp_right fun hb c hc => ?_⟩⟩
  · rintro ⟨c,hc,-⟩
    refine hs (by_contra fun ht => ?_)
    rw [(h.text ht).1] at hc
    cases hc
  · by_contra ht
    rw [(h.text ht).2] at hr
    cases hr
  · exact ⟨hb c hc,(hk c hc).block (hb c hc)⟩

lemma LiftShape.sound (h : LiftShape e) : Throughout Sound e :=
  h.all.deep.imp fun _ hx => hx.1.sound hx.2

lemma LiftShape.rooted (h : LiftShape e) : Rooted e := by
  constructor
  · by_contra hr
    exact h.root (.inr (.inr (eq_true_of_ne_false hr)))
  · intro c hc
    by_contra hr
    exact h.root ((throughout_iff.mp h.all).1.hosts c hc (eq_true_of_ne_false hr))

structure LooksLike (e e' : Element) : Prop where
  tag : e'.tag = e.tag
  text : e'.text = e.text
  value? : ∀ name, name ≠ "liftedTree" → e'.value? name = e.value? name

namespace LooksLike

variable {marks : Bool} {e e' : Element}

lemma of_sameHead (h : SameHead e e') : LooksLike e e' := ⟨h.tag,h.text,fun name _ => h.value? name⟩

lemma children (e : Element) (es : List Element) : LooksLike e { e with children := es } :=
  ⟨rfl,rfl,fun _ _ => rfl⟩

lemma noteLift (loc : String) (e : Element) : LooksLike e (noteLift .final loc e) :=
  ⟨rfl,rfl,fun _ hn => value?_set_ne e hn loc⟩

variable (h : LooksLike e e')

include h

lemma has_resolved : e'.has "resolved" = e.has "resolved" := by
  rw [has,has,h.value? "resolved" (by decide)]

lemma layout : e'.attribute? "layout" = e.attribute? "layout" := by
  rw [attribute?,attribute?,h.value? "layout" (by decide)]

lemma originOf : originOf e' = originOf e := by
  rw [Tree.originOf,Tree.originOf,h.value? "source" (by decide),h.value? "uri" (by decide)]

lemma sign? : sign? e' = sign? e := by
  rw [Tree.sign?,Tree.sign?,h.tag,h.text,h.originOf]

lemma edge (sign : Origin → Sign) : edge marks sign e' = edge marks sign e := by
  rw [Tree.edge,Tree.edge,h.has_resolved,h.originOf]

lemma inLine (he : InLine e) : InLine e' := by
  rwa [InLine,h.layout,h.has_resolved]

lemma inBlock (he : InBlock e) : InBlock e' := by
  rwa [InBlock,h.tag,h.layout,h.has_resolved]

lemma reading (hk : e'.children.flatMap (reading marks) = e.children.flatMap (Tree.reading marks)) :
  reading marks e' = Tree.reading marks e := by
  rw [reading_eq,reading_eq,h.edge,h.edge,h.sign?,hk]

lemma sound (he : Sound e)
  (hk : ∀ c' ∈ e'.children, ∃ c ∈ e.children, LooksLike c c') : Sound e' := by
  refine ⟨fun ⟨c',hc',hr⟩ => ?_,fun hr => ?_⟩
  · obtain ⟨c,hc,hl⟩ := hk c' hc'
    rw [h.sign?]
    exact he.host ⟨c,hc,hl.has_resolved.symm.trans hr⟩
  · obtain ⟨hs,hkn⟩ := he.kinds (h.has_resolved.symm.trans hr)
    refine ⟨h.sign?.trans hs,hkn.imp (fun ha c' hc' => ?_) fun ha c' hc' => ?_⟩
    · obtain ⟨c,hc,hl⟩ := hk c' hc'
      exact hl.inLine (ha c hc)
    · obtain ⟨c,hc,hl⟩ := hk c' hc'
      exact hl.inBlock (ha c hc)

end LooksLike

section

variable {marks b : Bool} {p r src m c g : Element} {es ps ms stay go opening op closing cl : List Element}
  {j i : Nat} {name s : String}

structure Hollow (p : Element) : Prop where
  sign : sign? p = none
  unresolved : p.has "resolved" = false

def Bears (p : Element) (es ps : List Element) : Prop := ps = [{ p with children := es }] ∨ es = [] ∧ ps = []

namespace Bears

lemma reading (h : Bears p es ps) (hp : Hollow p) :
    ps.flatMap (reading marks) = es.flatMap (Tree.reading marks) := by
  have hl := LooksLike.children p es
  rcases h with rfl | ⟨rfl,rfl⟩
  · rw [flatMap_singleton,reading_eq,hl.edge,hl.edge,hl.sign?,edge_unresolved hp.unresolved,
      edge_unresolved hp.unresolved,hp.sign,append_nil]
    rfl
  · rfl

lemma mem (h : Bears p es ps) {x : Element} (hx : x ∈ ps) : x = { p with children := es } := by
  rcases h with rfl | ⟨-,rfl⟩
  · exact mem_singleton.mp hx
  · cases hx

end Bears

structure Marks (marks : Bool) (sign : Origin → Sign) (r : Element) (ms : List Element) : Prop where
  leaf : ∀ m ∈ ms, m.children = [] ∧ m.has "resolved" = false ∧ IsMarker m
  reading : ms.flatMap (reading marks) = edge marks sign r

namespace Marks

variable {sign : Origin → Sign}

lemma light (h : Marks marks sign r ms) :
  weight final.isReference ms = 0 ∧ weight final.isReference (ms.flatMap Element.children) = 0 := by
  have hk : ms.flatMap Element.children = [] := flatMap_eq_nil_iff.mpr fun m hm => (h.leaf m hm).1
  refine ⟨countP_eq_zero.mpr fun x hx => ?_,by rw [hk]; rfl⟩
  obtain ⟨m,hm,hx⟩ := mem_flatMap.mp hx
  obtain ⟨hl,hu,-⟩ := h.leaf m hm
  rw [inOrder_eq,hl] at hx
  obtain rfl := mem_singleton.mp hx
  exact ne_true_of_eq_false hu

lemma calm (h : Marks marks sign r ms) : ∀ m ∈ ms, Calm m := by
  intro m hm
  obtain ⟨hl,hu,-⟩ := h.leaf m hm
  refine ⟨hu,throughout_leaf ⟨fun ⟨c,hc,_⟩ => ?_,fun hr => ?_⟩ hl⟩
  · rw [hl] at hc
    cases hc
  · rw [hu] at hr
    cases hr

end Marks

lemma value?_copyAttributes_none (h : src.value? name = none) (ns : List String) (tgt : Element) :
  (copyAttributes ns src tgt).value? name = tgt.value? name := by
  induction ns generalizing tgt with
  | nil => rfl
  | cons other ns ih =>
    rw [copyAttributes,foldl_cons]
    cases hv : src.value? other with
    | none => exact ih tgt
    | some v =>
      have hne : name ≠ other := by
        rintro rfl
        rw [h] at hv
        cases hv
      exact (ih _).trans (value?_setValue_ne tgt hne v)

lemma value?_copyAttributes {ns : List String} {tgt : Element} (hn : name ∈ ns)
  (ht : tgt.value? name = none) : (copyAttributes ns src tgt).value? name = src.value? name := by
  cases hv : src.value? name with
  | none => exact (value?_copyAttributes_none hv ns tgt).trans ht
  | some v =>
    -- Copying an attribute twice gives the same value twice.
    have hc (ns : List String) (tgt : Element) (h : name ∈ ns ∨ tgt.value? name = some v) :
        (copyAttributes ns src tgt).value? name = some v := by
      induction ns generalizing tgt with
      | nil => exact h.resolve_left not_mem_nil
      | cons other ns ih =>
        rw [copyAttributes,foldl_cons]
        by_cases ho : name = other
        · subst ho
          rw [hv]
          exact ih _ (.inr (value?_setValue tgt name (ne_missing_of_value? hv)))
        have hr : name ∈ ns ∨ tgt.value? name = some v :=
          h.imp_left fun hm => (mem_cons.mp hm).resolve_left ho
        cases src.value? other with
        | none => exact ih tgt hr
        | some w => exact ih _ (hr.imp_right (value?_setValue_ne tgt ho w).trans)
    exact hc ns tgt (.inl hn)

lemma xml_empty {e : Element} (h : e.xml = .ok s) (htx : e.text = none) (ht : e.tail = none)
  (hk : e.children = []) : ∃ a, s = "<" ++ e.tag ++ a ++ " />" := by
  obtain ⟨tag,attrs,text,tail,children⟩ := e
  obtain rfl : text = none := htx
  obtain rfl : tail = none := ht
  obtain rfl : children = [] := hk
  obtain ⟨a,-,hr⟩ := bind_ok h
  obtain ⟨inside,-,rfl⟩ := map_ok hr
  refine ⟨a,?_⟩
  have he : escapeText ((none : Option String).getD "") = "" := rfl
  rw [he,String.append_empty]
  rfl

lemma opening_text {a : String} (h : s = "<" ++ "doc" ++ a ++ " />") :
  String.ofList (s.toList.take (s.toList.length - 3) ++ ['>']) ≠ "</doc>" := by
  intro heq
  have hl : s.toList = '<' :: 'd' :: 'o' :: 'c' :: (a.toList ++ [' ','/','>']) := by
    rw [h]
    simp [String.toList_append]
  have hc := congrArg String.toList heq
  rw [hl] at hc
  simp at hc

lemma marks_leaf {sign : Origin → Sign} (hr : r.has "resolved") (hl : m.children = [])
    (hrs : m.has "resolved" = false)
  (hm : IsMarker m) (hs : sign? m = some (sign (originOf r))) : Marks true sign r [m] := by
  refine ⟨forall_mem_singleton.mpr ⟨hl,hrs,hm⟩,?_⟩
  rw [flatMap_singleton,reading_eq,edge_unresolved hrs,edge_unresolved hrs,hs,hl,edge,hr]
  rfl

lemma sign?_marker (h : m.tag = "doc") :
    sign? m = some (if m.text = some "</doc>" then .closes (originOf m) else .opens (originOf m)) := if_pos h

lemma marks_markers {a b : Element} (h : markers .final r = .ok (a,b)) (hr : r.has "resolved") :
  Marks true .opens r [a] ∧ Marks true .closes r [b] := by
  let doc : Element := ({ tag := "doc" } : Element).set "layout" "marker"
  obtain ⟨ht,htx,htl,hl⟩ := copyAttributes_fields ["source","uri"] r doc
  have hrs : (copyAttributes ["source","uri"] r doc).value? "resolved" = none :=
    value?_copyAttributes_ne _ _ _ (by decide)
  have hly : (copyAttributes ["source","uri"] r doc).value? "layout" = some (.text "marker") :=
    value?_copyAttributes_ne _ _ _ (by decide)
  have hsr : (copyAttributes ["source","uri"] r doc).value? "source" = r.value? "source" :=
    value?_copyAttributes (by decide) rfl
  have hu : (copyAttributes ["source","uri"] r doc).value? "uri" = r.value? "uri" :=
    value?_copyAttributes (by decide) rfl
  rw [markers] at h
  generalize copyAttributes ["source","uri"] r doc = marked at *
  obtain ⟨op,hop,h⟩ := bind_ok h
  cases hop
  obtain ⟨s,hs,h⟩ := bind_ok h
  cases h
  have ho : originOf marked = originOf r := by
    rw [originOf,originOf,hsr,hu]
  constructor
  · obtain ⟨x,hx⟩ := xml_empty hs htx htl hl
    rw [ht] at hx
    have hne := fun heq => opening_text hx (Option.some.inj heq)
    have hst : originOf (marked.set "layout" "marker") = originOf marked := by
      rw [originOf,originOf,value?_set_ne marked (by decide),value?_set_ne marked (by decide)]
    refine marks_leaf hr hl ?_ ⟨ht,attribute?_set marked "layout" "marker"⟩ ?_
    · exact congrArg Option.isSome ((value?_set_ne marked (by decide) "marker").trans hrs)
    · rw [sign?_marker,if_neg hne,← ho,← hst]
      · rfl
      · exact ht
  · have ha : marked.attribute? "layout" = some "marker" := by rw [attribute?,hly]
    refine marks_leaf hr hl (congrArg Option.isSome hrs) ⟨ht,ha⟩ ?_
    rw [sign?_marker,← ho]
    · rfl
    · exact ht

lemma canContain_inLine (h : InLine c) : canContain .final p c = .ok true := by
  rw [canContain,if_pos]
  exact h.imp_right fun hr => .inr ⟨rfl,hr⟩

lemma canContain_inBlock (h : InBlock c) (hb : canContain .final p c = .ok b) :
    b = decide (p.tag = "list_item") := by
  obtain ⟨ht,hly,hr⟩ := h
  have hm : c.tag ≠ "list_item" := by
    intro heq
    rw [heq] at ht
    exact absurd ht (by decide)
  have hbq : (c.tag == "list_item") = false := beq_false_of_ne hm
  rw [canContain,hly,hr] at hb
  by_cases hp : p.tag = "list_item"
  · by_cases hc : c.tag = "paragraph" ∨ c.tag = "list"
    · simpa [hp,hc] using hb.symm
    · simp [hp,hc,hm] at hb
  by_cases hl : p.tag = "list"
  · simpa [hl,hbq] using hb.symm
  · by_cases hf : p.tag = "paragraph" ∨ p.tag = "header"
    · simpa [hp,hf] using hb.symm
    · simp [hp,hl,hf] at hb

lemma spanContained_spec {d : Edition} (h : spanContained d p es = .ok (stay,go)) : stay ++ go = es ∧
    (∀ c ∈ stay, canContain d p c = .ok true) ∧ (go ≠ [] → ∃ c ∈ es, canContain d p c = .ok false) := by
  induction es generalizing stay with
  | nil =>
    cases h
    exact ⟨rfl,by simp,fun hne => absurd rfl hne⟩
  | cons c rest ih =>
    obtain ⟨b,hb,h⟩ := bind_ok h
    cases b with
    | false =>
      cases h
      exact ⟨rfl,by simp,fun _ => ⟨c,mem_cons_self,hb⟩⟩
    | true =>
      obtain ⟨⟨inside,outside⟩,hr,hl⟩ := bind_ok h
      cases hl
      obtain ⟨ha,hi,ho⟩ := ih hr
      refine ⟨by rw [cons_append,ha],forall_mem_cons.mpr ⟨hb,hi⟩,fun hne => ?_⟩
      obtain ⟨x,hx,hf⟩ := ho hne
      exact ⟨x,mem_cons_of_mem _ hx,hf⟩

lemma spanContained_kinds (hk : (∀ c ∈ es, InLine c) ∨ ∀ c ∈ es, InBlock c)
  (h : spanContained .final p es = .ok (stay,go)) : go = [] ∨ stay = [] ∧ ∀ c ∈ es, InBlock c := by
  obtain ⟨rfl,hs,hg⟩ := spanContained_spec h
  refine or_iff_not_imp_left.mpr fun hne => ?_
  obtain ⟨c,hc,hf⟩ := hg hne
  rcases hk with hi | hb
  · cases (canContain_inLine (hi c hc)).symm.trans hf
  · refine ⟨eq_nil_iff_forall_not_mem.mpr fun d hd => ?_,hb⟩
    have ht := canContain_inBlock (hb d (mem_append_left _ hd)) (hs d hd)
    cases ht.trans (canContain_inBlock (hb c hc) hf).symm

def tailOf (p : Element) : Element :=
  noteLift .final "tailParent" (copyAttributes p.attributeNames p { tag := p.tag })

lemma tag_tailOf (p : Element) : (tailOf p).tag = p.tag := (copyAttributes_fields _ _ _).1

lemma value?_tailOf (p : Element) {name : String} (hnm : name ≠ "liftedTree") :
  (tailOf p).value? name = p.value? name := by
  rw [tailOf,(LooksLike.noteLift "tailParent" _).value? name hnm]
  by_cases hm : name ∈ p.attributeNames
  · exact value?_copyAttributes hm rfl
  · have hn : p.value? name = none := value?_of_attributes fun a ha heq => hm (heq ▸ mem_map_of_mem ha)
    exact (value?_copyAttributes_none hn _ _).trans hn.symm

lemma hollow_tailOf (h : Hollow p) : Hollow (tailOf p) := by
  have hne : p.tag ≠ "doc" := by
    intro heq
    have hs := h.sign
    rw [sign?_marker heq] at hs
    cases hs
  have ht : (tailOf p).text = none := (copyAttributes_fields _ _ _).2.1
  constructor
  · rw [sign?,tag_tailOf,if_neg hne,ht]
    rfl
  · rw [has,value?_tailOf p (by decide),← has,h.unresolved]

def placed (p : Element) (j : Nat) (opening closing stay go : List Element) : List Element :=
  let before := p.children.take j
  let after := p.children.drop (j + 1)
  let stay := stay.map (noteLift .final "parent")
  let go := go.map (noteLift .final "grandparent")
  let (kept,lifted) : List Element × List Element :=
    if go.isEmpty then (before ++ opening ++ stay ++ closing ++ after,[])
    else
      let (inside,first) := if stay.isEmpty then ([],opening) else (opening ++ stay,[])
      let moved := inside ++ after
      (before,first ++ go ++ closing ++ if moved.isEmpty then [] else [{ tailOf p with children := moved }])
  (if j = 0 ∧ kept.isEmpty then [] else [{ p with children := kept }]) ++ lifted

lemma bears_unless (p : Element) (es : List Element) (c : Prop) [Decidable c] :
    Bears p es (if c ∧ es.isEmpty then [] else [{ p with children := es }]) := by
  split
  · next h => exact .inr ⟨List.isEmpty_iff.mp h.2,rfl⟩
  · exact .inl rfl

inductive Parts (p : Element) (before opening stay go closing after : List Element) : List Element → Prop
  | whole {ps : List Element} (hgo : go = []) (h : Bears p (before ++ opening ++ stay ++ closing ++ after) ps) :
      Parts p before opening stay go closing after ps
  | parted {front inside first back : List Element} (hgo : go ≠ []) (hfront : Bears p before front)
      (hmoved : (stay = [] ∧ inside = [] ∧ first = opening) ∨
        (stay ≠ [] ∧ inside = opening ++ stay ∧ first = []))
      (hback : Bears (tailOf p) (inside ++ after) back) :
      Parts p before opening stay go closing after (front ++ (first ++ go ++ closing ++ back))

lemma parts_placed (p : Element) (j : Nat) (op cl stay go : List Element) :
  Parts p (p.children.take j) op (stay.map (noteLift .final "parent"))
    (go.map (noteLift .final "grandparent")) cl (p.children.drop (j + 1))
    (placed p j op cl stay go) := by
  have hb (es : List Element) :
    Bears (tailOf p) es (if es.isEmpty then [] else [{ tailOf p with children := es }]) := by
    simpa using bears_unless (tailOf p) es True
  cases go with
  | nil =>
    have h := bears_unless p (p.children.take j ++ op ++ stay.map (noteLift .final "parent") ++ cl ++
      p.children.drop (j + 1)) (j = 0)
    refine .whole rfl ?_
    rw [placed]
    simpa using h
  | cons c go =>
    have hf := bears_unless p (p.children.take j) (j = 0)
    cases stay with
    | nil =>
      have hp : Parts p (p.children.take j) op [] ((c :: go).map (noteLift .final "grandparent")) cl
        (p.children.drop (j + 1)) _ := .parted (by simp) hf (.inl ⟨rfl,rfl,rfl⟩) (hb _)
      simpa [placed] using hp
    | cons d stay =>
      have hp : Parts p (p.children.take j) op ((d :: stay).map (noteLift .final "parent"))
        ((c :: go).map (noteLift .final "grandparent")) cl (p.children.drop (j + 1)) _ :=
        .parted (by simp) hf (.inr ⟨by simp,rfl,rfl⟩) (hb _)
      simpa [placed] using hp

lemma Bears.sum_le (test : Element → Bool) (F : Element → Nat) (h : Bears p es ps)
    (hF : ∀ es, F { p with children := es } ≤ weight test es) :
    (ps.map F).sum ≤ weight test es := by
  rcases h with rfl | ⟨rfl,rfl⟩
  · exact hF es
  · exact Nat.zero_le _

namespace Parts

open List hiding tail

variable {pre after : List Element}

lemma reading (h : Parts p pre op stay go cl after ps) (hn : go = [] ∨ stay = []) (hp : Hollow p) :
  ps.flatMap (reading marks) = (pre ++ op ++ (stay ++ go) ++ cl ++ after).flatMap (Tree.reading marks) := by
  cases h with
  | whole hgo h => rw [h.reading hp,hgo,append_nil]
  | parted hgo hf hm hb =>
    rcases hm with ⟨rfl,rfl,rfl⟩ | ⟨hs,-,-⟩
    · simp only [flatMap_append,hf.reading hp,hb.reading (hollow_tailOf hp),nil_append,append_assoc]
    · exact absurd hn (not_or.mpr ⟨hgo,hs⟩)

lemma mem (h : Parts p pre op stay go cl after ps) {x : Element} (hx : x ∈ ps) :
    (∃ es, (x = { p with children := es } ∨ x = { tailOf p with children := es }) ∧
      ∀ c ∈ es, c ∈ pre ++ after ∨ c ∈ op ++ cl ∨ c ∈ stay) ∨ x ∈ op ++ cl ∨ x ∈ go := by
  cases h with
  | whole _ h =>
    refine .inl ⟨_,.inl (h.mem hx),fun c hc => ?_⟩
    simp only [mem_append] at hc ⊢
    tauto
  | parted _ hf hm hb =>
    simp only [mem_append] at hx
    rcases hx with hx | ((hx | hx) | hx) | hx
    · exact .inl ⟨_,.inl (hf.mem hx),fun c hc => .inl (mem_append_left _ hc)⟩
    · rcases hm with ⟨-,-,rfl⟩ | ⟨-,-,rfl⟩
      · exact .inr (.inl (mem_append_left _ hx))
      · cases hx
    · exact .inr (.inr hx)
    · exact .inr (.inl (mem_append_right _ hx))
    refine .inl ⟨_,.inr (hb.mem hx),fun c hc => ?_⟩
    rcases hm with ⟨-,rfl,-⟩ | ⟨-,rfl,-⟩
    · exact .inl (mem_append_right _ hc)
    · simp only [mem_append] at hc ⊢
      tauto

lemma calm (h : Parts p pre op stay go cl after ps) (hp : Hollow p) (hm : ∀ m ∈ op ++ cl, Calm m)
  (hk : ∀ c ∈ pre ++ after, Throughout Sound c) (hs : ∀ c ∈ stay, Throughout Sound c) (hgo : ∀ c ∈ go, Calm c) :
  ∀ x ∈ ps, Calm x := by
  have hb {q : Element} (hq : Hollow q) {es : List Element}
      (hes : ∀ c ∈ es, c ∈ pre ++ after ∨ c ∈ op ++ cl ∨ c ∈ stay) : Calm { q with children := es } := by
    have hl := LooksLike.children q es
    have hu := hl.has_resolved.trans hq.unresolved
    refine ⟨hu,throughout_iff.mpr ⟨⟨fun _ => hl.sign?.trans hq.sign,fun hr => ?_⟩,fun c hc => ?_⟩⟩
    · rw [hu] at hr
      cases hr
    · exact (hes c hc).elim (hk c) fun hc => hc.elim (fun hc => (hm c hc).sound) (hs c)
  intro x hx
  rcases h.mem hx with ⟨es,rfl | rfl,hes⟩ | hx | hx
  · exact hb hp hes
  · exact hb (hollow_tailOf hp) hes
  · exact hm x hx
  · exact hgo x hx

section

variable (test : Element → Bool) (F : Element → Nat)

lemma sum_le (h : Parts p pre op stay go cl after ps)
    (hp : ∀ es, F { p with children := es } ≤ weight test es)
    (ht : ∀ es, F { tailOf p with children := es } ≤ weight test es)
      (ho : (op.map F).sum = 0 ∧ weight test op = 0)
    (hc : (cl.map F).sum = 0 ∧ weight test cl = 0) (hgo : (go.map F).sum ≤ weight test go) :
    (ps.map F).sum ≤ weight test pre + weight test (stay ++ go) + weight test after := by
  cases h with
  | whole hn h =>
    have hs := h.sum_le test F hp
    simp only [weight_append] at hs ⊢
    omega
  | parted _ hf hm hb =>
    have hf := hf.sum_le test F hp
    have hb := hb.sum_le test F ht
    simp only [map_append,sum_append,weight_append] at hb ⊢
    rcases hm with ⟨rfl,rfl,rfl⟩ | ⟨-,rfl,rfl⟩
    · simp only [weight_nil] at hb ⊢
      omega
    · simp only [map_nil,sum_nil,weight_append] at hb ⊢
      omega

end

end Parts

def marksOf (marks : Bool) (r : Element) : Except Fault (List Element × List Element) :=
  if marks then do
    let (a,b) ← markers .final r
    pure ([a],[b])
  else pure ([],[])

lemma marks_marksOf (h : marksOf marks r = .ok (op,cl)) (hr : r.has "resolved") :
  Marks marks .opens r op ∧ Marks marks .closes r cl := by
  cases marks with
  | true =>
    obtain ⟨⟨a,b⟩,hab,hl⟩ := bind_ok h
    cases hl
    exact marks_markers hab hr
  | false =>
    cases h
    exact ⟨⟨by simp,rfl⟩,⟨by simp,rfl⟩⟩

lemma liftReference_eq (hi : g.children[i]? = some p) (hj : p.children[j]? = some r) :
    liftReference .final marks i j g = do
      let (op,cl) ← marksOf marks r
      let (stay,go) ← spanContained .final p r.children
      return { g with
        children := g.children.take i ++ placed p j op cl stay go ++ g.children.drop (i + 1) } := by
  rw [liftReference,hi]
  dsimp only
  rw [hj]
  cases marks <;> simp [marksOf,placed,tailOf]

lemma liftReference_placed {g' : Element} (hi : g.children[i]? = some p) (hj : p.children[j]? = some r)
  (h : liftReference .final marks i j g = .ok g') : ∃ op cl stay go, marksOf marks r = .ok (op,cl) ∧
    spanContained .final p r.children = .ok (stay,go) ∧
    g' = { g with children := g.children.take i ++ placed p j op cl stay go ++ g.children.drop (i + 1) } := by
  rw [liftReference_eq hi hj] at h
  obtain ⟨⟨op,cl⟩,hm,h⟩ := bind_ok h
  obtain ⟨⟨stay,go⟩,hc,hl⟩ := bind_ok h
  exact ⟨op,cl,stay,go,hm,hc,(Except.ok.inj hl).symm⟩

section

variable (loc : String)

lemma reading_noted (es : List Element) :
  (es.map (noteLift .final loc)).flatMap (reading marks) = es.flatMap (reading marks) := by
  have hn (e : Element) : reading marks (noteLift .final loc e) = reading marks e :=
    (LooksLike.noteLift loc e).reading rfl
  rw [flatMap_map]
  simp only [hn]

lemma sound_noted {es : List Element} (h : ∀ c ∈ es, Throughout Sound c) :
  ∀ c ∈ es.map (noteLift .final loc), Throughout Sound c := by
  intro c hc
  obtain ⟨e,he,rfl⟩ := mem_map.mp hc
  obtain ⟨hs,hk⟩ := throughout_iff.mp (h e he)
  refine throughout_iff.mpr ⟨(LooksLike.noteLift loc e).sound hs fun c hc => ?_,hk⟩
  exact ⟨c,hc,.of_sameHead (.refl c)⟩

end

end

structure LiftsOne (marks : Bool) (e e' : Element) : Prop where
  head : SameHead e e'
  reading : reading marks e' = reading marks e
  children : ∀ c' ∈ e'.children, c'.has "resolved" = true → ∃ c ∈ e.children, c.has "resolved" = true
  sound : Throughout Sound e'

section

variable {marks : Bool} {e g g' p r x : Element} {xs : List Element} {i j : Nat} {addr : Address}

lemma liftsOne_replace (he : Throughout Sound e) (hx : e.children[i]? = some x)
    (hsl : Sound { e with children := e.children.take i ++ xs ++ e.children.drop (i + 1) })
    (hrd : xs.flatMap (reading marks) = reading marks x)
    (hxs : ∀ c ∈ xs, Throughout Sound c ∧ (c.has "resolved" → x.has "resolved")) :
    LiftsOne marks e { e with children := e.children.take i ++ xs ++ e.children.drop (i + 1) } := by
  have hl := LooksLike.children e (e.children.take i ++ xs ++ e.children.drop (i + 1))
  refine ⟨⟨rfl,rfl,rfl,rfl⟩,hl.reading ?_,?_,throughout_iff.mpr ⟨hsl,?_⟩⟩
  · conv_rhs => rw [split_at hx]
    simp only [flatMap_append,flatMap_cons,hrd,append_assoc]
  · simp only [forall_mem_append]
    refine ⟨⟨fun c hc hr => ⟨c,mem_of_mem_take hc,hr⟩,fun c hc hr => ?_⟩,
      fun c hc hr => ⟨c,mem_of_mem_drop hc,hr⟩⟩
    exact ⟨x,mem_of_getElem? hx,(hxs c hc).2 hr⟩
  · simp only [forall_mem_append]
    exact ⟨⟨fun c hc => he.child (mem_of_mem_take hc),fun c hc => (hxs c hc).1⟩,
      fun c hc => he.child (mem_of_mem_drop hc)⟩

lemma liftsOne_liftReference (hg : Throughout Sound g) (hgr : g.has "resolved" = false)
  (hi : g.children[i]? = some p) (hpr : p.has "resolved" = false) (hj : p.children[j]? = some r)
  (hr : r.has "resolved") (h : liftReference .final marks i j g = .ok g') : LiftsOne marks g g' := by
  have hp : Throughout Sound p := hg.child (mem_of_getElem? hi)
  have hrf : Throughout Sound r := hp.child (mem_of_getElem? hj)
  obtain ⟨hsg,hk⟩ := (throughout_iff.mp hrf).1.kinds hr
  have hh : Hollow p := ⟨(throughout_iff.mp hp).1.host ⟨r,mem_of_getElem? hj,hr⟩,hpr⟩
  obtain ⟨op,cl,stay,go,hm,hc,rfl⟩ := liftReference_placed hi hj h
  obtain ⟨ho,hcl⟩ := marks_marksOf hm hr
  obtain ⟨ha,-,-⟩ := spanContained_spec hc
  have hkn := spanContained_kinds hk hc
  have hst : ∀ c ∈ stay, Throughout Sound c := fun c hc => hrf.child (ha ▸ mem_append_left _ hc)
  have hgo : ∀ c ∈ go, Throughout Sound c := fun c hc => hrf.child (ha ▸ mem_append_right _ hc)
  have hpp := parts_placed p j op cl stay go
  have hs := hpp.calm hh (forall_mem_append.mpr ⟨ho.calm,hcl.calm⟩)
    (fun c hc => hp.child ((mem_append.mp hc).elim mem_of_mem_take mem_of_mem_drop)) (sound_noted _ hst)
    fun c hc => ⟨?_,sound_noted _ hgo c hc⟩
  · refine liftsOne_replace hg hi ⟨fun ⟨c,hc,hrs⟩ => ?_,fun hrs => ?_⟩ ?_ fun c hc =>
      ⟨(hs c hc).sound,fun hrs => ?_⟩
    · -- What has come in is not resolved, so the child was there before.
      refine (throughout_iff.mp hg).1.host ⟨c,?_,hrs⟩
      rcases mem_append.mp hc with hc | hc
      · rcases mem_append.mp hc with hc | hc
        · exact mem_of_mem_take hc
        · rw [(hs c hc).unresolved] at hrs
          cases hrs
      · exact mem_of_mem_drop hc
    · exact absurd (hgr.symm.trans hrs) (by decide)
    · have hrd : reading marks r = op.flatMap (reading marks) ++ r.children.flatMap (reading marks) ++
          cl.flatMap (reading marks) := by
        rw [reading_eq,hsg,ho.reading,hcl.reading]
        rfl
      rw [hpp.reading (by simpa using hkn.imp_right And.left) hh,reading_eq marks p,hh.sign,edge_unresolved hpr,
        edge_unresolved hpr]
      conv_rhs => rw [split_at hj]
      simp only [flatMap_append,flatMap_cons,reading_noted,hrd,← ha,append_assoc,append_nil]
      rfl
    · rw [(hs c hc).unresolved] at hrs
      cases hrs
  · obtain ⟨x,hx,rfl⟩ := mem_map.mp hc
    have hb := (hkn.resolve_left (ne_nil_of_mem hx)).2 x (ha ▸ mem_append_right _ hx)
    exact (LooksLike.noteLift _ x).has_resolved.trans hb.2.2

lemma LiftsOne.modifyAt (h : LiftsOne marks g g') (he : Throughout Sound e) (hat : e.at? addr = some g) :
  LiftsOne marks e (e.modifyAt (fun _ => g') addr) := by
  induction addr generalizing e with
  | nil =>
    cases hat
    exact h
  | cons i addr ih =>
    obtain ⟨c,hc,hat⟩ := at?_cons_iff.mp hat
    have hb := ih (he.child (mem_of_getElem? hc)) hat
    have hl := LooksLike.of_sameHead hb.head
    rw [Element.modifyAt,modify_at hc]
    refine liftsOne_replace he hc ?_ ?_ ?_
    · refine (LooksLike.children e _).sound (throughout_iff.mp he).1 ?_
      simp only [forall_mem_append,forall_mem_singleton]
      exact ⟨⟨fun x hx => ⟨x,mem_of_mem_take hx,.of_sameHead (.refl x)⟩,c,mem_of_getElem? hc,hl⟩,
        fun x hx => ⟨x,mem_of_mem_drop hx,.of_sameHead (.refl x)⟩⟩
    · rw [flatMap_singleton,hb.reading]
    · intro x hx
      obtain rfl := mem_singleton.mp hx
      exact ⟨hb.sound,hl.has_resolved.symm.trans⟩

end

section

variable {marks : Bool} {e e' x : Element} {addr : Address} {j i : Nat}

lemma Rooted.of_none (h : Rooted e) (hn : firstGrandchild? final.isReference e = none) :
  Throughout (fun x => x.has "resolved" = false) e :=
  throughout_iff.mpr ⟨h.self,fun _ hc => throughout_iff.mpr ⟨h.children _ hc,
    throughout_of_firstGrandchild? hn hc⟩⟩

lemma Rooted.next (h : Rooted e) (ho : LiftsOne marks e e') : Rooted e' := by
  refine ⟨(LooksLike.of_sameHead ho.head).has_resolved.trans h.self,fun c' hc' => ?_⟩
  by_contra hr
  obtain ⟨c,hc,hc'⟩ := ho.children c' hc' (eq_true_of_ne_false hr)
  rw [h.children c hc] at hc'
  cases hc'

lemma Rooted.above (h : Rooted e) {addr above : Address} {i j : Nat}
  (hf : firstGrandchild? final.isReference e = some (addr,i,j)) (ha : above <+: addr ++ [i])
  {y : Element} (hy : e.at? above = some y) : y.has "resolved" = false := by
  obtain ⟨r,hr,hrs,he⟩ := firstGrandchild?_some hf
  rcases above with _ | ⟨k,_ | ⟨l,above⟩⟩
  · cases hy
    exact h.self
  · obtain ⟨c,hc,hs⟩ := at?_cons_iff.mp hy
    obtain rfl := Option.some.inj hs
    exact h.children c (mem_of_getElem? hc)
  have hls : addr ++ [i,j] = addr ++ [i] ++ [j] := by simp
  refine he _ ?_ ?_ (by simp) y hy
  · rw [hls]
    exact ha.trans (prefix_append _ _)
  intro heq
  have hl := ha.length_le
  rw [heq] at hl
  simp only [length_append,length_cons] at hl
  omega

def liftRound (marks : Bool) : Element → Option (Except Fault Element) :=
  grandchildRound Edition.final.isReference (liftReference .final marks)

lemma weight_noted (loc : String) (es : List Element) :
  weight final.isReference (es.map (noteLift .final loc)) = weight final.isReference es := by
  induction es with
  | nil => rfl
  | cons e es ih =>
    rw [map_cons,weight_cons,weight_cons,ih,Edition.isReference,(LooksLike.noteLift loc e).has_resolved]
    rfl

lemma isReference_tailOf (p : Element) (es : List Element) :
    final.isReference { tailOf p with children := es } = p.has "resolved" :=
  congrArg Option.isSome (value?_tailOf p (by decide))

lemma consumes_liftReference (ms : Bool) : Consumes final.isReference (liftReference .final ms) where
  heads _ _ := rfl
  step := by
    intro g g' p r i j hi hj hr h
    obtain ⟨op,cl,stay,go,hm,hcn,rfl⟩ := liftReference_placed hi hj h
    obtain ⟨ho,hc⟩ := marks_marksOf hm hr
    obtain ⟨ha,-,-⟩ := spanContained_spec hcn
    have hpr := parts_placed p j op cl stay go
    have hsp : weight final.isReference p.children = weight final.isReference (p.children.take j) +
        (weight final.isReference r.children + 1 +
          weight final.isReference (p.children.drop (j + 1))) := by
      conv_lhs => rw [split_at hj]
      rw [weight_append,weight_cons,if_pos hr]
    have hin : weight final.isReference (stay.map (noteLift .final "parent") ++
        go.map (noteLift .final "grandparent")) = weight final.isReference r.children := by
      rw [weight_append,weight_noted,weight_noted,← weight_append,ha]
    refine ⟨_,rfl,?_,fun hp => ?_⟩
    · have hb (es : List Element) := weight_flatMap_children final.isReference es
      have hs := hpr.sum_le final.isReference (fun x => weight final.isReference x.children)
        (fun _ => Nat.le_refl _) (fun _ => Nat.le_refl _) ⟨hb op ▸ ho.light.2,ho.light.1⟩
        ⟨hb cl ▸ hc.light.2,hc.light.1⟩ (hb _ ▸ weight_children_le _)
      rw [hb]
      omega
    · have hon (es : List Element) := weight_eq_sum final.isReference es
      have hbr (x : Element) (hx : final.isReference x = false) :
          weight final.isReference [x] ≤ weight final.isReference x.children := by
        rw [weight_cons,hx]
        exact Nat.le_refl _
      have hs := hpr.sum_le final.isReference (fun x => weight final.isReference [x])
        (fun es => hbr { p with children := es } hp) (fun es => hbr _ ((isReference_tailOf p es).trans hp))
        ⟨hon op ▸ ho.light.1,ho.light.1⟩ ⟨hon cl ▸ hc.light.1,hc.light.1⟩
        (hon _).ge
      rw [hon]
      omega

lemma liftsOne_round (hr : Rooted e) (he : Throughout Sound e) (h : liftRound marks e = some (.ok e')) :
  LiftsOne marks e e' := by
  obtain ⟨addr,i,j,hf,g,p,r,g',hg,hi,hp,hj,hrs,-,hg',rfl⟩ := grandchildRound_ok h
  refine (liftsOne_liftReference (he.at hg) ?_ hi ?_ hj hrs hg').modifyAt he hg
  · exact hr.above hf (prefix_append _ _) hg
  · exact hr.above hf prefix_rfl hp

end

section

open Markup (make)

variable {marks : Bool} {e e' : Element}

lemma liftTrees_reading (h : liftTrees .final marks e = .ok e') (hs : LiftShape e) :
  reading marks e' = reading marks e ∧ Throughout (fun x => x.has "resolved" = false) e' := by
  obtain ⟨lifted,hlf,hl⟩ := bind_ok h
  obtain rfl : lifted = e' := by
    split at hl
    · obtain ⟨_,-,hl⟩ := bind_ok hl
      obtain ⟨_,-,hl⟩ := bind_ok hl
      cases hl
    · exact Except.ok.inj hl
  have hen := (consumes_liftReference marks).ends_size e
  rw [hlf] at hen
  have hk := hen.keeps (P := fun x => Rooted x ∧ Throughout Sound x ∧
    reading marks x = reading marks e) fun x x' hn hx =>
    have ho := liftsOne_round hx.1 hx.2.1 hn
    ⟨hx.1.next ho,ho.sound,ho.reading.trans hx.2.2⟩
  obtain ⟨hr,-,hrd⟩ := hk ⟨hs.rooted,hs.sound,rfl⟩ lifted rfl
  exact ⟨hrd,hr.of_none (Option.map_eq_none_iff.mp hen.no_round)⟩

theorem lifting_keeps_reading_order (hshape : LiftShape e) (h : liftTrees .final marks e = .ok e') :
    textsOf (inOrder e') = textsOf (inOrder e) ∧
      (marks = true → Nests (signs e') ∧ (signs e').filterMap Sign.opens? = originsOf (inOrder e) ∧
        ∀ earlier r later, inOrder e = earlier ++ r :: later → r.has "resolved" = true →
          Enclosed (signs e') earlier r) := by
  obtain ⟨hreading, hlifted⟩ := liftTrees_reading h hshape
  refine ⟨?_, fun hmarks => ?_⟩
  · rw [← words_reading marks, hreading, words_reading]
  · subst hmarks
    have hnoMarker : Throughout (fun x => x.tag ≠ "doc") e := hshape.all.imp fun _ hx => hx.notMarker
    rw [← reading_of_lifted hlifted, hreading]
    exact ⟨nests_reading hnoMarker, starts_reading hnoMarker, fun earlier r later horder hr =>
      enclosed_reading hnoMarker horder hr⟩

section

def plainSpan (text : String) : Element := make "text" [("layout","span")] (some text)

def resolvedTo (uri : String) (children : List Element) : Element :=
  make "doc_uri" [("uri",uri),("resolved",isTrue true),("source","a.md")] none children

def nestedComment : Element :=
  make "comment" [] none [make "extract" [] (some "text"),make "markdown" [] none
    [make "paragraph" [("newlines","2")] none [plainSpan "one",resolvedTo "#two"
      [make "paragraph" [("newlines","2")] none [plainSpan "two",
        resolvedTo "#three" [plainSpan "three"],plainSpan "four"]],
      plainSpan "five"]]]

theorem lifting_keeps_reading_order_at_nested : LiftShape nestedComment ∧
    ∃ e', liftTrees .final true nestedComment = .ok e' ∧
      textsOf (inOrder e') = ["text", "one", "two", "three", "four", "five"] ∧
      Nests (signs e') := by
  have hshape : LiftShape nestedComment := by decide +kernel
  obtain ⟨e', he'⟩ : ∃ e', (liftTrees .final true nestedComment).toOption = some e' :=
    Option.isSome_iff_exists.mp (by decide +kernel)
  obtain ⟨htexts, hmarks⟩ := lifting_keeps_reading_order hshape (ok_of_toOption he')
  exact ⟨hshape, e', ok_of_toOption he', htexts.trans (by decide +kernel), (hmarks rfl).1⟩

end

end

end Docweave.Tree
