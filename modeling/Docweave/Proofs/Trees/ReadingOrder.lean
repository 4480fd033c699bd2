import Docweave.Proofs.Markdown.Markup
import Mathlib.Algebra.Order.Ring.Int

namespace Docweave.Tree

open List hiding tail
open Element

structure Origin where
  source : Option Value
  uri : Option Value
  deriving DecidableEq

def originOf (e : Element) : Origin := ⟨e.value? "source",e.value? "uri"⟩

inductive Sign where
  | words (text : String)
  | opens (origin : Origin)
  | closes (origin : Origin)
  deriving DecidableEq

def Sign.words? : Sign → Option String
  | words text => some text
  | _ => none

def Sign.opens? : Sign → Option Origin
  | opens origin => some origin
  | _ => none

def sign? (e : Element) : Option Sign :=
  if e.tag = "doc" then some (if e.text = some "</doc>" then .closes (originOf e) else .opens (originOf e))
  else e.text.map .words

def inOrder (e : Element) : List Element := e :: e.descendants

def textsOf (es : List Element) : List String := es.filterMap fun e => if e.tag = "doc" then none else e.text

def originsOf (es : List Element) : List Origin :=
  es.filterMap fun e => if e.has "resolved" then some (originOf e) else none

def signs (e : Element) : List Sign := (inOrder e).filterMap sign?

def edge (marks : Bool) (sign : Origin → Sign) (e : Element) : List Sign :=
  if marks && e.has "resolved" then [sign (originOf e)] else []

mutual

def reading (marks : Bool) : Element → List Sign
  | ⟨tag,attributes,text,tail,children⟩ =>
    let e : Element := ⟨tag,attributes,text,tail,children⟩
    edge marks .opens e ++ ((sign? e).toList ++ readings marks children) ++ edge marks .closes e

def readings (marks : Bool) : List Element → List Sign
  | [] => []
  | e :: es => reading marks e ++ readings marks es

end

inductive Nests : List Sign → Prop
  | nil : Nests []
  | words (text : String) {signs : List Sign} : Nests signs → Nests (.words text :: signs)
  | pair (origin : Origin) {inside rest : List Sign} : Nests inside → Nests rest →
      Nests (.opens origin :: (inside ++ .closes origin :: rest))

section

variable {ms : Bool}

lemma readings_eq (ms : Bool) (es : List Element) : readings ms es = es.flatMap (reading ms) := by
  induction es with
  | nil => rfl
  | cons e es ih => rw [readings,ih,flatMap_cons]

lemma reading_eq (ms : Bool) (e : Element) : reading ms e =
  edge ms .opens e ++ ((sign? e).toList ++ e.children.flatMap (reading ms)) ++ edge ms .closes e := by
  cases e
  rw [reading,readings_eq]

lemma inOrder_eq (e : Element) : inOrder e = e :: e.children.flatMap inOrder := by
  rw [inOrder,descendants_eq]
  rfl

lemma edge_unresolved {e : Element} (h : e.has "resolved" = false) (sign : Origin → Sign) :
    edge ms sign e = [] := by
  rw [edge,h,Bool.and_false]
  rfl

end

section

variable {ms : Bool} {e r : Element} {es : List Element}

lemma length_inOrder (e : Element) : (inOrder e).length = e.size := by
  have hs (es : List Element) (h : ∀ c ∈ es, (inOrder c).length = c.size) :
      (es.flatMap inOrder).length = sizes es := by
    induction es with
    | nil => rfl
    | cons c es ih =>
      rw [forall_mem_cons] at h
      rw [flatMap_cons,length_append,h.1,ih h.2,sizes]
  induction e using byChildren with
  | step e ih =>
    rw [inOrder_eq,length_cons,hs e.children ih]
    cases e
    rw [size,Nat.add_comm]

lemma inOrder_child {c x : Element} (hc : c ∈ e.children) (hx : x ∈ inOrder c) : x ∈ inOrder e := by
  rw [inOrder_eq]
  exact mem_cons_of_mem _ (mem_flatMap.mpr ⟨c,hc,hx⟩)

lemma gather_reading {β : Type} {f : Sign → Option β} {own : Element → Option β}
  (hcl : ∀ x ∈ inOrder e, (edge ms .closes x).filterMap f = [])
  (ho : ∀ x ∈ inOrder e, (edge ms .opens x ++ (sign? x).toList).filterMap f = [x].filterMap own) :
  (reading ms e).filterMap f = (inOrder e).filterMap own := by
  induction e using byChildren with
  | step e ih =>
    have hb : (e.children.flatMap (reading ms)).filterMap f = (e.children.flatMap inOrder).filterMap own := by
      rw [filterMap_flatMap,filterMap_flatMap]
      exact flatMap_congr fun c hc =>
        ih c hc (fun x hx => hcl x (inOrder_child hc hx)) fun x hx => ho x (inOrder_child hc hx)
    have hs : (inOrder e).filterMap own = [e].filterMap own ++ (e.children.flatMap inOrder).filterMap own := by
      rw [inOrder_eq,← filterMap_append]
      rfl
    rw [hs,← hb,← ho e mem_cons_self,reading_eq,← append_assoc]
    simp only [filterMap_append,hcl e mem_cons_self,append_nil]

lemma edge_filterMap {β : Type} {f : Sign → Option β} {sign : Origin → Sign} (h : ∀ o, f (sign o) = none)
  (e : Element) : (edge ms sign e).filterMap f = [] := by
  rw [edge]
  split <;> simp [h]

lemma words_own (ms : Bool) (e : Element) :
  (edge ms .opens e ++ (sign? e).toList).filterMap Sign.words? = textsOf [e] := by
  rw [filterMap_append,edge_filterMap fun _ => rfl,sign?,textsOf]
  by_cases ht : e.tag = "doc"
  · rw [if_pos ht]
    split <;> simp [ht,Sign.words?]
  · cases htx : e.text <;> simp [ht,htx,Sign.words?]

lemma starts_own (h : e.tag ≠ "doc") :
  (edge true .opens e ++ (sign? e).toList).filterMap Sign.opens? = originsOf [e] := by
  rw [edge,sign?,if_neg h,originsOf]
  cases hr : e.has "resolved" <;> cases e.text <;> simp [hr,Sign.opens?]

lemma words_reading (ms : Bool) (e : Element) : (reading ms e).filterMap Sign.words? = textsOf (inOrder e) :=
  gather_reading (fun x _ => edge_filterMap (fun _ => rfl) x) fun x _ => words_own ms x

lemma starts_reading (h : Throughout (fun x => x.tag ≠ "doc") e) :
  (reading true e).filterMap Sign.opens? = originsOf (inOrder e) :=
  gather_reading (fun x _ => edge_filterMap (fun _ => rfl) x) fun x hx => starts_own (h x hx)

lemma reading_of_lifted (h : Throughout (fun x => x.has "resolved" = false) e) : reading ms e = signs e := by
  have hg : (reading ms e).filterMap some = (inOrder e).filterMap sign? := by
    refine gather_reading (fun x hx => ?_) fun x hx => ?_
    · rw [edge_unresolved (h x hx)]
      rfl
    · rw [edge_unresolved (h x hx)]
      cases hs : sign? x <;> simp [hs]
  rwa [filterMap_some] at hg

lemma Nests.append {a b : List Sign} (ha : Nests a) (hb : Nests b) : Nests (a ++ b) := by
  induction ha with
  | nil => exact hb
  | words text _ ih => exact .words text ih
  | pair origin hi _ _ ih =>
    rw [cons_append,append_assoc]
    exact .pair origin hi ih

lemma nests_inside (ht : e.tag ≠ "doc") (h : ∀ c ∈ e.children, Nests (reading ms c)) :
  Nests ((sign? e).toList ++ e.children.flatMap (reading ms)) := by
  have hk : Nests (e.children.flatMap (reading ms)) := by
    generalize e.children = es at h
    induction es with
    | nil => exact .nil
    | cons c es ih =>
      rw [forall_mem_cons] at h
      exact h.1.append (ih h.2)
  rw [sign?,if_neg ht]
  cases e.text with
  | none => exact hk
  | some text => exact .words text hk

lemma nests_reading (h : Throughout (fun x => x.tag ≠ "doc") e) : Nests (reading true e) := by
  induction e using byChildren with
  | step e ih =>
    obtain ⟨ht,hk⟩ := throughout_iff.mp h
    have hi := nests_inside ht fun c hc => ih c hc (hk c hc)
    rw [reading_eq,edge,edge]
    cases e.has "resolved" with
    | false => simpa using hi
    | true => simpa using Nests.pair (originOf e) hi .nil

def Enclosed (signs : List Sign) (earlier : List Element) (r : Element) : Prop :=
  ∃ before inside after, signs = before ++ .opens (originOf r) :: (inside ++ .closes (originOf r) :: after) ∧
    before.filterMap Sign.opens? = originsOf earlier ∧ before.filterMap Sign.words? = textsOf earlier ∧
    Nests inside ∧ inside.filterMap Sign.words? = textsOf (inOrder r)

lemma Enclosed.append_left {signs front : List Sign} {earlier first : List Element}
    (h : Enclosed signs earlier r)
  (hs : front.filterMap Sign.opens? = originsOf first)
  (hw : front.filterMap Sign.words? = textsOf first) :
  Enclosed (front ++ signs) (first ++ earlier) r := by
  obtain ⟨pre,inside,after,rfl,ho,ht,hi⟩ := h
  refine ⟨front ++ pre,inside,after,(append_assoc _ _ _).symm,?_,?_,hi⟩
  · rw [filterMap_append,hs,ho,originsOf,originsOf,originsOf,filterMap_append]
  · rw [filterMap_append,hw,ht,textsOf,textsOf,textsOf,filterMap_append]

lemma Enclosed.append_right {signs : List Sign} {earlier : List Element} (h : Enclosed signs earlier r)
  (back : List Sign) : Enclosed (signs ++ back) earlier r := by
  obtain ⟨pre,inside,after,rfl,hr⟩ := h
  exact ⟨pre,inside,after ++ back,by simp,hr⟩

lemma enclosed_readings (hes : ∀ c ∈ es, Throughout (fun x => x.tag ≠ "doc") c) {earlier later : List Element}
  (ih : ∀ c ∈ es, ∀ {earlier later : List Element}, inOrder c = earlier ++ r :: later →
    Enclosed (reading true c) earlier r) (ho : es.flatMap inOrder = earlier ++ r :: later) :
  Enclosed (es.flatMap (reading true)) earlier r := by
  induction es generalizing earlier with
  | nil => simp at ho
  | cons c es ihes =>
    rw [forall_mem_cons] at hes ih
    have hb {rest : List Element} (hr : es.flatMap inOrder = rest ++ r :: later) :
        Enclosed (reading true c ++ es.flatMap (reading true)) (inOrder c ++ rest) r :=
      (ihes hes.2 ih.2 hr).append_left (starts_reading hes.1) (words_reading true c)
    rcases append_eq_append_iff.mp ho with ⟨rest,rfl,hr⟩ | ⟨_ | ⟨first,rest⟩,hr,hl⟩
    · exact hb hr
    · rw [← append_nil earlier,← hr,← append_nil (inOrder c)]
      exact hb hl.symm
    · cases hl
      exact (ih.1 hr).append_right _

lemma enclosed_reading (h : Throughout (fun x => x.tag ≠ "doc") e) {earlier later : List Element}
  (ho : inOrder e = earlier ++ r :: later) (hr : r.has "resolved") : Enclosed (reading true e) earlier r := by
  induction e using byChildren generalizing earlier later with
  | step e ih =>
    obtain ⟨ht,hk⟩ := throughout_iff.mp h
    rw [inOrder_eq] at ho
    cases earlier with
    | nil =>
      obtain ⟨rfl,-⟩ := cons.inj ho
      refine ⟨[],_,[],?_,rfl,rfl,nests_inside ht fun c hc => nests_reading (hk c hc),?_⟩
      · rw [reading_eq,edge,edge,hr]
        rfl
      · have hw := words_reading true e
        rw [reading_eq,filterMap_append,filterMap_append,edge_filterMap fun _ => rfl,
          edge_filterMap fun _ => rfl,append_nil] at hw
        exact hw
    | cons first earlier =>
      obtain ⟨rfl,hb⟩ := cons.inj ho
      have he := enclosed_readings hk (fun c hc => ih c hc (hk c hc)) hb
      rw [reading_eq,← append_assoc (edge true .opens e)]
      exact (he.append_left (starts_own ht) (words_own true e)).append_right _

end

end Docweave.Tree
