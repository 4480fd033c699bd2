import Docweave.Proofs.Layout.Rendering
import Docweave.Proofs.Markdown.Lexing
import Docweave.Proofs.Trees.SourceStamps

namespace Docweave.Tree

open List hiding tail
open Element Text
open Markup (Seldom CodeOf)

section

def NoExtract (e : Element) : Prop := e.tag ≠ "extract"

variable {e e' : Element}

lemma countToLast_alike {es es' : List Element} (h : Forall₂ Alike es es') :
    countToLast es' = countToLast es := by
  have hm (es : List Element) :
    countToLast es = ((es.map Element.tag).reverse.dropWhile (· == "doc")).length := by
    rw [← map_reverse,dropWhile_map,length_map]
    rfl
  rw [hm,hm,tags_alike h]

lemma textPieces_alike (d : Edition) (indentWidth : Int) (h : AlikeHead e e') (he : NoExtract e) :
  textPieces d indentWidth e' = textPieces d indentWidth e := by
  have hv : e'.value? "verbatim" = e.value? "verbatim" := h.value?
  have hh : e'.has "verbatim" = e.has "verbatim" := h.has
  have hvr : e'.attribute? "verbatim" = e.attribute? "verbatim" := h.attribute?
  have hc (t : Element) : copyAttributes ["verbatim"] e' t = copyAttributes ["verbatim"] e t := by
    simp only [copyAttributes,foldl_cons,foldl_nil,hv]
  rw [textPieces,textPieces,h.text he,hh,hvr]
  cases e.text with
  | none => rfl
  | some text => simp only [hc]

lemma headerPieces_alike (d : Edition) (h : AlikeHead e e') : headerPieces d e' = headerPieces d e := by
  have hl : e'.attribute? "level" = e.attribute? "level" := h.attribute?
  rw [headerPieces,headerPieces,hl]

mutual

lemma pieces_alike (d : Edition) (indentWidth : Int) : ∀ {e e' : Element}, Alike e e' →
    Throughout NoExtract e → pieces d indentWidth e' = pieces d indentWidth e
  | ⟨tag,attrs,text,tail,children⟩, ⟨tag',attrs',text',tail',children'⟩, h, he => by
    obtain ⟨hp,ha⟩ := throughout_iff.mp he
    have hw : (Element.mk tag' attrs' text' tail' children').attribute? "wrap" =
      (Element.mk tag attrs text tail children).attribute? "wrap" := h.head.attribute?
    have ho : (Element.mk tag' attrs' text' tail' children').attribute? "ordered" =
      (Element.mk tag attrs text tail children).attribute? "ordered" := h.head.attribute?
    have hk : Forall₂ Alike children children' := h.children
    rw [pieces,pieces,hw,orderOf,orderOf,ho,headerPieces_alike d h.head,
      textPieces_alike d indentWidth h.head hp,countToLast_alike hk,
      childPieces_alike d indentWidth hk ha]

lemma childPieces_alike (d : Edition) (indentWidth : Int) : ∀ {es es' : List Element},
    Forall₂ Alike es es' → (∀ e ∈ es, Throughout NoExtract e) → ∀ order count idx last,
      childPieces d indentWidth order count idx last es' = childPieces d indentWidth order count idx last es
  | [], _, .nil, _, _, _, _, _ => rfl
  | e :: es, e' :: es', .cons he hes, ha, order, count, idx, last => by
    rw [forall_mem_cons] at ha
    have hl : e'.attribute? "layout" = e.attribute? "layout" := he.head.attribute?
    have hn : e'.attribute? "newlines" = e.attribute? "newlines" := he.head.attribute?
    have ht : transition d last e' = transition d last e := by
      rw [transition,transition,hl]
    simp only [childPieces,ht,hn,pieces_alike d indentWidth he ha.1,childPieces_alike d indentWidth hes ha.2]

end

end

def Plain (text : String) : Prop := ∀ c ∈ text.toList, ¬ Seldom c

lemma Plain.append {a b : String} (ha : Plain a) (hb : Plain b) : Plain (a ++ b) := by
  intro c hc
  rw [String.toList_append] at hc
  exact (mem_append.mp hc).elim (ha c) (hb c)

lemma plain_join {ts : List String} (h : ∀ t ∈ ts, Plain t) : Plain (String.join ts) := by
  intro c hc
  rw [String.toList_join] at hc
  obtain ⟨t,ht,hc⟩ := mem_flatMap.mp hc
  exact h t ht c hc

lemma plain_of_all {text : String} (h : text.toList.all (fun c => c != '\t' && c != '\r')) : Plain text := by
  intro c hc hs
  have hb := all_eq_true.mp h c hc
  rcases hs with rfl | rfl
  · cases hb
  · cases hb

lemma not_seldom_space : ¬ Seldom ' ' := by
  rintro (h | h) <;> cases h

lemma plain_spacesInt (n : Int) : Plain (spacesInt n) := by
  intro c hc
  rw [spacesInt,spaces,String.toList_ofList] at hc
  rw [eq_of_mem_replicate hc]
  exact not_seldom_space

section

variable {tag text : String}

def FinePiece (e : Element) : Prop := e.has "verbatim" = true → ∀ text, e.text = some text → Plain text

structure FineLine (e : Element) : Prop where
  complete : Complete e
  leaf : e.children = []
  plain : e.attribute? "hanging" = none → ∀ text, e.text = some text → Plain text

lemma complete_setValue {e : Element} (h : Complete e) (name : String) {v : Value} (hv : v ≠ .missing) :
  Complete (e.setValue name v) := by
  intro a ha
  rcases mem_setKey ha with ha | rfl
  · exact h a ha
  · exact hv

lemma complete_copyAttributes {t : Element} (h : Complete t) (ns : List String) (e : Element) :
  Complete (copyAttributes ns e t) := by
  induction ns generalizing t with
  | nil => exact h
  | cons name ns ih =>
    rw [copyAttributes,foldl_cons]
    cases hv : e.value? name with
    | none => exact ih h
    | some v => exact ih (complete_setValue h name (ne_missing_of_value? hv))

structure Layout.Fine (l : Layout) : Prop where
  done : ∀ e ∈ l.done, FineLine e
  split : l.split ≠ some .missing

variable {d : Edition} {l l' : Layout} {e : Element}

lemma Layout.Fine.add_done (h : l.Fine) {es : List Element} (hes : ∀ e ∈ es, FineLine e) :
  ∀ e ∈ l.done ++ es, FineLine e := by
  intro e he
  exact (mem_append.mp he).elim (h.done e) (hes e)

def verbatimLine (width : Int) (tag : String) (e : Element) (line : DisplayLine) : Element :=
  copyAttributes ["verbatim"] e
    { tag, attributes := [("bareLine",.text (isTrue true))]
      text := some (String.ofList
        (if line.whole.all isBlank then line.whole else (spacesInt width).toList ++ line.whole)) }

lemma verbatim_ok (h : l.verbatim d tag text e = .ok l') :
    ∃ wd, l' = { l with done := l.done ++ (displayLines text.toList).map (verbatimLine wd tag e) } := by
  have hf {wd : Except Fault Int} (hl : (do
        let wd ← wd
        let ls := (displayLines text.toList).map fun line =>
          if line.whole.all isBlank then line.whole else (spacesInt wd).toList ++ line.whole
        let elements := ls.map fun line => copyAttributes ["verbatim"] e
          ({ tag := tag, attributes := [("bareLine",.text (isTrue true))],
             text := some (String.ofList line) } : Element)
        return { l with done := l.done ++ elements }) = Except.ok l') :
      ∃ wd, l' =
        { l with done := l.done ++ (displayLines text.toList).map (verbatimLine wd tag e) } := by
    obtain ⟨wd,-,rfl⟩ := map_ok hl
    exact ⟨wd,by rw [map_map]; rfl⟩
  unfold Layout.verbatim at h
  by_cases he : (!l.texts.isEmpty) = true
  · rw [if_pos he] at h
    cases d with
    | final => cases h
    | draft =>
      obtain ⟨_,-,h⟩ := bind_ok h
      cases h
  · rw [if_neg he] at h
    split at h
    · exact hf h
    · exact hf h

lemma fineLine_verbatim (ht : Plain text) (wd : Int) {line : DisplayLine}
  (hln : line ∈ displayLines text.toList) : FineLine (verbatimLine wd tag e line) := by
  have hw : ∀ c ∈ line.whole, ¬ Seldom c := by
    intro c hc
    refine ht c ?_
    rw [← flatten_displayLines text.toList]
    exact mem_flatten.mpr ⟨_,mem_map.mpr ⟨line,hln,rfl⟩,hc⟩
  obtain ⟨-,hs,-,hl⟩ := copyAttributes_fields ["verbatim"] e
    { tag, attributes := [("bareLine",.text (isTrue true))]
      text := some (String.ofList
        (if line.whole.all isBlank then line.whole else (spacesInt wd).toList ++ line.whole)) }
  refine ⟨complete_copyAttributes (fun a ha => ?_) _ _,hl,fun _ text' ht' c hc => ?_⟩
  · obtain rfl := mem_singleton.mp ha
    simp
  · cases hs.symm.trans ht'
    rw [String.toList_ofList] at hc
    split at hc
    · exact hw c hc
    · exact (mem_append.mp hc).elim (plain_spacesInt wd c) (hw c)

lemma fine_verbatim (h : l.verbatim d tag text e = .ok l') (hl : l.Fine) (ht : Plain text) : l'.Fine := by
  obtain ⟨wd,rfl⟩ := verbatim_ok h
  refine ⟨hl.add_done fun x hx => ?_,hl.split⟩
  obtain ⟨line,hln,rfl⟩ := mem_map.mp hx
  exact fineLine_verbatim ht wd hln

lemma fine_newline (tag : String) (hl : l.Fine) : (l.newline tag).Fine := by
  refine ⟨hl.add_done fun x hx => ?_,by simp [Layout.newline]⟩
  obtain rfl := mem_singleton.mp hx
  refine ⟨fun a ha => ?_,rfl,fun hn => ?_⟩
  · rcases mem_append.mp ha with ha | ha
    · rw [Option.mem_toList,Option.map_eq_some_iff] at ha
      obtain ⟨v,hv,rfl⟩ := ha
      rintro rfl
      exact hl.split hv
    · obtain rfl := mem_singleton.mp ha
      simp
  · cases hs : l.split <;> simp [attribute?,value?,hs,lookup_cons] at hn

lemma fine_newlines (tag : String) (n : Nat) (hl : l.Fine) : (l.newlines tag n).Fine := by
  induction n generalizing l with
  | zero => exact hl
  | succ n ih => exact ih (fine_newline tag hl)

section

def Layout.indented (e : Element) (l : Layout) : Except Fault Layout :=
  match e.attribute? "indent" with
  | none => pure l
  | some change => do
    let n ← whole change
    pure { l with indent := l.indent + n, hanging := max l.hanging (l.indent + n) }

def Layout.parted (e : Element) (l : Layout) : Layout :=
  match e.value? "split" with
  | some v => { l with split := some v }
  | none => l

def Layout.filled (d : Edition) (tag : String) (e : Element) (l : Layout) : Except Fault Layout :=
  match e.text with
  | none => pure l
  | some text =>
    if e.has "verbatim" then l.verbatim d tag text e else pure { l with texts := l.texts ++ [text] }

def Layout.ended (tag : String) (e : Element) (l : Layout) : Except Fault Layout :=
  match e.attribute? "newlines" with
  | none => pure l
  | some n => do return l.newlines tag (← whole n).toNat

lemma add_eq (d : Edition) (l : Layout) (e : Element) : l.add d e = (do
      let l1 ← Layout.indented e { l with tag := some (l.tag.getD e.tag) }
      let l2 ← Layout.filled d (l.tag.getD e.tag) e (Layout.parted e l1)
      Layout.ended (l.tag.getD e.tag) e l2) := by
  unfold Layout.add Layout.indented Layout.parted Layout.filled Layout.ended
  cases e.attribute? "indent" with
  | none =>
    cases e.value? "split" <;> cases e.text <;> cases e.has "verbatim" <;> cases e.attribute? "newlines" <;> rfl
  | some change =>
    dsimp only
    cases whole change with
    | error err => rfl
    | ok n =>
      cases e.value? "split" <;> cases e.text <;> cases e.has "verbatim" <;> cases e.attribute?
        "newlines" <;> rfl

lemma fine_indented (h : Layout.indented e l = .ok l') (hl : l.Fine) : l'.Fine := by
  rw [Layout.indented] at h
  split at h
  · cases h
    exact hl
  · obtain ⟨n,-,rfl⟩ := map_ok h
    exact ⟨hl.done,hl.split⟩

lemma fine_parted (hl : l.Fine) : (Layout.parted e l).Fine := by
  rw [Layout.parted]
  split
  · next v hv => exact ⟨hl.done,fun hs => ne_missing_of_value? hv (Option.some.inj hs)⟩
  · exact hl

lemma fine_filled {tag : String} (h : Layout.filled d tag e l = .ok l') (hl : l.Fine)
  (he : FinePiece e) : l'.Fine := by
  rw [Layout.filled] at h
  split at h
  · cases h
    exact hl
  next text ht =>
    split at h
    · next hv => exact fine_verbatim h hl (he hv text ht)
    · cases h
      exact ⟨hl.done,hl.split⟩

lemma fine_ended {tag : String} (h : Layout.ended tag e l = .ok l') (hl : l.Fine) : l'.Fine := by
  rw [Layout.ended] at h
  split at h
  · cases h
    exact hl
  · obtain ⟨n,-,rfl⟩ := map_ok h
    exact fine_newlines tag n.toNat hl

lemma fine_add (h : l.add d e = .ok l') (hl : l.Fine) (he : FinePiece e) : l'.Fine := by
  rw [add_eq] at h
  obtain ⟨l1,h1,h⟩ := bind_ok h
  obtain ⟨l2,h2,h3⟩ := bind_ok h
  have hl1 : l1.Fine := fine_indented h1 ⟨hl.done,hl.split⟩
  exact fine_ended h3 (fine_filled h2 (fine_parted hl1) he)

end

lemma fine_close (hl : l.Fine) : ∀ e ∈ l.close, FineLine e := by
  rw [Layout.close]
  split
  · split
    · exact hl.done
    refine hl.add_done fun x hx => ?_
    obtain rfl := mem_singleton.mp hx
    refine ⟨fun a ha => ?_,rfl,fun hn => ?_⟩
    · rcases mem_cons.mp ha with rfl | ha
      · simp
      · obtain rfl := mem_singleton.mp ha
        simp
    · simp [attribute?,value?] at hn
  · exact hl.done

lemma fine_layOutFrom {es : List Element} {err : Option Fault} (hl : l.Fine)
  (hes : ∀ e ∈ es, FinePiece e) : ∀ e ∈ (layOutFrom d l es err).items, FineLine e := by
  induction es generalizing l with
  | nil =>
    cases err with
    | none => exact fine_close hl
    | some err => exact hl.done
  | cons e es ih =>
    rw [forall_mem_cons] at hes
    rw [layOutFrom]
    split
    · next l' ha => exact ih (fine_add ha hl hes.1) hes.2
    · exact hl.done

lemma mem_append_items {α : Type} {s t : Stream α} {x : α} (h : x ∈ (s.append t).items) :
  x ∈ s.items ∨ x ∈ t.items := by
  rw [Stream.append] at h
  split at h
  · exact .inl h
  · exact mem_append.mp h

lemma finePiece_of_has (h : e.has "verbatim" = false) : FinePiece e :=
  fun hv => absurd (h.symm.trans hv) Bool.false_ne_true

lemma finePiece_bare (d : Edition) (text : Option String) : FinePiece (piece d text []) :=
  finePiece_of_has rfl

lemma finePieces_ofExcept {pieces : Except Fault (List Element)}
  (h : ∀ ps, pieces = .ok ps → ∀ p ∈ ps, FinePiece p) : ∀ p ∈ (Stream.ofExcept pieces).items, FinePiece p := by
  cases pieces with
  | error err => exact forall_mem_nil _
  | ok ps => exact h ps rfl

lemma fine_textPieces (indentWidth : Int) (he : Literal Plain e) :
    ∀ p ∈ textPieces d indentWidth e, FinePiece p := by
  have hs {out : Element} (ho : FinePiece out) (wd : String) : FinePiece (out.set "indentFixed" wd) := by
    intro hv
    rw [has,value?_set_ne out (by decide : "verbatim" ≠ "indentFixed")] at hv
    exact ho hv
  intro p hp
  rw [textPieces] at hp
  split at hp
  · cases hp
  next text ht =>
    obtain rfl := mem_singleton.mp hp
    have ho : FinePiece (if e.has "verbatim" then copyAttributes ["verbatim"] e (piece d (some text) [])
        else piece d (some (collapse text)) []) := by
      split
      · next hv =>
          intro _ text' ht'
          rw [(copyAttributes_fields _ _ _).2.1] at ht'
          cases ht'
          exact (he hv).2 text ht
      · exact finePiece_bare d _
    split
    · exact hs ho _
    · exact ho

lemma fine_transition (d : Edition) (last : Option String) (e : Element) :
  ∀ p ∈ (transition d last e).2, FinePiece p := by
  intro p hp
  rw [transition] at hp
  split at hp
  · obtain rfl := mem_singleton.mp hp
    exact finePiece_of_has rfl
  · split at hp
    · cases hp
    · cases hp

mutual

lemma fine_pieces (d : Edition) (indentWidth : Int) : ∀ {e : Element}, Throughout (Literal Plain) e →
    ∀ p ∈ (pieces d indentWidth e).items, FinePiece p
  | ⟨tag,attrs,text,tail,children⟩, he => by
    obtain ⟨hhd,hk⟩ := throughout_iff.mp he
    have hw : ∀ p ∈ (Stream.ofList (((Element.mk tag attrs text tail children).attribute? "wrap").map
        fun s => piece d (some s) []).toList).items, FinePiece p := by
      intro p hp
      obtain ⟨s,-,rfl⟩ := Option.map_eq_some_iff.mp (Option.mem_toList.mp hp)
      exact finePiece_bare d _
    have hh : ∀ p ∈ (Stream.ofExcept (headerPieces d ⟨tag,attrs,text,tail,children⟩)).items, FinePiece p := by
      refine finePieces_ofExcept fun ps hps p hp => ?_
      rw [headerPieces] at hps
      split at hps
      · cases hps
        cases hp
      obtain ⟨n,-,rfl⟩ := map_ok hps
      rcases mem_append.mp hp with hp | hp
      · rw [eq_of_mem_replicate hp]
        exact finePiece_bare d _
      · rw [mem_singleton.mp hp]
        exact finePiece_bare d _
    intro p hp
    rcases mem_append_items hp with hp | hp
    · exact (mem_append_items hp).elim (hw p) (hh p)
    · rcases mem_append_items hp with hp | hp
      · exact fine_textPieces indentWidth hhd p hp
      · exact (mem_append_items hp).elim (fine_childPieces d indentWidth _ _ _ _ hk p) (hw p)

lemma fine_childPieces (d : Edition) (indentWidth : Int) (order : Option Bool) (count idx : Nat)
    (last : Option String) : ∀ {es : List Element}, (∀ e ∈ es, Throughout (Literal Plain) e) →
      ∀ p ∈ (childPieces d indentWidth order count idx last es).items, FinePiece p
  | [], _, p, hp => by
    cases hp
  | e :: es, hes, p, hp => by
    rw [forall_mem_cons] at hes
    rcases mem_append_items hp with hp | hp
    · rcases mem_append_items hp with hp | hp
      · rcases mem_append_items hp with hp | hp
        · refine finePieces_ofExcept (fun ps hps p hp => ?_) p hp
          cases order with
          | none =>
            cases hp
          | some ord =>
            obtain ⟨mark,-,rfl⟩ := map_ok hps
            obtain rfl := mem_singleton.mp hp
            exact finePiece_of_has rfl
        · exact fine_transition d last e p hp
      · exact fine_pieces d indentWidth hes.1 p hp
    rcases mem_append_items hp with hp | hp
    · rcases mem_append.mp hp with hp | hp
      · cases order with
        | none => cases hp
        | some ord =>
          obtain rfl := mem_singleton.mp hp
          exact finePiece_of_has rfl
      split at hp
      · split at hp
        · obtain rfl := mem_singleton.mp hp
          exact finePiece_of_has rfl
        · cases hp
      · cases hp
    · exact fine_childPieces d indentWidth order count _ _ hes.2 p hp

end

def laid (e : Element) : Except Fault (List Element) := do
  (logicalLines .final (.ofList (← (pieces .final 4 e).toExcept))).toExcept

lemma items_of_toExcept {α : Type} {s : Stream α} {l : List α} (h : s.toExcept = .ok l) : s.items = l := by
  rw [Stream.toExcept] at h
  split at h
  · cases h
  · exact Except.ok.inj h

lemma fine_laid {ls : List Element} (h : laid e = .ok ls) (he : Throughout (Literal Plain) e) :
  ∀ l ∈ ls, FineLine l := by
  obtain ⟨made,hm,h⟩ := bind_ok h
  rw [← items_of_toExcept h]
  refine fine_layOutFrom ⟨by simp,by simp⟩ ?_
  rw [← items_of_toExcept hm]
  exact fine_pieces .final 4 he

end

section

variable {lang : Dialect} {e e' : Element} {wd : Option Int} {start : String}

lemma fillFrom_subset {wd : Int} {ind : List Char} {fuel : Nat} {isFirst : Bool}
  {list : List (List Char)} : ∀ line ∈ fillFrom wd ind fuel isFirst list,
    ∀ c ∈ line, c ∈ ind ∨ c ∈ list.flatten := by
  induction fuel generalizing isFirst list with
  | zero => simp [fillFrom]
  | succ fuel ih =>
    cases list with
    | nil => simp [fillFrom]
    | cons chunk list =>
      rw [fillFrom.eq_3 _ _ _ _ _ (cons_ne_nil _ _)]
      have hl : (if isFirst then chunk :: list else dropBlankStart (chunk :: list)).flatten ⊆
          (chunk :: list).flatten := by
        split
        · exact List.Subset.refl _
        · rw [dropBlankStart]
          split
          · exact subset_append_right _ _
          · exact List.Subset.refl _
      generalize (if isFirst then chunk :: list else dropBlankStart (chunk :: list)) = later at hl ⊢
      dsimp only
      have hs := flatten_fillLine (wd - (if isFirst then [] else ind).length) later
      generalize Text.fillLine (wd - (if isFirst then [] else ind).length) later = filled at hs ⊢
      obtain ⟨b,hb,-⟩ := dropBlankEnd_split filled.1
      have hln : (dropBlankEnd filled.1).flatten ⊆ (chunk :: list).flatten := by
        refine List.Subset.trans (fun c hc => ?_) hl
        rw [← hs,hb]
        exact mem_append_left _ (mem_append_left _ hc)
      have hr : filled.2.flatten ⊆ (chunk :: list).flatten := by
        refine List.Subset.trans (fun c hc => ?_) hl
        rw [← hs]
        exact mem_append_right _ hc
      split
      · exact fun line hm c hc => (ih line hm c hc).imp_right (hr ·)
      rw [forall_mem_cons]
      refine ⟨fun c hc => ?_,fun line hm c hc => (ih line hm c hc).imp_right (hr ·)⟩
      rcases mem_append.mp hc with hc | hc
      · split at hc
        · cases hc
        · exact .inl hc
      · exact .inr (hln hc)

lemma plain_smooth (cs : List Char) : ∀ c ∈ smooth cs, ¬ Seldom c := by
  intro c hc
  obtain ⟨c0,-,rfl⟩ := mem_map.mp hc
  split
  · exact not_seldom_space
  · next hb =>
      rintro (rfl | rfl)
      · exact hb (by decide)
      · exact hb (by decide)

lemma mem_fill {wd : Int} {ind text : String} {ls : List String} (h : fill wd ind text = .ok ls) :
  ∀ l ∈ ls, ∀ c ∈ l.toList, c ∈ ind.toList ∨ c ∈ smooth text.toList := by
  rw [fill] at h
  split at h
  · cases h
  obtain rfl := Except.ok.inj h
  intro l hl c hc
  obtain ⟨line,hln,rfl⟩ := mem_map.mp hl
  rw [String.toList_ofList] at hc
  have hm := fillFrom_subset line hln c hc
  rwa [flatten_chunks] at hm

lemma plain_fill {wd : Int} {ind text : String} {ls : List String}
  (h : fill wd ind text = .ok ls) (hi : Plain ind) : ∀ l ∈ ls, Plain l :=
  fun l hl c hc => (mem_fill h l hl c hc).elim (hi c) (plain_smooth _ c)

lemma mem_intersperse {α : Type} {x sep : α} {l : List α} (h : x ∈ l.intersperse sep) : x = sep ∨ x ∈ l := by
  induction l with
  | nil => exact .inr h
  | cons a l ih =>
    cases l with
    | nil => exact .inr h
    | cons b l =>
      rw [intersperse_cons_cons,mem_cons,mem_cons] at h
      rcases h with rfl | rfl | h
      · exact .inr mem_cons_self
      · exact .inl rfl
      · exact (ih h).imp_right (mem_cons_of_mem _ ·)

lemma plain_feed : Plain "\n" := plain_of_all (by decide)

lemma plain_fillLine {text : String} {hang : Int} {ts : List String}
  (h : Tree.fillLine wd start text hang = .ok ts) (hst : Plain start) : ∀ t ∈ ts, Plain t := by
  have hs : Plain (start ++ spacesInt hang) := hst.append (plain_spacesInt hang)
  cases wd with
  | none => cases h
  | some wd =>
    obtain ⟨filled,hf,rfl⟩ := map_ok h
    have hln : ∀ l ∈ (if filled.isEmpty then [""] else filled), Plain l := by
      split
      · rw [forall_mem_singleton]
        exact fun c hc => absurd hc not_mem_nil
      · exact plain_fill hf hs
    intro t ht
    rcases mem_intersperse ht with rfl | ht
    · exact plain_feed
    · obtain ⟨l,hl,rfl⟩ := mem_map.mp ht
      split
      · exact hs
      · exact hln l hl

lemma complete_respell {hang : Option Int} (h : respellLine lang e = .ok (e',hang)) (he : FineLine e) :
  Throughout Complete e' ∧ (hang = none → ∀ text, e'.text = some text → Plain text) := by
  have hl : Throughout Complete e := throughout_leaf he.complete he.leaf
  rcases respellLine_ok h with ⟨hn,-,rfl⟩ | ⟨-,hs,hr⟩
  · exact ⟨hl,fun _ => he.plain hn⟩
  refine ⟨?_,fun hn => absurd hs (by simp [hn])⟩
  have hg (labels : List String) := complete_setValue he.complete "atGroups" (v := .names labels) (by simp)
  cases hr with
  | same => exact hl
  | warned text =>
    refine throughout_iff.mpr ⟨he.complete,?_⟩
    rw [Element.insert,he.leaf]
    intro c hc
    obtain rfl := mem_singleton.mp hc
    exact throughout_leaf (fun _ ha => absurd ha not_mem_nil) rfl
  | grouped labels => exact throughout_leaf (hg labels) he.leaf
  | led labels lead => exact throughout_leaf (complete_set (hg labels) "atPrefix" lead) he.leaf

lemma fine_writeLine {ts : List String} (h : writeLine wd lang start e = .ok (e',ts))
  (he : FineLine e) (hs : Plain start) : Throughout Complete e' ∧ ∀ t ∈ ts, Plain t := by
  have hend : ∀ t ∈ ending e', Plain t := by
    rw [ending]
    split
    · exact forall_mem_nil _
    · exact forall_mem_singleton.mpr plain_feed
  cases writeLine_ok_iff.mp h with
  | plain hr ht =>
    obtain ⟨hc,hp⟩ := complete_respell hr he
    exact ⟨hc,forall_mem_cons.mpr ⟨hs,forall_mem_cons.mpr ⟨hp rfl _ ht,hend⟩⟩⟩
  | filled hr hf => exact ⟨(complete_respell hr he).1,forall_mem_append.mpr ⟨plain_fillLine hf hs,hend⟩⟩

lemma fine_writeLinesFrom {next : String} {es : List Element} {err : Option Fault}
  (hes : ∀ e ∈ es, FineLine e) (hn : Plain next) (hs : Plain start) :
  (∀ e ∈ (writeLinesFrom wd lang next start es err).lines, Throughout Complete e) ∧
    ∀ t ∈ (writeLinesFrom wd lang next start es err).texts, Plain t := by
  induction es generalizing start with
  | nil => exact ⟨forall_mem_nil _,forall_mem_nil _⟩
  | cons e es ih =>
    rw [forall_mem_cons] at hes
    rw [writeLinesFrom]
    split
    · exact ⟨forall_mem_nil _,forall_mem_nil _⟩
    · next e1 ts hln =>
        obtain ⟨hc,hp⟩ := fine_writeLine hln hes.1 hs
        obtain ⟨hl,ht⟩ := ih hes.2 hn
        exact ⟨forall_mem_cons.mpr ⟨hc,hl⟩,forall_mem_append.mpr ⟨hp,ht⟩⟩

lemma fine_writeComment (d : Edition) (wd : Option Int) (e : Element) {ls : Stream Element}
  (hl : ∀ l ∈ ls.items, FineLine l) : (∀ l ∈ (writeComment d wd e ls).lines, Throughout Complete l) ∧
    ∀ t ∈ (writeComment d wd e ls).texts, Plain t := by
  cases hs : standing d e with
  | error err =>
    rw [writeComment,hs]
    exact ⟨forall_mem_nil _,forall_mem_nil _⟩
  | ok r =>
    obtain ⟨lang,ind⟩ := r
    have ho : Plain (spacesInt ind ++ "/**") := (plain_spacesInt ind).append (plain_of_all (by decide))
    have hp (isFirst : Bool) : Plain (leader lang ind isFirst) := by
      rw [leader]
      split
      · exact plain_spacesInt _
      · split
        · exact ho.append (plain_of_all (by decide))
        · exact (plain_spacesInt _).append (plain_of_all (by decide))
    have hif {c : Prop} [Decidable c] {t : String} (ht : Plain t) :
      ∀ t' ∈ (if c then [t] else []), Plain t' := by
      split
      · exact forall_mem_singleton.mpr ht
      · exact forall_mem_nil _
    obtain ⟨hc,ht⟩ := fine_writeLinesFrom hl (hp false) (hp true)
    rw [writeComment_eq hs]
    refine ⟨hc,forall_mem_append.mpr ⟨forall_mem_append.mpr
      ⟨hif (ho.append (plain_of_all (by decide))),ht⟩,?_⟩⟩
    split
    · exact forall_mem_nil _
    · refine forall_mem_append.mpr ⟨hif (hp true),?_⟩
      simpa using ⟨plain_feed,plain_spacesInt _,plain_of_all (by decide)⟩

end

section

variable {width wd : Option Int} {e e' : Element} {w : Element × String}

def inked (width : Option Int) (e : Element) : Except Fault (Element × String) := do
  writeElement width (← layOut (← addPieces 4 e))

lemma findIdx?_outputs (h : ∀ c ∈ e.children, c.tag ≠ "outputs") :
  e.children.findIdx? (·.tag == "outputs") = none := by
  rw [findIdx?_eq_none_iff]
  intro c hc
  exact beq_eq_false_iff_ne.mpr (h c hc)

lemma modify_append_length {α : Type} (f : α → α) (xs : List α) (x : α) :
  (xs ++ [x]).modify xs.length f = xs ++ [f x] := by
  induction xs with
  | nil => rfl
  | cons y xs ih => simpa using ih

lemma inked_ok_iff (ht : e.text = none) (ho : ∀ c ∈ e.children, c.tag ≠ "outputs") :
    inked wd e = .ok w ↔ ∃ m ls, e.children.find? (·.tag == "markdown") = some m ∧
      laid m = .ok ls ∧ (writeComment .final wd e (.ofList ls)).fault = none ∧
      w = ({ e with children := e.children ++
          [{ tag := "outputs", children := (writeComment .final wd e (.ofList ls)).lines }] },
        String.join (writeComment .final wd e (.ofList ls)).texts) := by
  have hi (es : List Element) :
      childIndex? "outputs" { e with children := e.children ++ [{ tag := "outputs", children := es }] } =
        some e.children.length := by
    rw [childIndex?,findIdx?_append,findIdx?_outputs ho]
    simp
  have hls (es : List Element) : (e.children ++ [{ tag := "outputs", children := es }])[e.children.length]? =
      some ({ tag := "outputs", children := es } : Element) := by
    simp
  have hld (made : List Element) :
      layOut { e with children := e.children ++ [{ tag := "outputs", children := made }] } =
        (do let ls ← (logicalLines .final (.ofList made)).toExcept
            return { e with children := e.children ++ [{ tag := "outputs", children := ls }] }) := by
    rw [layOut,hi]
    simp only [hls,modify_append_length,Option.map_some,Option.getD_some]
  have hw (ls : List Element) : writeElement wd
      { e with children := e.children ++ [{ tag := "outputs", children := ls }] } = .ok w ↔
      (writeComment .final wd e (.ofList ls)).fault = none ∧
      w = ({ e with children := e.children ++
          [{ tag := "outputs", children := (writeComment .final wd e (.ofList ls)).lines }] },
        String.join (writeComment .final wd e (.ofList ls)).texts) := by
    have hs : writeComment .final wd
        { e with children := e.children ++ [{ tag := "outputs", children := ls }] } (.ofList ls) =
          writeComment .final wd e (.ofList ls) := rfl
    rw [writeElement,hi]
    simp only [hls,modify_append_length,Option.map_some,Option.getD_some,hs]
    cases (writeComment .final wd e (.ofList ls)).fault with
    | none => exact ⟨fun h => ⟨rfl,(Except.ok.inj h).symm⟩,fun h => congrArg Except.ok h.2.symm⟩
    | some err => exact ⟨fun h => (by cases h),fun h => (by cases h.1)⟩
  rw [inked,addPieces]
  cases hfn : e.children.find? (·.tag == "markdown") with
  | none =>
    have hn : childIndex? "outputs" e = none := findIdx?_outputs ho
    have hf : writeElement wd e = .error (.missing "text") := by
      simp only [writeElement,hn,ht]
      rfl
    have hrn : (do writeElement wd (← layOut (← (pure e : Except Fault Element)))) =
        writeElement wd e := by
      rw [pure_bind,layOut,hn]
      rfl
    rw [hrn,hf]
    constructor
    · intro h
      cases h
    · rintro ⟨_,_,h,-⟩
      cases h
  | some m =>
    constructor
    · intro h
      obtain ⟨added,ha,h⟩ := bind_ok h
      obtain ⟨laidOut,hlaidOut,hwr⟩ := bind_ok h
      obtain ⟨made,hmd,rfl⟩ := map_ok ha
      rw [Element.append,hld] at hlaidOut
      obtain ⟨ls,hl,rfl⟩ := map_ok hlaidOut
      refine ⟨m,ls,rfl,?_,(hw ls).mp hwr⟩
      rw [laid,hmd]
      exact hl
    · rintro ⟨m',ls,hm,hl,hr⟩
      cases hm
      obtain ⟨made,hmd,hl⟩ := bind_ok hl
      dsimp only
      rw [hmd,ok_bind,pure_bind,Element.append,hld,hl]
      exact (hw ls).mpr hr

lemma mem_of_find? {es : List Element} {tag : String} (h : es.find? (·.tag == tag) = some e) :
  e ∈ es ∧ e.tag = tag := by
  have ht := find?_some h
  exact ⟨mem_of_find?_eq_some h,beq_iff_eq.mp ht⟩

lemma complete_inked (htx : e.text = none) (ho : ∀ c ∈ e.children, c.tag ≠ "outputs") (h : inked wd e = .ok w)
  (hcm : Throughout Complete e) (hl : ∀ m ∈ e.children, m.tag = "markdown" → Throughout (Literal Plain) m) :
  Throughout Complete w.1 ∧ Plain w.2 := by
  obtain ⟨m,ls,hf,hln,hfl,rfl⟩ := (inked_ok_iff htx ho).mp h
  obtain ⟨hm,htg⟩ := mem_of_find? hf
  obtain ⟨hw,ht⟩ : _ ∧ ∀ t ∈ (writeComment .final wd e (.ofList ls)).texts, Plain t :=
    fine_writeComment .final wd e (fine_laid hln (hl m hm htg))
  obtain ⟨hh,hk⟩ := throughout_iff.mp hcm
  refine ⟨throughout_iff.mpr ⟨hh,forall_mem_append.mpr ⟨hk,?_⟩⟩,plain_join ht⟩
  intro c hc
  obtain rfl := mem_singleton.mp hc
  exact throughout_iff.mpr ⟨fun _ ha => absurd ha not_mem_nil,hw⟩

lemma standing_alike (d : Edition) (h : AlikeHead e e') : standing d e' = standing d e := by
  have hs : e'.attribute? "source" = e.attribute? "source" := h.attribute?
  have hi : e'.attribute? "indentStart" = e.attribute? "indentStart" := h.attribute?
  simp only [standing,hs,hi]

lemma find?_alike {es es' : List Element} (h : Forall₂ Alike es es') (tag : String) :
  Option.Rel Alike (es.find? (·.tag == tag)) (es'.find? (·.tag == tag)) := by
  induction h with
  | nil => exact .none
  | cons he _ ih =>
    rw [find?_cons,find?_cons,he.head.tag]
    split
    · exact .some he
    · exact ih

lemma inked_alike (h : Alike e e') (ht : e.text = none) (htg : e.tag ≠ "extract")
  (ho : ∀ c ∈ e.children, c.tag ≠ "outputs") (hp : ∀ m ∈ e.children, m.tag = "markdown" → Throughout NoExtract m)
  (hr : inked wd e = .ok w) : ∃ w', inked wd e' = .ok w' ∧ w'.2 = w.2 := by
  obtain ⟨m,ls,hf,hl,hfl,rfl⟩ := (inked_ok_iff ht ho).mp hr
  obtain ⟨hmm,hmr⟩ := mem_of_find? hf
  have hrl := find?_alike h.children "markdown"
  rw [hf] at hrl
  obtain ⟨m',hf',hm⟩ := rel_some_left hrl
  have hld : laid m' = laid m := by rw [laid,laid,pieces_alike .final 4 hm (hp m hmm hmr)]
  have hw : writeComment .final wd e' (.ofList ls) = writeComment .final wd e (.ofList ls) := by
    rw [writeComment,writeComment,standing_alike .final h.head]
  have ht' : e'.text = none := (h.head.text htg).trans ht
  have ho' : ∀ c ∈ e'.children, c.tag ≠ "outputs" := by
    intro c' hc'
    obtain ⟨c,hc,hcc⟩ := forall₂_mem_right h.children hc'
    exact hcc.head.tag.trans_ne (ho c hc)
  refine ⟨_,(inked_ok_iff ht' ho').mpr ⟨m',ls,hf',hld.trans hl,?_,rfl⟩,?_⟩
  · rw [hw,hfl]
  · rw [hw]

end

end Docweave.Tree
