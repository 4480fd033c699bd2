import Docweave.Proofs.Trees.Spelling
import Mathlib.Data.List.SplitBy

namespace Docweave

open List
open String (join)

section

variable {α : Type} {text? : α → Option String} {fuse : α → String →
  α} {xs ys ms : List α} {a b : α} {texts : List String}

def runs (text? : α → Option String) (xs : List α) : List (List α) :=
  xs.splitBy fun a b => (text? a).isSome && (text? b).isSome

inductive Merges (text? : α → Option String) (fuse : α → String → α) : List α → α → Prop
  | one (a : α) : Merges text? fuse [a] a
  | several {a : α} {ms : List α} {texts : List String} : ms ≠ [] →
      Forall₂ (text? · = some ·) (a :: ms) texts → Merges text? fuse (a :: ms) (fuse a (join texts))

def Condenses (text? : α → Option String) (fuse : α → String → α) (xs ys : List α) : Prop :=
  Forall₂ (Merges text? fuse) (runs text? xs) ys

def Apart (text? : α → Option String) (a b : α) : Prop := text? a = none ∨ text? b = none

lemma flatten_runs (text? : α → Option String) (xs : List α) :
    (runs text? xs).flatten = xs := flatten_splitBy _ xs

lemma runs_append (h : ∀ a ∈ xs.getLast?, ∀ b ∈ ys.head?, Apart text? a b) :
    runs text? (xs ++ ys) = runs text? xs ++ runs text? ys :=
  splitBy_append fun a ha b hb => by rcases h a ha b hb with h | h <;> simp [h]

lemma runs_cons (h : text? a = none) : runs text? (xs ++ a :: ys) = runs text? xs ++ [a] :: runs text? ys := by
  rw [runs_append fun _ _ _ hb => .inr (Option.some.inj hb ▸ h)]
  exact congrArg _ (@runs_append _ _ [a] ys fun _ ha _ _ => .inl (Option.some.inj ha ▸ h))

lemma runs_texts (hne : xs ≠ []) (h : ∀ a ∈ xs, (text? a).isSome) : runs text? xs = [xs] := by
  refine splitBy_of_isChain hne (Pairwise.isChain (pairwise_of_forall_mem_list fun a ha b hb => ?_))
  simp [h a ha,h b hb]

lemma condenses_texts (hne : ms ≠ []) (h : Forall₂ (text? · = some ·) (a :: ms) texts) :
    Condenses text? fuse (a :: ms) [fuse a (join texts)] := by
  rw [Condenses,runs_texts (cons_ne_nil _ _) fun m hm => ?_]
  · exact .cons (.several hne h) .nil
  · obtain ⟨s,-,hs⟩ := forall₂_mem_right h.flip hm
    exact Option.isSome_of_mem hs

lemma runs_apart (h : xs.IsChain (Apart text?)) : runs text? xs = xs.map ([·]) := by
  induction xs with
  | nil => rfl
  | cons a xs ih =>
    have ha : ∀ b ∈ xs.head?, Apart text? a b := (isChain_cons.mp h).1
    rw [← singleton_append,runs_append fun _ hc => Option.some.inj hc ▸ ha,ih h.tail]
    rfl

lemma Condenses.eq_of_apart (h : Condenses text? fuse xs ys) (ha : xs.IsChain (Apart text?)) : ys = xs := by
  rw [Condenses,runs_apart ha,forall₂_map_left_iff] at h
  refine (forall₂_eq_eq_eq ▸ h.imp fun a b hm => ?_ : xs = ys).symm
  cases hm with
  | one => rfl
  | several hne => exact absurd rfl hne

lemma Merges.eq_none (h : Merges text? fuse ms a) (hb : b ∈ ms) (hn : text? b = none) : text? a = none := by
  cases h with
  | one => exact mem_singleton.mp hb ▸ hn
  | several _ ht =>
    obtain ⟨s,-,hs⟩ := forall₂_mem_right ht.flip hb
    rw [hn] at hs
    cases hs

lemma Condenses.apart (h : Condenses text? fuse xs ys) : ys.IsChain (Apart text?) := by
  have hc := isChain_getLast_head_splitBy (fun a b => (text? a).isSome && (text? b).isSome) xs
  change (runs text? xs).IsChain _ at hc
  rw [Condenses] at h
  generalize runs text? xs = gs at h hc
  induction h with
  | nil => exact .nil
  | cons ha hr ih =>
    refine isChain_cons.mpr ⟨fun b hb => ?_,ih hc.tail⟩
    cases hr with
    | nil => cases hb
    | cons hb' =>
      cases hb
      obtain ⟨hl,hh,hn⟩ := (isChain_cons_cons.mp hc).1
      rcases Bool.and_eq_false_iff.mp hn with hn | hn
      · exact .inl (ha.eq_none (getLast_mem hl) (by simpa using hn))
      · exact .inr (hb'.eq_none (head_mem hh) (by simpa using hn))

lemma Condenses.forall {P : α → Prop} (h : Condenses text? fuse xs ys) (hp : ∀ a ∈ xs, P a)
    (hf : ∀ a ∈ xs, (text? a).isSome → ∀ s, P (fuse a s)) : ∀ y ∈ ys, P y := by
  intro y hy
  obtain ⟨ms,hms,hm⟩ := forall₂_mem_right h hy
  have hs : ∀ a ∈ ms, a ∈ xs := fun a ha => flatten_runs text? xs ▸ mem_flatten_of_mem hms ha
  cases hm with
  | one => exact hp y (hs y (mem_singleton_self y))
  | several _ ht =>
    obtain ⟨s,-,hs'⟩ := forall₂_mem_right ht.flip mem_cons_self
    exact hf _ (hs _ mem_cons_self) (Option.isSome_of_mem hs') _

lemma Condenses.flatMap {β : Type} {g : α → List β} {P : α → Prop} (h : Condenses text? fuse xs ys)
    (hp : ∀ a ∈ xs, P a)
    (hg : ∀ a ms texts, (∀ m ∈ a :: ms, P m) → Forall₂ (text? · = some ·) (a :: ms) texts →
      g (fuse a (join texts)) = (a :: ms).flatMap g) : ys.flatMap g = xs.flatMap g := by
  rw [← flatten_runs text? xs] at hp ⊢
  rw [Condenses] at h
  generalize runs text? xs = gs at h hp ⊢
  induction h with
  | nil => rfl
  | cons hm _ ih =>
    rw [flatten_cons,forall_mem_append] at hp
    rw [flatten_cons,flatMap_cons,flatMap_append,ih hp.2]
    cases hm with
    | one => simp
    | several _ ht => rw [hg _ _ _ hp.1 ht]

end

namespace Node

open Text

variable {n : Node} {ns ms : List Node} {run : Run} {texts : List String}

def wording? (n : Node) : Option String :=
  match n.textContents? with
  | some (.text s) => some s
  | _ => none

lemma wording?_eq_some {s : String} : wording? n = some s ↔ n.textContents? = some (.text s) := by
  rw [wording?]
  split <;> simp_all

def Uniform (n : Node) : Prop :=
  n.isItem = true ∧ (n.textContents? = none ∨ ∃ s, n.textContents? = some (.text s))

lemma uniform_ofText (s : String) : Uniform (ofText s) := ⟨rfl,.inr ⟨s,rfl⟩⟩

namespace Run

def Spells (ms : List Node) (texts : List String) : Run → Prop
  | .none => ms = []
  | .one n c => ms = [n] ∧ texts.map .text = [c]
  | .several cs => 2 ≤ ms.length ∧ texts.map .text = cs

lemma Spells.add (h : run.Spells ms texts) (ht : Forall₂ (wording? · = some ·) ms texts)
    (n : Node) (s : String) :
    (run.add n (.text s)).Spells (ms ++ [n]) (texts ++ [s]) := by
  cases run with
  | none =>
    cases h
    cases ht
    exact ⟨rfl,rfl⟩
  | one m c =>
    obtain ⟨rfl,hc⟩ := h
    exact ⟨le_rfl,by rw [map_append,hc]; rfl⟩
  | several cs =>
    obtain ⟨hl,hc⟩ := h
    exact ⟨by rw [length_append]; omega,by rw [map_append,hc]; rfl⟩

lemma joinTexts_texts (h : texts ≠ []) : joinTexts (texts.map .text) = .ok [ofText (join texts)] := by
  rcases texts with _ | ⟨s,_ | ⟨t,texts⟩⟩
  · exact absurd rfl h
  · simp [joinTexts,ofText]
  · have hm := mapM_pure (m := Except Fault) (l := s :: t :: texts) (f := id)
    rw [map_id] at hm
    rw [joinTexts.eq_3 _ (by rintro ⟨⟩) (by rintro _ ⟨⟩),mapM_map]
    exact congrArg (· >>= fun ts => pure [ofText (join ts)]) hm

lemma Spells.close (h : run.Spells ms texts) (ht : Forall₂ (wording? · = some ·) ms texts) :
    ∃ items, run.close = ⟨items,Option.none⟩ ∧ Condenses wording? (fun _ => ofText) ms items := by
  cases run with
  | none =>
    cases h
    exact ⟨[],rfl,.nil⟩
  | one n c =>
    obtain ⟨rfl,-⟩ := h
    exact ⟨[n],rfl,.cons (.one n) .nil⟩
  | several cs =>
    obtain ⟨hl,rfl⟩ := h
    obtain ⟨a,ms,rfl⟩ := exists_cons_of_length_pos (Nat.lt_of_lt_of_le Nat.two_pos hl)
    have hne : texts ≠ [] := by
      rintro rfl
      cases ht
    refine ⟨[ofText (join texts)],by rw [Run.close,joinTexts_texts hne],condenses_texts ?_ ht⟩
    rintro rfl
    simp at hl

end Run

lemma consolidateFrom_condenses (h : run.Spells ms texts) (ht : Forall₂ (wording? · = some ·) ms texts)
    (hn : ∀ n ∈ ns, Uniform n) : ∃ items, consolidateFrom run ns = ⟨items,none⟩ ∧
      Condenses wording? (fun _ => ofText) (ms ++ ns) items := by
  induction ns generalizing run ms texts with
  | nil =>
    rw [append_nil]
    exact h.close ht
  | cons n ns ih =>
    obtain ⟨⟨hi,hn⟩,hr⟩ := forall_mem_cons.mp hn
    simp only [consolidateFrom,hi,Bool.not_true,Bool.false_eq_true,if_false]
    rcases hn with hn | ⟨s,hn⟩
    · obtain ⟨is,hc,hm⟩ := h.close ht
      obtain ⟨is',hc',hm'⟩ := ih (show Run.Spells [] [] .none from rfl) .nil hr
      refine ⟨is ++ n :: is',by rw [hn]; simp [hc,hc',Stream.append,Stream.cons],?_⟩
      rw [Condenses,runs_cons (by rw [wording?,hn])]
      exact rel_append hm (.cons (.one n) hm')
    · obtain ⟨is,hc,hm⟩ := ih (h.add ht n s) (rel_append ht (.cons (wording?_eq_some.mpr hn) .nil)) hr
      exact ⟨is,by rw [hn]; exact hc,by rwa [append_assoc] at hm⟩

lemma consolidate_condenses (h : ∀ n ∈ ns, Uniform n) : ∃ items, consolidate ns = ⟨items,none⟩ ∧
    Condenses wording? (fun _ => ofText) ns items ∧ ∀ n ∈ items, Uniform n := by
  obtain ⟨items,hc,hm⟩ := consolidateFrom_condenses (show Run.Spells [] [] .none from rfl) .nil h
  exact ⟨items,hc,hm,hm.forall h fun _ _ _ s => uniform_ofText s⟩

theorem consolidate_normalizes (hplain : ∀ n ∈ ns, Uniform n) :
    ∃ items, consolidate ns = ⟨items, none⟩ ∧ Condenses wording? (fun _ => ofText) ns items ∧
      (∀ n ∈ items, Uniform n) ∧ items.IsChain (Apart wording?) ∧
      consolidate items = ⟨items, none⟩ := by
  obtain ⟨items, hitems, hcondenses, hp⟩ := consolidate_condenses hplain
  obtain ⟨again, hagain, hsame, -⟩ := consolidate_condenses hp
  have happart : items.IsChain (Apart wording?) := hcondenses.apart
  rw [hsame.eq_of_apart happart] at hagain
  exact ⟨items, hitems, hcondenses, hp, happart, hagain⟩

def spanRow : List Node :=
  [ofText "a",.item (some .header) (some (.span .text)) (.level 1) (.text "b"),ofText "",
    span .strong (.nodes [ofText "c"]),
    .item (some .paragraph) (some (.span .text)) .none (.text "d")]

theorem consolidate_normalizes_spanRow :
    (∀ n ∈ spanRow, Uniform n) ∧
    ∃ items, consolidate spanRow = ⟨items, none⟩ ∧
      Condenses wording? (fun _ => ofText) spanRow items ∧
      (∀ n ∈ items, Uniform n) ∧ items.IsChain (Apart wording?) ∧
      consolidate items = ⟨items, none⟩ := by
  have h : ∀ n ∈ spanRow, Uniform n := by
    simp only [spanRow, forall_mem_cons]
    exact ⟨uniform_ofText _, ⟨rfl, .inr ⟨_, rfl⟩⟩, uniform_ofText _, ⟨rfl, .inl rfl⟩,
      ⟨rfl, .inr ⟨_, rfl⟩⟩, forall_mem_nil _⟩
  exact ⟨h, consolidate_normalizes h⟩

end Node

namespace Tree

open Element

variable {e c : Element} {es ms out : List Element} {j : Joining} {texts : List String}

def texted? (e : Element) : Option String := if e.tag = "text" then e.text else none

def retext (e : Element) (s : String) : Element := { e with text := some s }

def Leafy (e : Element) : Prop := e.tag = "text" → e.text.isSome ∧ e.children = []

instance (e : Element) : Decidable (Leafy e) := inferInstanceAs (Decidable (_ → _))

lemma texted?_eq_none (h : Leafy e) : texted? e = none ↔ e.tag ≠ "text" := by
  rw [texted?]
  split
  · next ht => simpa [ht,← Option.isSome_iff_ne_none] using (h ht).1
  · next ht => simp [ht]

lemma of_texted? {s : String} (h : texted? e = some s) : e.tag = "text" ∧ e.text = some s := by
  rw [texted?] at h
  split at h
  · next ht => exact ⟨ht,h⟩
  · cases h

lemma retext_eq {s : String} (h : e.text = some s) : retext e s = e := by
  cases e
  cases h
  rfl

def pending (ms : List Element) (texts : List String) :
    List Element := (ms.head?.map (retext · (join texts))).toList

lemma condenses_pending (h : Forall₂ (texted? · = some ·) ms texts) :
    Condenses texted? retext ms (pending ms texts) := by
  cases h with
  | nil => exact .nil
  | @cons a s ms texts ha hr =>
    cases hr with
    | nil =>
      have hs : retext a (join [s]) = a := by simpa using retext_eq (of_texted? ha).2
      rw [pending,head?_cons,Option.map_some,hs]
      exact .cons (.one a) .nil
    | cons hb hr => exact condenses_texts (cons_ne_nil _ _) (.cons ha (.cons hb hr))

structure Pends (ms : List Element) (texts : List String) (out : List Element) (j : Joining) : Prop where
  worded : Forall₂ (texted? · = some ·) ms texts
  inText : j.inText = !ms.isEmpty
  kept : j.kept = out ++ pending ms texts

lemma foldlM_joinChild (hj : Pends ms texts out j) (h : ∀ c ∈ es, Leafy c) : ∃ j' kept,
    es.foldlM joinChild j = .ok j' ∧ j'.kept = out ++ kept ∧ Condenses texted? retext (ms ++ es) kept ∧
    j'.kept.length + j'.removed.length = j.kept.length + j.removed.length + es.length ∧
    (j'.removed = [] → j.removed = [] ∧ j'.kept = j.kept ++ es) := by
  induction es generalizing j ms texts out with
  | nil =>
    refine ⟨j,pending ms texts,rfl,hj.kept,?_,rfl,fun h => ⟨h,(append_nil _).symm⟩⟩
    rw [append_nil]
    exact condenses_pending hj.worded
  | cons c es ih =>
    obtain ⟨hc,hr⟩ := forall_mem_cons.mp h
    rw [foldlM_cons]
    by_cases ht : c.tag = "text"
    · obtain ⟨b,hb⟩ := Option.isSome_iff_exists.mp (hc ht).1
      have hw := rel_append hj.worded (.cons (show texted? c = some b by rw [texted?,if_pos ht,hb]) .nil)
      cases ms with
      | nil =>
        cases hj.worded
        have hs := joinChild_add (j := j) (c := c) fun _ hin => absurd (hj.inText.symm.trans hin) (by simp)
        have hp : Pends [c] [b] out ⟨j.kept ++ [c],j.removed,j.index + 1,c.tag == "text"⟩ :=
          ⟨hw,by simp [ht],by rw [hj.kept]; simp [pending,retext_eq hb]⟩
        obtain ⟨j',kept,hf,hk,hd,hl,he⟩ := ih hp hr
        refine ⟨j',kept,by rw [hs,ok_bind,hf],hk,hd,?_,fun h => ?_⟩
        · simp only [length_append,length_singleton] at hl
          rw [hl,length_cons]
          omega
        · simpa using he h
      | cons a ms =>
        have hk : j.kept = out ++ [retext a (join texts)] := hj.kept
        have hs := joinChild_extend ht hj.inText (by rw [hk,getLast?_concat])
          (show (retext a (join texts)).text = _ from rfl) hb
        have hp : Pends (a :: ms ++ [c]) (texts ++ [b]) out ⟨j.kept.dropLast ++ [{ retext a (join texts) with
            text := some (join texts ++ b) }],(j.index,b) :: j.removed,j.index + 1,j.inText⟩ :=
          ⟨hw,hj.inText,by rw [hk,dropLast_concat]; simp [pending,retext]⟩
        obtain ⟨j',kept,hf,hk',hd,hl,he⟩ := ih hp hr
        refine ⟨j',kept,by rw [hs,ok_bind,hf],hk',by rwa [append_assoc] at hd,?_,fun h => ?_⟩
        · simp only [hk,length_append,length_cons,dropLast_concat] at hl ⊢
          omega
        · cases (he h).1
    · have hs := joinChild_add (j := j) (c := c) fun h => absurd h ht
      have hp : Pends [] [] (out ++ pending ms texts ++ [c]) ⟨j.kept ++ [c],j.removed,j.index + 1,
        c.tag == "text"⟩ :=
        ⟨.nil,by simpa using ht,by rw [hj.kept]; exact (append_nil _).symm⟩
      obtain ⟨j',kept,hf,hk,hd,hl,he⟩ := ih hp hr
      refine ⟨j',pending ms texts ++ c :: kept,by rw [hs,ok_bind,hf],by rw [hk]; simp,?_,?_,fun h => ?_⟩
      · rw [Condenses,runs_cons ((texted?_eq_none hc).mpr ht)]
        exact rel_append (condenses_pending hj.worded) (.cons (.one c) hd)
      · simp only [length_append,length_singleton] at hl
        rw [hl,length_cons]
        omega
      · simpa using he h

mutual

def framework : Element → Element
  | ⟨tag,attributes,text,after,children⟩ =>
    ⟨tag,attributes.filter (·.1 ≠ "consolidated"),text,after,frameworks children⟩

def frameworks : List Element → List Element
  | [] => []
  | e :: es => if e.tag = "text" then frameworks es else framework e :: frameworks es

end

def allText (e : Element) : List Char := (e :: e.descendants).flatMap fun x => (x.text.getD "").toList

def Seamless (e : Element) : Prop := e.children.IsChain fun a b => a.tag ≠ "text" ∨ b.tag ≠ "text"

lemma allText_eq (e : Element) : allText e = (e.text.getD "").toList ++ e.children.flatMap allText := by
  rw [allText,flatMap_cons,descendants_eq,flatMap_assoc]
  rfl

lemma frameworks_eq (es : List Element) :
    frameworks es = es.flatMap fun e => if e.tag = "text" then [] else [framework e] := by
  induction es with
  | nil => rfl
  | cons e es ih =>
    rw [frameworks,ih,flatMap_cons]
    split <;> rfl

lemma joinIn_condenses (h : ∀ c ∈ e.children, Leafy c) : ∃ r, joinIn e = .ok r ∧
    Condenses texted? retext e.children r.children ∧ r.tag = e.tag ∧ r.text = e.text ∧ r.tail = e.tail ∧
    r.attributes.filter (·.1 ≠ "consolidated") = e.attributes.filter (·.1 ≠ "consolidated") ∧
    (e.children.IsChain (Apart texted?) → r = e) := by
  have hp : Pends [] [] [] ({} : Joining) := ⟨.nil,rfl,rfl⟩
  obtain ⟨j,_,hj,rfl,hd,hl,he⟩ := foldlM_joinChild hp h
  rw [joinIn,hj,ok_bind]
  by_cases hr : j.removed = []
  · rw [if_pos (by rw [hr]; rfl)]
    have hk : j.kept = e.children := (he hr).2
    rw [nil_append,hk] at hd
    exact ⟨e,rfl,hd,rfl,rfl,rfl,rfl,fun _ => rfl⟩
  · rw [if_neg (by simpa using hr)]
    refine ⟨_,rfl,hd,rfl,rfl,rfl,?_,fun ha => ?_⟩
    · exact filter_setKey (· ≠ "consolidated") _ _ _
    · have hk : j.kept = e.children := hd.eq_of_apart ha
      simp [hk] at hl
      exact absurd hl hr

lemma framework_eq (e : Element) : framework e =
    { e with attributes := e.attributes.filter (·.1 ≠ "consolidated"), children := frameworks e.children } := by
  cases e
  rw [framework]

lemma allText_texts (h : ∀ m ∈ ms, Leafy m) (ht : Forall₂ (texted? · = some ·) ms texts) :
    ms.flatMap allText = (join texts).toList := by
  induction ht with
  | nil => rfl
  | @cons a s _ _ ha _ ih =>
    obtain ⟨hl,hr⟩ := forall_mem_cons.mp h
    obtain ⟨htg,hs⟩ := of_texted? ha
    rw [flatMap_cons,ih hr,allText_eq,(hl htg).2,hs,String.join_cons,String.toList_append]
    simp

lemma allText_condensed (h : Condenses texted? retext es out) (hl : ∀ c ∈ es, Leafy c) :
    out.flatMap allText = es.flatMap allText := by
  refine h.flatMap hl fun a ms texts hm ht => ?_
  obtain ⟨s,-,hs⟩ := forall₂_mem_right ht.flip mem_cons_self
  have hlf := (hm a mem_cons_self (of_texted? hs).1).2
  rw [allText_texts hm ht,allText_eq,retext,hlf]
  simp

lemma frameworks_condensed (h : Condenses texted? retext es out) : frameworks out = frameworks es := by
  rw [frameworks_eq,frameworks_eq]
  refine h.flatMap (P := fun _ => True) (fun _ _ => trivial) fun a ms texts _ ht => ?_
  have htg : ∀ m ∈ a :: ms, m.tag = "text" := fun m hm => by
    obtain ⟨s,-,hs⟩ := forall₂_mem_right ht.flip hm
    exact (of_texted? hs).1
  rw [flatMap_eq_nil_iff.mpr fun m hm => if_pos (htg m hm)]
  exact if_pos (htg a mem_cons_self)

structure Fused (e : Element) : Prop where
  leafy : Throughout Leafy e
  seamless : Throughout Seamless e
  again : joinTexts e = .ok e

lemma fused_leaf (h : Leafy e) (hl : e.children = []) : Fused e := by
  refine ⟨throughout_leaf h hl,throughout_leaf (by rw [Seamless,hl]; exact .nil) hl,
    mapUp_ok_iff.mpr ⟨[],by rw [hl]; rfl,?_⟩⟩
  cases e
  cases hl
  rfl

lemma map_eq_of_forall₂ {α β γ : Type} {g : α → γ} {g' : β → γ} {xs : List α} {ys : List β}
    (h : Forall₂ (fun x y => g x = g' y) xs ys) : xs.map g = ys.map g' := by
  rwa [← forall₂_eq_eq_eq,forall₂_map_left_iff,forall₂_map_right_iff]

lemma joinTexts_joined (e : Element) (h : Throughout Leafy e) : ∃ e', joinTexts e = .ok e' ∧ Fused e' ∧
    allText e' = allText e ∧ framework e' = framework e := by
  induction e using byChildren with
  | step e ih =>
    obtain ⟨he,hk⟩ := throughout_iff.mp h
    obtain ⟨es,hes,hj⟩ := mapM_of_forall₂ (R := fun c' c => Fused c' ∧ allText c' = allText c ∧
      framework c' = framework c)
      (forall₂_same.mpr fun c hc => ih c hc (hk c hc))
    have hse : ∀ c ∈ es, Fused c := fun c hc => by
      obtain ⟨_,-,h,-⟩ := forall₂_mem_right hj.flip hc
      exact h
    have hl : ∀ c ∈ es, Leafy c := fun c hc => (throughout_iff.mp (hse c hc).leafy).1
    obtain ⟨r,hr,hd,ht,hx,hta,ha,-⟩ := @joinIn_condenses { e with children := es } hl
    have hsr : ∀ c ∈ r.children, Fused c := hd.forall hse fun a ha hs s => by
      obtain ⟨s',hs'⟩ := Option.isSome_iff_exists.mp hs
      have hlf := (hl a ha (of_texted? hs').1).2
      exact fused_leaf (fun _ => ⟨rfl,hlf⟩) hlf
    have hlr : ∀ c ∈ r.children, Leafy c := fun c hc => (throughout_iff.mp (hsr c hc).leafy).1
    refine ⟨r,mapUp_ok_iff.mpr ⟨es,(mapUpEach_eq _ _).trans hes,hr⟩,⟨?_,?_,?_⟩,?_,?_⟩
    · refine throughout_iff.mpr ⟨fun hg => ⟨hx ▸ (he (ht ▸ hg)).1,?_⟩,fun c hc => (hsr c hc).leafy⟩
      rw [(he (ht ▸ hg)).2] at hes
      cases hes
      exact forall₂_nil_left_iff.mp hd
    · refine throughout_iff.mpr ⟨hd.apart.imp_of_mem_imp fun a b ha hb => ?_,fun c hc => (hsr c hc).seamless⟩
      exact Or.imp (texted?_eq_none (hlr a ha)).mp (texted?_eq_none (hlr b hb)).mp
    · obtain ⟨r',hr',-,-,-,-,-,hs⟩ := joinIn_condenses hlr
      rw [hs hd.apart] at hr'
      refine mapUp_ok_iff.mpr ⟨r.children,?_,by cases r; exact hr'⟩
      rw [mapUpEach_eq,mapM_ok_iff]
      exact forall₂_same.mpr fun c hc => (hsr c hc).again
    · rw [allText_eq,allText_eq,hx,allText_condensed hd hl]
      refine congrArg _ ?_
      rw [flatMap_def,map_eq_of_forall₂ (hj.imp fun _ _ h => h.2.1),flatMap_def]
    · have hf : frameworks es = frameworks e.children := by
        rw [frameworks_eq,frameworks_eq,flatMap_def,flatMap_def]
        refine congrArg flatten (map_eq_of_forall₂ (hj.imp fun c' c h => ?_))
        have ht : (framework c').tag = (framework c).tag := congrArg Element.tag h.2.2
        rw [framework_eq,framework_eq] at ht
        rw [h.2.2,ht]
      rw [framework_eq,framework_eq,ha,frameworks_condensed hd,hf,Element.mk.injEq]
      exact ⟨ht,rfl,hx,hta,rfl⟩

theorem joinTexts_normalizes (e : Element) (hleafy : Throughout Leafy e) :
    ∃ e', joinTexts e = .ok e' ∧ Throughout Seamless e' ∧ allText e' = allText e ∧
      framework e' = framework e ∧
      joinTexts e' = .ok e' := by
  obtain ⟨e', hjoin, hfused, htext, hframe⟩ := joinTexts_joined e hleafy
  exact ⟨e', hjoin, hfused.seamless, htext, hframe, hfused.again⟩

def textRow : Element :=
  let text (s : String) : Element := { tag := "text", text := some s }
  { tag := "paragraph", children := [text "a",text "b",
    { tag := "strong", children := [text "c",text "d"] },text "e"] }

theorem joinTexts_normalizes_textRow : Throughout Leafy textRow ∧
    ∃ e', joinTexts textRow = .ok e' ∧ Throughout Seamless e' ∧ allText e' = "abcde".toList ∧
    joinTexts e' = .ok e' := by
  have hleafy : ∀ x ∈ textRow :: textRow.descendants, Leafy x := by decide
  obtain ⟨e', hjoin, hseamless, htext, -, hagain⟩ := joinTexts_normalizes textRow hleafy
  exact ⟨hleafy, e', hjoin, hseamless, htext.trans (by decide), hagain⟩

end Tree

end Docweave
