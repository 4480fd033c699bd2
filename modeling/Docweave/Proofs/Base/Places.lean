import Docweave.Proofs.Jobs.Stages

namespace Docweave.Element

open List

variable {e x : Element} {addr : Address} {f : Element → Element}

structure SameHead (e e' : Element) : Prop where
  tag : e'.tag = e.tag
  attributes : e'.attributes = e.attributes
  text : e'.text = e.text
  tail : e'.tail = e.tail

lemma SameHead.refl (e : Element) : SameHead e e := ⟨rfl,rfl,rfl,rfl⟩

lemma SameHead.trans {a b c : Element} (hab : SameHead a b) (hbc : SameHead b c) : SameHead a c :=
  ⟨hbc.tag.trans hab.tag,hbc.attributes.trans hab.attributes,hbc.text.trans hab.text,hbc.tail.trans hab.tail⟩

lemma SameHead.value? {e' : Element} (h : SameHead e e') (name : String) : e'.value? name = e.value? name := by
  rw [Element.value?,Element.value?,h.attributes]

lemma SameHead.attribute? {e' : Element} (h : SameHead e e') (name : String) :
  e'.attribute? name = e.attribute? name := by
  rw [Element.attribute?,Element.attribute?,h.value?]

mutual

lemma ordered_nodes (base : Address) : ∀ e : Element, ((nodes base e).map Prod.fst).Pairwise fun a b => ¬ b <+: a
  | ⟨tag,attributes,text,tail,children⟩ => by
    rw [nodes,map_cons,pairwise_cons]
    refine ⟨fun b hb hp => ?_,ordered_forest base 0 children⟩
    obtain ⟨⟨_,m⟩,hm,rfl⟩ := mem_map.mp hb
    obtain ⟨j,rest,c,rfl,-,-⟩ := (mem_forest_iff _ _ m 0 children).mp hm
    have hl := hp.length_le
    simp only [length_append,length_cons] at hl
    omega

lemma ordered_forest (base : Address) (i : Nat) :
    ∀ es : List Element, ((forest base i es).map Prod.fst).Pairwise fun a b => ¬ b <+: a
  | [] => .nil
  | e :: es => by
    rw [forest,map_append,pairwise_append]
    refine ⟨ordered_nodes _ e,ordered_forest base (i + 1) es,fun a ha b hb hp => ?_⟩
    obtain ⟨⟨_,m⟩,hm,rfl⟩ := mem_map.mp ha
    obtain ⟨⟨_,n⟩,hn,rfl⟩ := mem_map.mp hb
    obtain ⟨rest,rfl,-⟩ := (mem_nodes_iff _ _ m e).mp hm
    obtain ⟨j,rest',c,rfl,-,-⟩ := (mem_forest_iff _ _ n _ es).mp hn
    rw [append_assoc,prefix_append_right_inj] at hp
    have hi := (cons_prefix_cons.mp hp).1
    omega

end

lemma at?_modifyAt_below {m : Element} (h : e.at? addr = some m) (rest : Address) :
  (e.modifyAt f addr).at? (addr ++ rest) = (f m).at? rest := by
  induction addr generalizing e with
  | nil =>
    cases h
    rfl
  | cons i addr ih =>
    obtain ⟨c,hc,h⟩ := at?_cons_iff.mp h
    rw [cons_append,modifyAt,at?]
    simp only [getElem?_modify_eq,hc]
    exact ih h

lemma at?_modifyAt {other : Address} (hne : ¬ addr <+: other) :
  Option.Rel SameHead (e.at? other) ((e.modifyAt f addr).at? other) := by
  induction addr generalizing e other with
  | nil => exact absurd nil_prefix hne
  | cons i addr ih =>
    cases other with
    | nil => exact .some ⟨rfl,rfl,rfl,rfl⟩
    | cons j other =>
      rw [modifyAt,at?,at?]
      by_cases hij : i = j
      · subst hij
        have hne' : ¬ addr <+: other := fun hp => hne (cons_prefix_cons.mpr ⟨rfl,hp⟩)
        rw [getElem?_modify_eq]
        cases e.children[i]? with
        | none => exact .none
        | some c => exact ih hne'
      · rw [getElem?_modify_ne _ _ hij]
        change Option.Rel SameHead (e.at? (j :: other)) (e.at? (j :: other))
        cases e.at? (j :: other) with
        | none => exact .none
        | some x => exact .some (.refl x)

lemma at?_modifyAt_apart {other : Address} {x' : Element} (hne : ¬ addr <+: other)
  (h : (e.modifyAt f addr).at? other = some x') : ∃ x, e.at? other = some x ∧ SameHead x x' := by
  have hr : Option.Rel SameHead (e.at? other) (some x') := h ▸ at?_modifyAt hne
  cases hx : e.at? other <;> simp_all

lemma at?_modifyAt_stays {other : Address} (hne : ¬ addr <+: other) (h : e.at? other = some x) :
  ∃ x', (e.modifyAt f addr).at? other = some x' ∧ SameHead x x' := by
  have hr : Option.Rel SameHead (some x) ((e.modifyAt f addr).at? other) := h ▸ at?_modifyAt hne
  cases hx : (e.modifyAt f addr).at? other <;> simp_all

lemma at?_append (e : Element) (addr rest : Address) :
    e.at? (addr ++ rest) = (e.at? addr).bind (·.at? rest) := by
  induction addr generalizing e with
  | nil => rfl
  | cons i addr ih =>
    rw [cons_append,at?,at?]
    cases e.children[i]? with
    | none => rfl
    | some c => exact ih c

lemma mem_descendants_iff : x ∈ e.descendants ↔ ∃ addr, addr ≠ [] ∧ e.at? addr = some x := by
  rw [descendants,mem_map]
  constructor
  · rintro ⟨⟨addr,m⟩,hm,rfl⟩
    exact ⟨addr,mem_below_iff.mp hm⟩
  · rintro ⟨addr,h⟩
    exact ⟨(addr,x),mem_below_iff.mpr h,rfl⟩

section

variable {m m' x : Element} {more : List Element} (hm : m'.children = m.children ++ more) {i : Nat}
  {rest : Address}

include hm

lemma at?_of_more (h : m.at? (i :: rest) = some x) : m'.at? (i :: rest) = some x := by
  obtain ⟨c,hc,h⟩ := at?_cons_iff.mp h
  have hi : i < m.children.length := (List.getElem?_eq_some_iff.mp hc).1
  exact at?_cons_iff.mpr ⟨c,by rwa [hm,getElem?_append_left hi],h⟩

lemma at?_more_cases (h : m'.at? (i :: rest) = some x) : m.at? (i :: rest) = some x ∨
    (m.at? (i :: rest) = none ∧ ∃ (j : Nat) (c : Element), more[j]? = some c ∧ c.at? rest = some x) := by
  rw [at?,hm] at h
  rw [at?]
  by_cases hi : i < m.children.length
  · rw [getElem?_append_left hi] at h
    exact Or.inl h
  rw [Nat.not_lt] at hi
  rw [getElem?_append_right hi] at h
  cases hc : more[i - m.children.length]? with
  | none =>
    rw [hc] at h
    cases h
  | some c =>
    rw [hc] at h
    rw [getElem?_eq_none hi]
    exact Or.inr ⟨rfl,_,c,hc,h⟩

end

end Docweave.Element
