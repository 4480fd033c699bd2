import Docweave.Proofs.Trees.ReadingOrder

namespace Docweave.Tree

open List hiding tail
open Element

section

variable {σ τ : Type} {round : σ → Option (Except Fault σ)} {s : σ} {res : Except Fault σ}

inductive Ends (round : σ → Option (Except Fault σ)) : σ → Except Fault σ → Prop
  | done {s : σ} (h : round s = none) : Ends round s (.ok s)
  | fault {s : σ} {fault : Fault} (h : round s = some (.error fault)) : Ends round s (.error fault)
  | next {s s' : σ} {result : Except Fault σ} (h : round s = some (.ok s')) (hrest : Ends round s' result) :
      Ends round s result

namespace Ends

variable {P : σ → Prop}

lemma unique {other : Except Fault σ} (h : Ends round s res) (ho : Ends round s other) : other = res := by
  induction h with
  | done h => cases ho <;> simp_all
  | fault h => cases ho <;> simp_all
  | next h _ ih =>
    cases ho with
    | done h' => simp [h] at h'
    | fault h' => simp [h] at h'
    | next h' hr =>
      cases h.symm.trans h'
      exact ih hr

lemma no_round {s' : σ} (h : Ends round s (.ok s')) : round s' = none := by
  generalize hr : Except.ok s' = res at h
  induction h with
  | done h =>
    cases hr
    exact h
  | fault => cases hr
  | next _ _ ih => exact ih hr

lemma keeps (hr : ∀ s s', round s = some (.ok s') → P s → P s') (h : Ends round s res) (hs : P s) :
  ∀ s', res = .ok s' → P s' := by
  induction h with
  | done =>
    intro s' hs'
    cases hs'
    exact hs
  | fault => nofun
  | next h _ ih => exact ih (hr _ _ h hs)

lemma returns (hr : ∀ s r, round s = some r → P s → ∃ s', r = .ok s' ∧ P s') (h : Ends round s res)
  (hs : P s) : ∃ s', res = .ok s' := by
  induction h with
  | done => exact ⟨_,rfl⟩
  | fault h =>
    obtain ⟨_,hf,-⟩ := hr _ _ h hs
    cases hf
  | next h _ ih =>
    obtain ⟨_,hn,hs'⟩ := hr _ _ h hs
    cases hn
    exact ih hs'

lemma bind {outer : τ → Option (Except Fault τ)} (inside : σ → τ) {after : σ → Except Fault τ}
  (hi : ∀ s r, round s = some r → outer (inside s) = some (r.map inside)) (h : Ends round s res)
  (ha : ∀ s', res = .ok s' → Ends outer (inside s') (after s')) : Ends outer (inside s) (res >>= after) := by
  induction h with
  | done => exact ha _ rfl
  | fault h => exact .fault (hi _ _ h)
  | next h _ ih => exact .next (hi _ _ h) (ih ha)

end Ends

lemma ends_iff {known : Except Fault σ} (h : Ends round s known) (res : Except Fault σ) :
  Ends round s res ↔ res = known :=
  ⟨fun hr => h.unique hr,fun heq => heq ▸ h⟩

end

section

variable {test : Element → Bool}

def weight (test : Element → Bool) (es : List Element) : Nat := (es.flatMap inOrder).countP test

@[simp] lemma weight_nil : weight test [] = 0 := rfl

@[simp] lemma weight_append (es fs : List Element) :
    weight test (es ++ fs) = weight test es + weight test fs := by
  simp [weight]

lemma weight_cons (e : Element) (es : List Element) :
    weight test (e :: es) = weight test e.children + (if test e then 1 else 0) + weight test es := by
  rw [weight,flatMap_cons,countP_append,inOrder_eq,countP_cons]
  rfl

lemma weight_eq_sum (test : Element → Bool) (es : List Element) :
    weight test es = (es.map fun e => weight test [e]).sum := by
  induction es with
  | nil => rfl
  | cons e es ih => rw [map_cons,sum_cons,← ih,← weight_append,singleton_append]

lemma weight_flatMap_children (test : Element → Bool) (es : List Element) :
  weight test (es.flatMap children) = (es.map fun e => weight test e.children).sum := by
  induction es with
  | nil => rfl
  | cons e es ih => rw [flatMap_cons,weight_append,ih,map_cons,sum_cons]

lemma weight_children_le (es : List Element) : weight test (es.flatMap children) ≤ weight test es := by
  induction es with
  | nil => exact Nat.le_refl _
  | cons e es ih =>
    rw [flatMap_cons,weight_append,weight_cons]
    omega

lemma weight_le_size (e : Element) : weight test e.children ≤ e.size := by
  have hl : (e.children.flatMap inOrder).length ≤ (inOrder e).length := by
    rw [inOrder_eq]
    exact Nat.le_succ _
  exact countP_le_length.trans (hl.trans_eq (length_inOrder e))

def beneath (test : Element → Bool) (e : Element) : Nat := weight test (e.children.flatMap children)

lemma beneath_le_size (e : Element) : beneath test e ≤ e.size :=
  (weight_children_le e.children).trans (weight_le_size e)

end

section

variable {test : Element → Bool} {e c x : Element} {addr a : Address} {i j : Nat}

lemma split_at {α : Type} {l : List α} {a : α} (h : l[i]? = some a) : l = l.take i ++ a :: l.drop (i + 1) := by
  obtain ⟨hi,rfl⟩ := List.getElem?_eq_some_iff.mp h
  rw [← drop_eq_getElem_cons hi,take_append_drop]

lemma modify_at {α : Type} {l : List α} {a : α} (h : l[i]? = some a) (f : α → α) :
  l.modify i f = l.take i ++ [f a] ++ l.drop (i + 1) := by
  obtain ⟨hi,rfl⟩ := List.getElem?_eq_some_iff.mp h
  rw [modify_eq_take_cons_drop hi,append_assoc]
  rfl

def grandchild? (test : Element → Bool) : Address × Element → Option (Address × Nat × Nat)
  | (address,found) =>
    match address.reverse with
    | index :: parentIndex :: up => if test found then some (up.reverse,parentIndex,index) else none
    | _ => none

lemma grandchild?_some (h : grandchild? test (a,x) = some (addr,i,j)) : a = addr ++ [i,j] ∧ test x := by
  rw [grandchild?] at h
  split at h
  · next idx parentIndex up hr =>
      split at h
      · next ht =>
          obtain ⟨rfl,rfl,rfl⟩ : up.reverse = addr ∧ parentIndex = i ∧ idx = j := by simpa using h
          refine ⟨?_,ht⟩
          rw [← reverse_reverse a,hr]
          simp
      · cases h
  · cases h

lemma grandchild?_none (ha : 2 ≤ a.length) (h : grandchild? test (a,x) = none) : test x = false := by
  rw [grandchild?] at h
  split at h
  · split at h
    · cases h
    · next ht => exact eq_false_of_ne_true ht
  next hs =>
    rw [← length_reverse] at ha
    match hr : a.reverse with
    | [] | [_] =>
      rw [hr] at ha
      simp at ha
    | idx :: parentIndex :: up => exact absurd hr (hs idx parentIndex up)

lemma firstGrandchild?_some (h : firstGrandchild? test e = some (addr,i,j)) :
  ∃ r, e.at? (addr ++ [i,j]) = some r ∧ test r ∧
    ∀ above, above <+: addr ++ [i,j] → above ≠ addr ++ [i,j] → 2 ≤ above.length →
      ∀ y, e.at? above = some y → test y = false := by
  have hfn : (forest [] 0 e.children).findSome? (grandchild? test) = some (addr,i,j) := h
  obtain ⟨earlier,⟨a,x⟩,later,hl,hf,hn⟩ := findSome?_eq_some_iff.mp hfn
  obtain ⟨rfl,ht⟩ := grandchild?_some hf
  have hx : (addr ++ [i,j],x) ∈ forest [] 0 e.children := by simp [hl]
  refine ⟨x,(mem_below_iff.mp hx).2,ht,fun above hp hne hlen y hy => grandchild?_none hlen ?_⟩
  have hm : (above,y) ∈ forest [] 0 e.children := mem_below_iff.mpr ⟨fun hnl => by simp [hnl] at hlen,hy⟩
  have ho := ordered_forest [] 0 e.children
  rw [hl] at hm ho
  -- What is above comes before what is below it.
  rcases mem_append.mp hm with hm | hm
  · exact hn _ hm
  rcases mem_cons.mp hm with heq | hm
  · exact absurd (congrArg Prod.fst heq) hne
  · rw [map_append,map_cons,pairwise_append,pairwise_cons] at ho
    exact absurd hp (ho.2.1.1 _ (mem_map_of_mem hm))

lemma firstGrandchild?_below (h : firstGrandchild? test e = some (addr,i,j)) :
  ∃ g p r, e.at? addr = some g ∧ g.children[i]? = some p ∧ e.at? (addr ++ [i]) = some p ∧
    p.children[j]? = some r ∧ test r := by
  obtain ⟨r,hr,ht,-⟩ := firstGrandchild?_some h
  rw [at?_append] at hr
  obtain ⟨g,hg,hb⟩ := Option.bind_eq_some_iff.mp hr
  obtain ⟨p,hi,hb⟩ := at?_cons_iff.mp hb
  obtain ⟨r',hj,hs⟩ := at?_cons_iff.mp hb
  obtain rfl := Option.some.inj hs
  refine ⟨g,p,r',hg,hi,?_,hj,ht⟩
  rw [at?_append,hg]
  exact at?_cons_iff.mpr ⟨p,hi,rfl⟩

lemma throughout_of_firstGrandchild? (h : firstGrandchild? test e = none) (hc : c ∈ e.children) :
  ∀ d ∈ c.children, Throughout (fun x => test x = false) d := by
  have hf : (forest [] 0 e.children).findSome? (grandchild? test) = none := h
  intro d hd x hx
  obtain ⟨i,hi⟩ := getElem?_of_mem hc
  obtain ⟨j,hj⟩ := getElem?_of_mem hd
  rw [← map_snd_nodes [] d] at hx
  obtain ⟨⟨rest,y⟩,hm,rfl⟩ := mem_map.mp hx
  obtain ⟨_,rfl,hy⟩ := (mem_nodes_iff [] rest y d).mp hm
  have hat : e.at? (i :: j :: rest) = some y := at?_cons_iff.mpr ⟨c,hi,at?_cons_iff.mpr ⟨d,hj,hy⟩⟩
  exact grandchild?_none (by simp) (findSome?_eq_none_iff.mp hf _ (mem_below_iff.mpr ⟨cons_ne_nil _ _,hat⟩))

end

section

variable {test : Element → Bool} {step : Nat → Nat → Element → Except Fault Element} {e e' g g' p r : Element}
  {i j : Nat}
variable {addr : Address}

def grandchildRound (test : Element → Bool) (step : Nat → Nat → Element → Except Fault Element) (e : Element) :
    Option (Except Fault Element) :=
  (firstGrandchild? test e).map fun found => changeAt (step found.2.1 found.2.2) found.1 e

structure Consumes (test : Element → Bool) (step : Nat → Nat → Element → Except Fault Element) : Prop where
  heads : ∀ e es, test { e with children := es } = test e
  step : ∀ {g g' p r : Element} {i j : Nat}, g.children[i]? = some p → p.children[j]? = some r → test r = true →
    step i j g = .ok g' → ∃ middle,
      g' = { g with children := g.children.take i ++ middle ++ g.children.drop (i + 1) } ∧
        weight test (middle.flatMap children) < weight test p.children ∧
          (test p = false → weight test middle < weight test p.children)

lemma modifyAt_head (e : Element) (es : List Element) (addr : Address) (hat : e.at? addr = some g) :
    ∃ fs, e.modifyAt (fun _ => { g with children := es }) addr = { e with children := fs } := by
  cases addr with
  | nil =>
    cases hat
    exact ⟨es,rfl⟩
  | cons => exact ⟨_,rfl⟩

lemma lighter_modifyAt (heads : ∀ e es, test { e with children := es } = test e) {es : List Element}
    (hat : e.at? addr = some g) (hes : weight test es < weight test g.children) :
    weight test (e.modifyAt (fun _ => { g with children := es }) addr).children < weight test e.children := by
  induction addr generalizing e with
  | nil =>
    cases hat
    exact hes
  | cons i addr ih =>
    obtain ⟨c,hc,hat⟩ := at?_cons_iff.mp hat
    have hb := ih hat
    obtain ⟨fs,hfs⟩ := modifyAt_head c es addr hat
    rw [hfs] at hb
    rw [modifyAt]
    dsimp only at hb ⊢
    conv_rhs => rw [split_at hc]
    rw [modify_at hc,hfs,weight_append,weight_append,weight_append,weight_cons,weight_cons,heads]
    simp only [weight_nil]
    omega

lemma changeAt_at {f : Element → Except Fault Element} (h : e.at? addr = some g) :
  changeAt f addr e = (f g).map fun g' => e.modifyAt (fun _ => g') addr := by
  rw [changeAt,h]
  dsimp only
  cases f g <;> rfl

lemma grandchildRound_some {res : Except Fault Element} (h : grandchildRound test step e = some res) :
  ∃ addr i j, firstGrandchild? test e = some (addr,i,j) ∧ ∃ g p r, e.at? addr = some g ∧
    g.children[i]? = some p ∧ e.at? (addr ++ [i]) = some p ∧ p.children[j]? = some r ∧ test r ∧
    res = (step i j g).map fun g' => e.modifyAt (fun _ => g') addr := by
  obtain ⟨⟨addr,i,j⟩,hf,hc⟩ := Option.map_eq_some_iff.mp h
  obtain ⟨g,p,r,hg,hi,hp,hj,hw⟩ := firstGrandchild?_below hf
  exact ⟨addr,i,j,hf,g,p,r,hg,hi,hp,hj,hw,hc.symm.trans (changeAt_at hg)⟩

lemma grandchildRound_ok (h : grandchildRound test step e = some (.ok e')) :
  ∃ addr i j, firstGrandchild? test e = some (addr,i,j) ∧ ∃ g p r g', e.at? addr = some g ∧
    g.children[i]? = some p ∧ e.at? (addr ++ [i]) = some p ∧ p.children[j]? = some r ∧ test r ∧
    (addr ≠ [] → test p = false) ∧
    step i j g = .ok g' ∧ e' = e.modifyAt (fun _ => g') addr := by
  obtain ⟨addr,i,j,hf,g,p,r,hg,hi,hp,hj,hw,hr⟩ := grandchildRound_some h
  cases hg' : step i j g with
  | error fault => simp [hg',Except.map] at hr
  | ok g' =>
    rw [hg'] at hr
    refine ⟨addr,i,j,hf,g,p,r,g',hg,hi,hp,hj,hw,fun hne => ?_,hg',Except.ok.inj hr⟩
    -- The parent comes before what is below it, so it would have been found first.
    obtain ⟨-,-,-,ha⟩ := firstGrandchild?_some hf
    have hl : 2 ≤ (addr ++ [i]).length := by
      have := length_pos_iff.mpr hne
      simp only [length_append,length_singleton]
      omega
    exact ha (addr ++ [i]) ((prefix_append_right_inj _).mpr ⟨[j],rfl⟩) (by simp) hl p hp

lemma Consumes.lighter (hs : Consumes test step) (h : grandchildRound test step e = some (.ok e')) :
  beneath test e' < beneath test e := by
  obtain ⟨addr,i,j,-,g,p,r,g',hg,hi,-,hj,hw,hp,hg',rfl⟩ := grandchildRound_ok h
  obtain ⟨middle,rfl,hsh,hd⟩ := hs.step hi hj hw hg'
  cases addr with
  | nil =>
    cases hg
    rw [beneath,beneath,modifyAt]
    conv_rhs => rw [split_at hi]
    simp only [flatMap_append,flatMap_cons,weight_append]
    omega
  | cons k addr =>
    obtain ⟨c,hc,hg⟩ := at?_cons_iff.mp hg
    have hl : weight test (g.children.take i ++ middle ++ g.children.drop (i + 1)) < weight test g.children := by
      have hm := hd (hp (cons_ne_nil _ _))
      conv_rhs => rw [split_at hi]
      rw [weight_append,weight_append,weight_append,weight_cons]
      omega
    have hb := lighter_modifyAt hs.heads hg hl
    rw [beneath,beneath,modifyAt,modify_at hc]
    conv_rhs => rw [split_at hc]
    simp only [flatMap_append,flatMap_cons,flatMap_nil,append_nil,weight_append]
    omega

lemma Consumes.ends (hs : Consumes test step) {n : Nat} (hn : beneath test e < n) :
  Ends (grandchildRound test step) e (onGrandchildren test step n e) := by
  induction n generalizing e with
  | zero => exact absurd hn (Nat.not_lt_zero _)
  | succ n ih =>
    rw [onGrandchildren]
    cases hf : firstGrandchild? test e with
    | none => exact .done (by rw [grandchildRound,hf]; rfl)
    | some found =>
      obtain ⟨addr,i,j⟩ := found
      have hr : grandchildRound test step e = some (changeAt (step i j) addr e) := by
        rw [grandchildRound,hf]
        rfl
      dsimp only
      cases hnx : changeAt (step i j) addr e with
      | error fault => exact .fault (hnx ▸ hr)
      | ok next =>
        rw [hnx] at hr
        exact .next hr (ih (Nat.lt_of_lt_of_le (hs.lighter hr) (Nat.le_of_lt_succ hn)))

lemma Consumes.ends_size (hs : Consumes test step) (e : Element) :
  Ends (grandchildRound test step) e (onGrandchildren test step (e.size + 1) e) :=
  hs.ends (Nat.lt_succ_of_le (beneath_le_size e))

end

section

variable {test : Element → Bool} {f g : Element → Except Fault Element} {e x : Element}
  {later earlier : List Element} {outer : Element → Option (Except Fault Element)}

def belowRound (test : Element → Bool) (f : Element → Except Fault Element) (e : Element) :
    Option (Except Fault Element) :=
  ((forest [] 0 e.children).find? fun found => test found.2).map fun found => changeAt f found.1 e

def selfRound (test : Element → Bool) (f : Element → Except Fault Element) (e : Element) :
    Option (Except Fault Element) :=
  ((nodes [] e).find? fun found => test found.2).map fun found => changeAt f found.1 e

mutual

lemma nodes_from (base : Address) : ∀ e : Element, nodes base e = (nodes [] e).map fun p => (base ++ p.1,p.2)
  | ⟨tag,attrs,text,tail,children⟩ => by
    rw [nodes,nodes,map_cons,append_nil,forest_from base 0 children]

lemma forest_from (base : Address) (i : Nat) : ∀ es : List Element,
    forest base i es = (forest [] i es).map fun p => (base ++ p.1,p.2)
  | [] => rfl
  | e :: es => by
    rw [forest,forest,map_append,forest_from base (i + 1) es,nodes_from (base ++ [i]) e,
      nodes_from ([] ++ [i]) e,map_map]
    simp only [Function.comp_def,nil_append,append_assoc]

end

lemma forest_append (base : Address) (i : Nat) (es fs : List Element) :
  forest base i (es ++ fs) = forest base i es ++ forest base (i + es.length) fs := by
  induction es generalizing i with
  | nil => rfl
  | cons e es ih => rw [cons_append,forest,forest,ih,append_assoc,length_cons,Nat.add_right_comm,Nat.add_assoc]

lemma selfRound_eq (test : Element → Bool) (f : Element → Except Fault Element) (e : Element) :
    selfRound test f e = if test e then some (f e) else belowRound test f e := by
  obtain ⟨tag,attrs,text,tail,children⟩ := e
  rw [selfRound,nodes,find?_cons]
  split
  · next h =>
      rw [if_pos h,Option.map_some,changeAt_at rfl]
      cases f ⟨tag,attrs,text,tail,children⟩ <;> rfl
  · next h =>
      rw [if_neg (ne_true_of_eq_false h)]
      rfl

lemma find?_forest_none {es : List Element}
    (h : ∀ c ∈ es, Throughout (fun y => test y = false) c) (base : Address)
  (i : Nat) : (forest base i es).find? (fun found => test found.2) = none := by
  rw [find?_eq_none]
  intro p hp
  exact ne_true_of_eq_false (forall_forest h p hp)

lemma belowRound_child {r : Except Fault Element} (he : ∀ c ∈ earlier, Throughout (fun y => test y = false) c)
    (h : selfRound test f x = some r) : belowRound test f { e with children := earlier ++ x :: later } =
      some (r.map fun x' => { e with children := earlier ++ x' :: later }) := by
  obtain ⟨⟨addr,y⟩,hf,hr⟩ := Option.map_eq_some_iff.mp h
  have hat (a : Address) : ({ e with children := earlier ++ x :: later } : Element).at?
    (earlier.length :: a) = x.at? a := by
    rw [at?]
    simp
  rw [belowRound,forest_append,find?_append,find?_forest_none he,Option.none_or,forest,find?_append,nodes_from,
    find?_map]
  simp only [Function.comp_def,hf,Option.map_some,Option.some_or,nil_append,Nat.zero_add,singleton_append]
  have hx : x.at? addr = some y := by
    obtain ⟨rest,hrs,hy⟩ := (mem_nodes_iff [] addr y x).mp (mem_of_find?_eq_some hf)
    obtain rfl : addr = rest := hrs
    exact hy
  have hm (y' : Element) : (earlier ++ x :: later).modify earlier.length (Element.modifyAt (fun _ => y') addr) =
      earlier ++ x.modifyAt (fun _ => y') addr :: later := by
    rw [modify_at (by simp : (earlier ++ x :: later)[earlier.length]? = some x)]
    simp
  rw [← hr,changeAt_at ((hat addr).trans hx),changeAt_at hx]
  simp only [Element.modifyAt,hm]
  cases f y <;> rfl

lemma belowRound_none (h : ∀ c ∈ e.children, Throughout (fun y => test y = false) c) : belowRound
    test f e = none := by
  rw [belowRound,find?_forest_none h]
  rfl

lemma throughout_of_selfRound (h : selfRound test f x = none) : Throughout (fun y => test y = false) x := by
  rw [selfRound,Option.map_eq_none_iff,find?_eq_none] at h
  intro y hy
  rw [← map_snd_nodes [] x] at hy
  obtain ⟨p,hp,rfl⟩ := mem_map.mp hy
  exact eq_false_of_ne_true (h p hp)

lemma ends_later (ho : ∀ es, outer { e with children := es } = belowRound test f { e with children := es })
    (he : ∀ c ∈ earlier, Throughout (fun y => test y = false) c)
      (hl : ∀ c ∈ later, Ends (selfRound test f) c (g c)) :
    Ends outer { e with children := earlier ++ later } (do
      let done ← later.mapM g
      return { e with children := earlier ++ done }) := by
  induction later generalizing earlier with
  | nil => exact .done ((ho _).trans (belowRound_none (by simpa using he)))
  | cons c later ih =>
    rw [forall_mem_cons] at hl
    rw [mapM_cons,bind_assoc]
    refine Ends.bind (fun x => { e with children := earlier ++ x :: later })
      (fun x r hr => (ho _).trans (belowRound_child he hr)) hl.1 fun c' hc' => ?_
    have hd : Throughout (fun y => test y = false) c' :=
      throughout_of_selfRound (Ends.no_round (hc' ▸ hl.1))
    have hn := ih (forall_mem_append.mpr ⟨he,forall_mem_singleton.mpr hd⟩) hl.2
    simpa only [append_assoc,singleton_append,bind_assoc,pure_bind] using hn

lemma ends_children (ho : ∀ es, outer { e with children := es } = belowRound test f { e with children := es })
    (hk : ∀ c ∈ e.children, Ends (selfRound test f) c (g c)) :
    Ends outer e (do return { e with children := ← e.children.mapM g }) := by
  have he := ends_later ho (forall_mem_nil _) hk
  cases e
  exact he

end

end Docweave.Tree
