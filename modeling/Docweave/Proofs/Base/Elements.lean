import Docweave.Element.Path
import Mathlib.Data.List.Forall2

namespace Docweave

open List
open String (join join_cons ofList toList_inj toList_join)

variable {α β γ : Type} {a : Except Fault α} {f : α → Except Fault β} {b : β} {x : α} {xs : List α}
  {ys : List β} {R : α → β → Prop} {S : α → γ → Prop} {zs : List γ}

lemma bind_ok (h : a >>= f = .ok b) : ∃ x, a = .ok x ∧ f x = .ok b := by
  cases a with
  | error fault => cases h
  | ok x => exact ⟨x,rfl,h⟩

lemma map_ok {f : α → β} (h : (do return f (← a)) = Except.ok b) : ∃ x, a = .ok x ∧ f x = b := by
  obtain ⟨x,hx,hl⟩ := bind_ok h
  exact ⟨x,hx,Except.ok.inj hl⟩

lemma ok_bind (a : α) (f : α → Except Fault β) : (Except.ok a >>= f) = f a := rfl

lemma ok_of_toOption (h : a.toOption = some x) : a = .ok x := by
  cases a with
  | error fault => cases h
  | ok y => exact congrArg _ (Option.some.inj h)

lemma mapM_cons_ok : (x :: xs).mapM f = .ok ys ↔ ∃ y ys', f x = .ok y ∧ xs.mapM f = .ok ys' ∧ ys = y :: ys' := by
  rw [mapM_cons]
  constructor
  · intro h
    obtain ⟨y,hy,hr⟩ := bind_ok h
    obtain ⟨ys',hys,hl⟩ := bind_ok hr
    exact ⟨y,ys',hy,hys,(Except.ok.inj hl).symm⟩
  · rintro ⟨y,ys',hy,hys,rfl⟩
    rw [hy,hys]
    rfl

lemma mapM_ok_iff (f : α → Except Fault β) (xs : List α) (ys : List β) :
  xs.mapM f = .ok ys ↔ Forall₂ (fun x y => f x = .ok y) xs ys := by
  induction xs generalizing ys with
  | nil =>
    rw [forall₂_nil_left_iff]
    exact ⟨fun h => (Except.ok.inj h).symm,fun h => by rw [h]; rfl⟩
  | cons x xs ih => simp only [mapM_cons_ok,forall₂_cons_left_iff,ih]

lemma forall₂_imp {S : α → β → Prop} (h : Forall₂ R xs ys)
    (hi : ∀ x ∈ xs, ∀ y, R x y → S x y) : Forall₂ S xs ys := by
  have hm : Forall₂ (fun x y => x ∈ xs ∧ R x y) xs ys := (forall₂_and_left _ _).mpr ⟨fun _ hx => hx,h⟩
  exact hm.imp fun x y hxy => hi x hxy.1 y hxy.2

lemma forall₂_split {ys : List α} {zs : List β} (h : Forall₂ R (xs ++ ys) zs) :
  ∃ zs1 zs2, zs1 ++ zs2 = zs ∧ Forall₂ R xs zs1 ∧ Forall₂ R ys zs2 := by
  refine ⟨zs.take xs.length,zs.drop xs.length,take_append_drop _ _,?_,?_⟩
  · exact (forall₂_take_append zs xs ys h.flip).flip
  · exact (forall₂_drop_append zs xs ys h.flip).flip

lemma forall₂_mem_right {zs : List β} (h : Forall₂ R xs zs) {z : β} (hz : z ∈ zs) : ∃ x ∈ xs, R x z := by
  induction h with
  | nil => simp at hz
  | cons hr _ ih =>
    rcases mem_cons.mp hz with rfl | hz
    · exact ⟨_,mem_cons_self,hr⟩
    · obtain ⟨x,hx,hr'⟩ := ih hz
      exact ⟨x,mem_cons_of_mem _ hx,hr'⟩

lemma forall₂_join {T : β → γ → Prop} (hr : Forall₂ R xs ys) (hs : Forall₂ S xs zs)
  (h : ∀ x ∈ xs, ∀ y z, R x y → S x z → T y z) : Forall₂ T ys zs := by
  induction hr generalizing zs with
  | nil =>
    obtain rfl := forall₂_nil_left_iff.mp hs
    exact .nil
  | cons hxy _ ih =>
    obtain ⟨z,zs',hxz,hzs,rfl⟩ := forall₂_cons_left_iff.mp hs
    exact .cons (h _ mem_cons_self _ _ hxy hxz) (ih hzs fun x hx => h x (mem_cons_of_mem _ hx))

lemma forall₂_comp {S : β → γ → Prop} {T : α → γ → Prop} (hT : ∀ x y z, R x y → S y z → T x z)
  (hxy : Forall₂ R xs ys) (hyz : Forall₂ S ys zs) : Forall₂ T xs zs :=
  forall₂_join (R := fun y x => R x y) hxy.flip hyz fun y _ x z => hT x y z

lemma mapM_of_forall₂ {R : β → γ → Prop} (h : Forall₂ (fun x z => ∃ y, f x = .ok y ∧ R y z) xs zs) :
  ∃ ys, xs.mapM f = .ok ys ∧ Forall₂ R ys zs := by
  induction h with
  | nil => exact ⟨[],rfl,.nil⟩
  | cons hx _ ih =>
    obtain ⟨y,hy,hr⟩ := hx
    obtain ⟨ys,hys,hrs⟩ := ih
    exact ⟨y :: ys,mapM_cons_ok.mpr ⟨y,ys,hy,hys,rfl⟩,.cons hr hrs⟩

lemma forall₂_mapM_ok {f : β → Except Fault γ} (h : Forall₂ R xs ys)
  (hf : ∀ x ∈ xs, ∀ y, R x y → ∃ z, f y = .ok z ∧ S x z) : ∃ zs, ys.mapM f = .ok zs ∧ Forall₂ S xs zs := by
  obtain ⟨zs,hzs,hs⟩ := mapM_of_forall₂ (R := flip S) (forall₂_imp h hf).flip
  exact ⟨zs,hzs,hs.flip⟩

lemma mapM_forall₂ {R : α → α → Prop} {S : β → β → Prop} {xs' : List α} (h : Forall₂ R xs xs')
  (hys : xs.mapM f = .ok ys) (hf : ∀ x ∈ xs, ∀ {x' y}, R x x' → f x = .ok y → ∃ y', f x' = .ok y' ∧ S y y') :
  ∃ ys', xs'.mapM f = .ok ys' ∧ Forall₂ S ys ys' := by
  have hj := forall₂_join h ((mapM_ok_iff f xs ys).mp hys) fun x hx _ _ => hf x hx
  obtain ⟨ys',hys',hs⟩ := mapM_of_forall₂ (R := flip S) hj
  exact ⟨ys',hys',hs.flip⟩

lemma mem_intercalate_iff {x c : α} (hc : c ≠ x) {ls : List (List α)} : c ∈ [x].intercalate ls ↔
    ∃ l ∈ ls, c ∈ l := by
  induction ls with
  | nil => simp
  | cons l ls ih =>
    cases ls with
    | nil => simp
    | cons l' ls =>
      rw [intercalate_cons_cons,mem_append,ih]
      simp [hc]

lemma join_filterMap (f : α → Option String) (xs : List α) :
  join (xs.filterMap f) = join (xs.map fun x => (f x).getD "") := by
  induction xs with
  | nil => rfl
  | cons x xs ih =>
    rw [map_cons,join_cons,← ih]
    cases hx : f x with
    | none => rw [filterMap_cons_none hx,Option.getD_none,String.empty_append]
    | some s => rw [filterMap_cons_some hx,join_cons,Option.getD_some]

lemma join_map_ofList (f : α → List Char) (xs : List α) :
  join (xs.map fun x => ofList (f x)) = ofList (xs.flatMap f) := by
  rw [← toList_inj,toList_join,flatMap_map]
  simp only [String.toList_ofList]

lemma ofList_flatten_toList (ls : List String) : ofList (ls.map String.toList).flatten = join ls := by
  rw [← toList_inj,String.toList_ofList,toList_join,flatMap_def]

lemma lookup_setKey_ne {key other : String} (h : other ≠ key) (v : Value)
  (l : List (String × Value)) : (setKey key v l).lookup other = l.lookup other := by
  have hbq : (other == key) = false := by simp [h]
  induction l with
  | nil => simp [setKey,h]
  | cons p rest ih =>
    obtain ⟨k,w⟩ := p
    by_cases hk : k = key
    · subst hk
      simp [setKey,lookup_cons,hbq]
    · cases hb : other == k <;> simp [setKey,hk,lookup_cons,ih]

lemma filter_setKey (p : String → Bool) (name : String) (v : Value) (l : List (String × Value)) :
    (setKey name v l).filter (fun a => p a.1) =
      if p name then setKey name v (l.filter fun a => p a.1) else l.filter fun a => p a.1 := by
  induction l with
  | nil => cases hn : p name <;> simp [setKey,hn]
  | cons a l ih =>
    obtain ⟨key,w⟩ := a
    rw [setKey]
    by_cases hk : key = name
    · subst hk
      cases hn : p key <;> simp [setKey,hn]
    · rw [if_neg hk,filter_cons,filter_cons,ih]
      cases p key <;> cases p name <;> simp [setKey,hk]

namespace Element

variable {name other : String} {e : Element}

lemma value?_setValue (e : Element) (name : String) {v : Value} (hv : v ≠ .missing) :
  (e.setValue name v).value? name = some v := by
  rw [value?,setValue,lookup_setKey]
  cases v with
  | missing => exact absurd rfl hv
  | text s => rfl
  | names ns => rfl

lemma value?_setValue_ne (e : Element) (h : other ≠ name) (v : Value) :
  (e.setValue name v).value? other = e.value? other := by
  rw [value?,value?,setValue,lookup_setKey_ne h]

@[simp] lemma value?_set (e : Element) (name text : String) :
    (e.set name text).value? name = some (.text text) :=
  value?_setValue e name (by simp)

lemma value?_set_ne (e : Element) (h : other ≠ name) (text : String) :
  (e.set name text).value? other = e.value? other :=
  value?_setValue_ne e h _

@[simp] lemma attribute?_set (e : Element) (name text : String) :
    (e.set name text).attribute? name = some text := by
  rw [attribute?,value?_set]

lemma attribute?_set_ne (e : Element) (h : other ≠ name) (text : String) :
  (e.set name text).attribute? other = e.attribute? other := by
  rw [attribute?,value?_set_ne e h,attribute?]

@[simp] lemma set_children (e : Element) (name text : String) : (e.set name text).children = e.children := rfl

section

variable (ns : List String) (src tgt : Element)

lemma copyAttributes_fields : (copyAttributes ns src tgt).tag = tgt.tag ∧
    (copyAttributes ns src tgt).text = tgt.text ∧
    (copyAttributes ns src tgt).tail = tgt.tail ∧
    (copyAttributes ns src tgt).children = tgt.children := by
  induction ns generalizing tgt with
  | nil => exact ⟨rfl,rfl,rfl,rfl⟩
  | cons name ns ih =>
    rw [copyAttributes,foldl_cons]
    cases src.value? name with
    | none => exact ih tgt
    | some v => exact ih (tgt.setValue name v)

lemma value?_copyAttributes_ne {other : String} (h : other ∉ ns) :
  (copyAttributes ns src tgt).value? other = tgt.value? other := by
  induction ns generalizing tgt with
  | nil => rfl
  | cons name ns ih =>
    rw [mem_cons,not_or] at h
    rw [copyAttributes,foldl_cons]
    cases src.value? name with
    | none => exact ih tgt h.2
    | some v => exact (ih _ h.2).trans (value?_setValue_ne tgt h.1 v)

end

lemma joinedText_eq (e : Element) : e.joinedText = e.text.getD "" ++ childrenText e.children := by
  cases e
  rfl

lemma childrenText_cons (e : Element) (es : List Element) :
    childrenText (e :: es) = e.joinedText ++ e.tail.getD "" ++ childrenText es := rfl

mutual

@[elab_as_elim]
lemma byChildren {P : Element → Prop} (step : ∀ e, (∀ c ∈ e.children, P c) → P e) : ∀ e, P e
  | ⟨_,_,_,_,children⟩ => step _ (byChildrenEach step children)

lemma byChildrenEach {P : Element → Prop} (step : ∀ e, (∀ c ∈ e.children, P c) → P e) :
    ∀ es : List Element, ∀ e ∈ es, P e
  | [] => by simp
  | e :: es => forall_mem_cons.mpr ⟨byChildren step e,byChildrenEach step es⟩

end

section

variable {f : Element → Except Fault Element} {e e' : Element} {es es' : List Element}

lemma mapHeads_ok_iff : mapHeads f e = .ok e' ↔
    ∃ head es, f e = .ok head ∧ mapHeadsEach f e.children = .ok es ∧ e' = { head with children := es } := by
  cases e
  rw [mapHeads]
  constructor
  · intro h
    obtain ⟨head,hh,h⟩ := bind_ok h
    obtain ⟨es,hes,hl⟩ := bind_ok h
    exact ⟨head,es,hh,hes,(Except.ok.inj hl).symm⟩
  · rintro ⟨head,es,hh,hes,rfl⟩
    rw [hh,hes]
    rfl

lemma mapHeadsEach_eq (f : Element → Except Fault Element) (es : List Element) :
  mapHeadsEach f es = es.mapM (mapHeads f) := by
  induction es with
  | nil => rfl
  | cons e es ih => rw [mapHeadsEach,mapM_cons,ih]

lemma mapHeadsEach_ok_iff : mapHeadsEach f es = .ok es' ↔
    Forall₂ (fun e e' => mapHeads f e = .ok e') es es' := by
  rw [mapHeadsEach_eq,mapM_ok_iff]

lemma mapUp_ok_iff : mapUp f e = .ok e' ↔
    ∃ es, mapUpEach f e.children = .ok es ∧ f { e with children := es } = .ok e' := by
  cases e
  rw [mapUp]
  constructor
  · exact fun h => bind_ok h
  · rintro ⟨es,hes,h⟩
    rw [hes]
    exact h

lemma mapUpEach_eq (f : Element → Except Fault Element) (es : List Element) :
    mapUpEach f es = es.mapM (mapUp f) := by
  induction es with
  | nil => rfl
  | cons e es ih => rw [mapUpEach,mapM_cons,ih]

end

mutual

lemma map_snd_nodes (addr : Address) : ∀ e : Element, (nodes addr e).map Prod.snd = e :: e.descendants
  | ⟨tag,attrs,text,tail,children⟩ => by
    rw [nodes,map_cons,map_snd_forest addr 0 children,descendants,map_snd_forest [] 0 children]

lemma map_snd_forest (addr : Address) (i : Nat) : ∀ es : List Element,
    (forest addr i es).map Prod.snd = es.flatMap fun e => e :: e.descendants
  | [] => rfl
  | e :: es => by
    rw [forest,map_append,map_snd_nodes _ e,map_snd_forest _ _ es,flatMap_cons]

end

lemma at?_cons_iff {e x : Element} {i : Nat} {rest : Address} :
  e.at? (i :: rest) = some x ↔ ∃ c, e.children[i]? = some c ∧ c.at? rest = some x := by
  rw [at?]
  cases e.children[i]? <;> simp

mutual

lemma mem_nodes_iff (base addr : Address) (m : Element) : ∀ e : Element,
    (addr,m) ∈ nodes base e ↔ ∃ rest, addr = base ++ rest ∧ e.at? rest = some m
  | ⟨tag,attrs,text,tail,children⟩ => by
    rw [nodes,mem_cons,mem_forest_iff base addr m 0 children]
    constructor
    · rintro (h | ⟨j,rest,c,rfl,hc,hm⟩)
      · cases h
        exact ⟨[],(append_nil _).symm,rfl⟩
      · exact ⟨j :: rest,by rw [Nat.zero_add],at?_cons_iff.mpr ⟨c,hc,hm⟩⟩
    · rintro ⟨rest,rfl,hm⟩
      cases rest with
      | nil =>
        cases hm
        exact Or.inl (by rw [append_nil])
      | cons j rest =>
        obtain ⟨c,hc,hm⟩ := at?_cons_iff.mp hm
        exact Or.inr ⟨j,rest,c,by rw [Nat.zero_add],hc,hm⟩

lemma mem_forest_iff (base addr : Address) (m : Element) (i : Nat) : ∀ es : List Element,
    (addr,m) ∈ forest base i es ↔ ∃ j rest c, addr = base ++ (i + j) :: rest ∧ es[j]? = some c ∧
    c.at? rest = some m
  | [] => by simp [forest]
  | e :: es => by
    rw [forest,mem_append,mem_nodes_iff (base ++ [i]) addr m e,mem_forest_iff base addr m (i + 1) es]
    constructor
    · rintro (⟨rest,rfl,hm⟩ | ⟨j,rest,c,rfl,hc,hm⟩)
      · exact ⟨0,rest,e,by simp,rfl,hm⟩
      · exact ⟨j + 1,rest,c,by rw [Nat.add_right_comm,Nat.add_assoc],hc,hm⟩
    · rintro ⟨j,rest,c,rfl,hc,hm⟩
      cases j with
      | zero =>
        cases hc
        exact Or.inl ⟨rest,by simp,hm⟩
      | succ j =>
        exact Or.inr ⟨j,rest,c,by rw [Nat.add_right_comm,Nat.add_assoc],hc,hm⟩

end

lemma mem_below_iff {e m : Element} {addr : Address} :
  (addr,m) ∈ forest [] 0 e.children ↔ addr ≠ [] ∧ e.at? addr = some m := by
  rw [mem_forest_iff]
  constructor
  · rintro ⟨j,rest,c,rfl,hc,hm⟩
    rw [nil_append,Nat.zero_add]
    exact ⟨cons_ne_nil _ _,at?_cons_iff.mpr ⟨c,hc,hm⟩⟩
  · rintro ⟨hne,hm⟩
    obtain ⟨j,rest,rfl⟩ := exists_cons_of_ne_nil hne
    obtain ⟨c,hc,hm⟩ := at?_cons_iff.mp hm
    exact ⟨j,rest,c,by simp,hc,hm⟩

lemma descendants_eq (e : Element) : e.descendants = e.children.flatMap fun c => c :: c.descendants :=
  map_snd_forest [] 0 e.children

lemma descendants_of_leaf (h : e.children = []) : e.descendants = [] := by
  rw [descendants_eq,h]
  rfl

lemma descendants_of_leaves (h : ∀ c ∈ e.children, c.children = []) : e.descendants = e.children := by
  rw [descendants_eq]
  generalize e.children = es at h
  induction es with
  | nil => rfl
  | cons c cs ih =>
    rw [flatMap_cons,descendants_of_leaf (h c mem_cons_self),ih fun c' hc' => h c' (mem_cons_of_mem _ hc')]
    rfl

lemma childrenText_eq_join {es : List Element} (h : ∀ e ∈ es, e.tail = none) :
  childrenText es = join (es.map joinedText) := by
  induction es with
  | nil => rfl
  | cons e es ih =>
    rw [childrenText_cons,h e mem_cons_self,ih fun e' he' => h e' (mem_cons_of_mem _ he'),map_cons,join_cons]
    simp

lemma map_snd_childNodes (tag : String) (addr : Address) (e : Element) :
  ((childNodes addr e).filter (·.2.tag == tag)).map Prod.snd = e.childrenOf tag := by
  have hm : (childNodes addr e).map Prod.snd = e.children := by
    refine ext_getElem? fun i => ?_
    simp [childNodes,Function.comp_def]
  rw [childrenOf,← hm,filter_map]
  rfl

lemma first?_part (e : Element) (name value tag : String) :
  e.first? [.anyBelow,.keep (.equals name value),.child tag] =
    ((e.descendants.filter fun d => d.value? name == some (.text value)).flatMap (·.childrenOf tag)).head? := by
  have hb : ([([],e)] : List (Address × Element)).flatMap (fun p => nodesBelow p.1 p.2) =
    forest [] 0 e.children := by
    simp [nodesBelow]
  simp only [first?,select,foldl_cons,foldl_nil,Step.take,hb]
  rw [← head?_map,map_flatMap,descendants,filter_map,flatMap_map]
  simp only [map_snd_childNodes]
  rfl

end Element

end Docweave
