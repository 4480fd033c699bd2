import Docweave.Proofs.Trees.Spelling

namespace Docweave

open List

namespace Element

variable {e e' : Element} {es' es : List Element}

def notes : List String :=
  ["liftedTree","liftedSingle","split","lineFirst","lineLast","allHaveSymbol","allIndentedOK",
    "indentContinue"]

def outline (l : List (String × Value)) : List (String × Value) := l.filter fun a => a.1 ∉ notes

mutual

def bare : Element → Element
  | ⟨tag,attributes,text,tail,children⟩ =>
    ⟨tag,outline attributes,if tag = "extract" then none else text,tail,bareEach children⟩

def bareEach : List Element → List Element
  | [] => []
  | e :: es => e.bare :: bareEach es

end

def Alike (e e' : Element) : Prop := e'.bare = e.bare

structure AlikeHead (e e' : Element) : Prop where
  tag : e'.tag = e.tag
  attributes : outline e'.attributes = outline e.attributes
  text : e.tag ≠ "extract" → e'.text = e.text
  tail : e'.tail = e.tail

lemma bareEach_eq_iff : bareEach es' = bareEach es ↔ Forall₂ Alike es es' := by
  induction es generalizing es' with
  | nil =>
    cases es' with
    | nil => exact ⟨fun _ => .nil,fun _ => rfl⟩
    | cons e' es' => exact ⟨nofun,nofun⟩
  | cons e es ih =>
    cases es' with
    | nil => exact ⟨nofun,nofun⟩
    | cons e' es' =>
      rw [bareEach,bareEach,cons.injEq,forall₂_cons,ih]
      rfl

lemma alike_iff : Alike e e' ↔ AlikeHead e e' ∧ Forall₂ Alike e.children e'.children := by
  obtain ⟨tag,attrs,text,tail,children⟩ := e
  obtain ⟨tag',attrs',text',tail',children'⟩ := e'
  rw [Alike,bare,bare,Element.mk.injEq,bareEach_eq_iff]
  constructor
  · rintro ⟨rfl,ha,ht,rfl,hk⟩
    refine ⟨⟨rfl,ha,fun hne => ?_,rfl⟩,hk⟩
    rwa [if_neg hne,if_neg hne] at ht
  · rintro ⟨⟨htg,ha,ht,htl⟩,hk⟩
    obtain rfl : tag' = tag := htg
    refine ⟨rfl,ha,?_,htl,hk⟩
    by_cases he : tag' = "extract"
    · rw [if_pos he,if_pos he]
    · rw [if_neg he,if_neg he]
      exact ht he

lemma Alike.refl (e : Element) : Alike e e := rfl

lemma Alike.head (h : Alike e e') : AlikeHead e e' := (alike_iff.mp h).1

lemma Alike.children (h : Alike e e') : Forall₂ Alike e.children e'.children :=
  (alike_iff.mp h).2

lemma AlikeHead.over (h : AlikeHead e e') (hes : Forall₂ Alike es es') :
  Alike { e with children := es } { e' with children := es' } :=
  alike_iff.mpr ⟨⟨h.tag,h.attributes,h.text,h.tail⟩,hes⟩

lemma Alike.withChildren (h : Alike e e') (hes : Forall₂ Alike es es') :
  Alike { e with children := es } { e' with children := es' } :=
  h.head.over hes

section

variable {e e' : Element} {name : String}

lemma lookup_filter (p : String → Bool) (h : p name) (l : List (String × Value)) :
  (l.filter fun a => p a.1).lookup name = l.lookup name := by
  induction l with
  | nil => rfl
  | cons a l ih =>
    obtain ⟨key,v⟩ := a
    by_cases hk : p key
    · rw [filter_cons,if_pos hk,lookup_cons,lookup_cons,ih]
    · have hne : (name == key) = false := beq_eq_false_iff_ne.mpr fun hn => hk (hn ▸ h)
      rw [filter_cons,if_neg hk,ih,lookup_cons,hne]

lemma lookup_outline (h : name ∉ notes) (l : List (String × Value)) : (outline l).lookup name = l.lookup name :=
  lookup_filter (fun key => key ∉ notes) (by simpa using h) l

lemma outline_setKey (v : Value) (l : List (String × Value)) :
    outline (setKey name v l) = if name ∈ notes then outline l else setKey name v (outline l) := by
  rw [outline,filter_setKey (fun key => key ∉ notes)]
  by_cases hn : name ∈ notes
  · rw [if_pos hn,if_neg (by simpa using hn)]
    rfl
  · rw [if_neg hn,if_pos (by simpa using hn)]
    rfl

lemma AlikeHead.value? (h : AlikeHead e e') (hn : name ∉ notes := by decide) :
    e'.value? name = e.value? name := by
  rw [Element.value?,Element.value?,← lookup_outline hn,h.attributes,lookup_outline hn]

lemma AlikeHead.attribute? (h : AlikeHead e e') (hn : name ∉ notes := by decide) :
    e'.attribute? name = e.attribute? name := by
  rw [Element.attribute?,Element.attribute?,h.value? hn]

lemma AlikeHead.has (h : AlikeHead e e') (hn : name ∉ notes := by decide) : e'.has name = e.has name := by
  rw [Element.has,Element.has,h.value? hn]

lemma AlikeHead.setValue (h : AlikeHead e e') (name : String) (v : Value) :
  AlikeHead (e.setValue name v) (e'.setValue name v) := by
  refine ⟨h.tag,?_,h.text,h.tail⟩
  rw [Element.setValue,Element.setValue,outline_setKey,outline_setKey,h.attributes]

lemma AlikeHead.note (h : AlikeHead e e') (v v' : Value) (hn : name ∈ notes := by decide) :
    AlikeHead (e.setValue name v) (e'.setValue name v') := by
  refine ⟨h.tag,?_,h.text,h.tail⟩
  rw [Element.setValue,Element.setValue,outline_setKey,outline_setKey,if_pos hn,if_pos hn,h.attributes]

lemma AlikeHead.copyAttributes {ns : List String} (hn : ∀ n ∈ ns, n ∉ notes)
  {src src' : Element} (hs : AlikeHead src src') (h : AlikeHead e e') :
  AlikeHead (Element.copyAttributes ns src e) (Element.copyAttributes ns src' e') := by
  induction ns generalizing e e' with
  | nil => exact h
  | cons name ns ih =>
    rw [forall_mem_cons] at hn
    rw [Element.copyAttributes,Element.copyAttributes,foldl_cons,foldl_cons,hs.value? hn.1]
    cases src.value? name with
    | none => exact ih hn.2 h
    | some v => exact ih hn.2 (h.setValue name v)

end

section

variable {α β : Type} {R : α → β → Prop} {o : Option β} {xs : List α} {ys : List β} {e e' : Element}

lemma rel_some_left {x : α} (h : Option.Rel R (some x) o) : ∃ y, o = some y ∧ R x y := by
  cases h with
  | some hxy => exact ⟨_,rfl,hxy⟩

lemma rel_none_left (h : Option.Rel R (none : Option α) o) : o = none := by
  cases h
  rfl

lemma forall₂_getElem? (h : Forall₂ R xs ys) (i : Nat) : Option.Rel R xs[i]? ys[i]? := by
  induction h generalizing i with
  | nil => exact .none
  | cons hxy _ ih =>
    cases i with
    | zero => exact .some hxy
    | succ i => exact ih i

lemma rel_modify {f : α → α} {g : β → β} (h : Forall₂ R xs ys) {i : Nat}
  (hfg : ∀ x y, xs[i]? = some x → R x y → R (f x) (g y)) : Forall₂ R (xs.modify i f) (ys.modify i g) := by
  induction h generalizing i with
  | nil =>
    rw [modify_nil,modify_nil]
    exact .nil
  | cons hxy ht ih =>
    cases i with
    | zero => exact .cons (hfg _ _ rfl hxy) ht
    | succ i => exact .cons hxy (ih hfg)

lemma Alike.at? (h : Alike e e') (addr : Address) : Option.Rel Alike (e.at? addr) (e'.at? addr) := by
  induction addr generalizing e e' with
  | nil => exact .some h
  | cons i rest ih =>
    have hi := forall₂_getElem? h.children i
    rw [Element.at?,Element.at?]
    generalize e.children[i]? = c at hi ⊢
    generalize e'.children[i]? = c' at hi ⊢
    cases hi with
    | none => exact .none
    | some hcc => exact ih hcc

lemma Alike.modifyAt {x x' : Element} (h : Alike e e') (hx : Alike x x') (addr : Address) :
  Alike (e.modifyAt (fun _ => x) addr) (e'.modifyAt (fun _ => x') addr) := by
  induction addr generalizing e e' with
  | nil => exact hx
  | cons i rest ih => exact h.withChildren (rel_modify h.children fun _ _ _ hcc => ih hcc)

mutual

lemma Alike.nodes (addr : Address) : ∀ {e e' : Element}, Alike e e' →
    Forall₂ (fun p p' => p'.1 = p.1 ∧ Alike p.2 p'.2) (nodes addr e) (nodes addr e')
  | ⟨_,_,_,_,_⟩, ⟨_,_,_,_,_⟩, h =>
    .cons ⟨rfl,h⟩ (forest_alike addr 0 h.children)

lemma forest_alike (addr : Address) (i : Nat) : ∀ {es es' : List Element}, Forall₂ Alike es es' →
      Forall₂ (fun p p' => p'.1 = p.1 ∧ Alike p.2 p'.2) (forest addr i es) (forest addr i es')
  | [], _, .nil => .nil
  | _ :: _, _ :: _, .cons he hes =>
    rel_append (Alike.nodes (addr ++ [i]) he) (forest_alike addr (i + 1) hes)

end

mutual

lemma Alike.size : ∀ {e e' : Element}, Alike e e' → e'.size = e.size
  | ⟨_,_,_,_,_⟩, ⟨_,_,_,_,_⟩, h =>
    congrArg (1 + ·) (sizes_alike h.children)

lemma sizes_alike : ∀ {es es' : List Element}, Forall₂ Alike es es' → sizes es' = sizes es
  | [], _, .nil => rfl
  | e :: es, e' :: es', .cons he hes => by
    rw [sizes,sizes,he.size,sizes_alike hes]

end

end

section

variable {Q : Element → Prop} {f : Element → Except Fault Element} {e r e' : Element} {es' es : List Element}

lemma alike_mapHeads (hf : ∀ {e e' r}, Alike e e' → Q e → f e = .ok r → ∃ r', f e' = .ok r' ∧ AlikeHead r r')
  (he : Alike e e') (hQ : Throughout Q e) (h : mapHeads f e = .ok r) :
  ∃ r', mapHeads f e' = .ok r' ∧ Alike r r' := by
  induction e using byChildren generalizing e' r with
  | step e ih =>
    obtain ⟨head,es,hh,hes,rfl⟩ := mapHeads_ok_iff.mp h
    rw [throughout_iff] at hQ
    obtain ⟨head',hh',ha⟩ := hf he hQ.1 hh
    rw [mapHeadsEach_eq] at hes
    obtain ⟨es',hes',hal⟩ := mapM_forall₂ he.children hes fun c hc _ _ hcc => ih c hc hcc (hQ.2 c hc)
    rw [← mapHeadsEach_eq] at hes'
    exact ⟨_,mapHeads_ok_iff.mpr ⟨head',es',hh',hes',rfl⟩,ha.over hal⟩

def Mirrors (f : Element → Except Fault Element) : Prop :=
  ∀ ⦃e e' r⦄, Alike e e' → f e = .ok r → ∃ r', f e' = .ok r' ∧ Alike r r'

lemma alike_mapUp (hf : Mirrors f) : Mirrors (mapUp f) := by
  intro e e' r he h
  induction e using byChildren generalizing e' r with
  | step e ih =>
    obtain ⟨es,hes,h⟩ := mapUp_ok_iff.mp h
    rw [mapUpEach_eq] at hes
    obtain ⟨es',hes',ha⟩ := mapM_forall₂ he.children hes fun c hc _ _ hcc => ih c hc hcc
    rw [← mapUpEach_eq] at hes'
    obtain ⟨r',hr',hrr'⟩ := hf (he.withChildren ha) h
    exact ⟨r',mapUp_ok_iff.mpr ⟨es',hes',hr'⟩,hrr'⟩

lemma alike_each (he : Alike e e') (h : (do return { e with children := ← e.children.mapM f }) = Except.ok r)
  (hf : ∀ c ∈ e.children, ∀ c' r, Alike c c' → f c = .ok r → ∃ r', f c' = .ok r' ∧ Alike r r') :
  ∃ r', (do return { e' with children := ← e'.children.mapM f }) = Except.ok r' ∧ Alike r r' := by
  obtain ⟨es,hes,rfl⟩ := map_ok h
  obtain ⟨es',hes',hal⟩ := mapM_forall₂ he.children hes hf
  rw [hes']
  exact ⟨_,rfl,he.withChildren hal⟩

end

end Element

namespace Tree

open Element

variable {e e' r c' c : Element} {es' es : List Element} {j j' k : Joining}

def AsksPlainly (e : Element) : Prop :=
  e.value? "setNewlines" = none ∨ e.value? "setNewlines" = some (.text "paragraph")

lemma isSome_first?_child (e : Element) (tag : String) :
  (e.first? [.self,.child tag]).isSome = (e.children.map Element.tag).contains tag := by
  have hf : e.first? [.self,.child tag] = (e.childrenOf tag).head? := by
    rw [← map_snd_childNodes tag [] e,head?_map]
    simp [first?,select,Step.take]
  rw [hf,childrenOf,head?_filter,Bool.eq_iff_iff]
  simp only [find?_isSome,contains_iff_mem,mem_map,beq_iff_eq]

lemma tags_alike (h : Forall₂ Alike es es') : es'.map Element.tag = es.map Element.tag := by
  induction h with
  | nil => rfl
  | cons he _ ih => rw [map_cons,map_cons,he.head.tag,ih]

lemma findIdx?_alike (h : Forall₂ Alike es es') (tag : String) :
  es'.findIdx? (·.tag == tag) = es.findIdx? (·.tag == tag) := by
  have hm (es : List Element) : es.findIdx? (·.tag == tag) = (es.map Element.tag).findIdx? (· == tag) := by
    rw [findIdx?_map]
    rfl
  rw [hm,hm,tags_alike h]

lemma parse_paragraph : Step.parse "./paragraph" = .ok [.self,.child "paragraph"] :=
  ok_of_toOption (by decide +kernel)

lemma alike_setNewline (h : Alike e e') (ha : AsksPlainly e) (hr : setNewline e = .ok r) :
  ∃ r', setNewline e' = .ok r' ∧ AlikeHead r r' := by
  have hv : e'.value? "setNewlines" = e.value? "setNewlines" := h.head.value?
  rw [setNewline] at hr ⊢
  rcases ha with hn | hsm
  · rw [hv]
    rw [hn] at hr ⊢
    cases hr
    exact ⟨e',rfl,h.head⟩
  rw [hv]
  rw [hsm] at hr ⊢
  have hs : (fun tag : String => Step.parse s!"./{tag}") "paragraph" =
      .ok [.self,.child "paragraph"] := parse_paragraph
  dsimp only at hs hr ⊢
  rw [hs,ok_bind] at hr ⊢
  cases hr
  refine ⟨_,rfl,?_⟩
  rw [isSome_first?_child,isSome_first?_child,tags_alike h.children]
  exact h.head.setValue "newlines" _

lemma alike_setNewlines (h : Alike e e') (ha : Throughout AsksPlainly e)
  (hr : setNewlines e = .ok r) : ∃ r', setNewlines e' = .ok r' ∧ Alike r r' := by
  simp only [setNewlines,mapHeadsEach_eq] at hr ⊢
  exact alike_each h hr fun c hc _ _ hcc => alike_mapHeads alike_setNewline hcc (ha.child hc)

structure JoinsAlike (j j' : Joining) : Prop where
  kept : Forall₂ Alike j.kept j'.kept
  removed : j'.removed = j.removed
  index : j'.index = j.index
  inText : j'.inText = j.inText
  last : j.inText = true → ∀ c ∈ j.kept.getLast?, c.tag = "text"

lemma forall₂_getLast? {α β : Type} {R : α → β → Prop} {xs : List α} {ys : List β} (h : Forall₂ R xs ys) {x : α}
  (hx : xs.getLast? = some x) : ∃ y, ys.getLast? = some y ∧ R x y ∧ Forall₂ R xs.dropLast ys.dropLast := by
  have hxs := dropLast_append_getLast? x hx
  rw [← hxs] at h
  obtain ⟨zs,last,rfl,hzs,hl⟩ := forall₂_split h
  obtain ⟨y,_,hy,hn,rfl⟩ := forall₂_cons_left_iff.mp hl
  obtain rfl := forall₂_nil_left_iff.mp hn
  exact ⟨y,by simp,hy,by simpa using hzs⟩

lemma JoinsAlike.add (h : JoinsAlike j j') (hc : Alike c c') {inText : Bool} (ht : inText → c.tag = "text") :
    JoinsAlike { j with kept := j.kept ++ [c], index := j.index + 1, inText }
      { j' with kept := j'.kept ++ [c'], index := j'.index + 1, inText } where
  kept := rel_append h.kept (.cons hc .nil)
  removed := h.removed
  index := congrArg (· + 1) h.index
  inText := rfl
  last hin d hd := by
    rw [getLast?_concat] at hd
    exact Option.some.inj hd ▸ ht hin

lemma JoinsAlike.extend {last last' : Element} (h : JoinsAlike j j')
    (hf : Forall₂ Alike j.kept.dropLast j'.kept.dropLast) (hl : Alike last last')
    (ht : last.tag = "text") (text more : String) (inText : Bool) :
    JoinsAlike ⟨j.kept.dropLast ++ [{ last with text := some text }],(j.index,more) :: j.removed,
      j.index + 1,inText⟩
      ⟨j'.kept.dropLast ++ [{ last' with text := some text }],(j'.index,more) :: j'.removed,
        j'.index + 1,inText⟩ where
  kept := rel_append hf (.cons (alike_iff.mpr
    ⟨⟨hl.head.tag,hl.head.attributes,fun _ => rfl,hl.head.tail⟩,hl.children⟩) .nil)
  removed := by rw [h.index,h.removed]
  index := congrArg (· + 1) h.index
  inText := rfl
  last _ d hd := by
    rw [getLast?_concat] at hd
    exact Option.some.inj hd ▸ ht

lemma alike_joinChild (hj : JoinsAlike j j') (hc : Alike c c') (h : joinChild j c = .ok k) :
  ∃ k', joinChild j' c' = .ok k' ∧ JoinsAlike k k' := by
  have hx {x x' : Element} (hx : Alike x x') (ht : x.tag = "text") : x'.text = x.text :=
    hx.head.text (by rw [ht]; decide)
  rcases joinChild_ok h with ⟨last,a,b,ht,hin,hl,ha,hb⟩ | hn
  · obtain ⟨last',hl',hal,hf⟩ := forall₂_getLast? hj.kept hl
    have hls := hj.last hin last hl
    cases (joinChild_extend ht hin hl ha hb).symm.trans h
    refine ⟨_,joinChild_extend (hc.head.tag.trans ht) (hj.inText.trans hin) hl' ((hx hal hls).trans ha)
      ((hx hc ht).trans hb),?_⟩
    rw [hj.inText]
    exact hj.extend hf hal hls _ _ _
  · cases (joinChild_add hn).symm.trans h
    refine ⟨_,joinChild_add fun ht hin => ?_,?_⟩
    · exact forall₂_nil_left_iff.mp (hn (hc.head.tag.symm.trans ht) (hj.inText.symm.trans hin) ▸ hj.kept)
    · rw [hc.head.tag]
      exact hj.add hc beq_iff_eq.mp

lemma alike_joining (hes : Forall₂ Alike es es') (hj : JoinsAlike j j')
  (h : es.foldlM joinChild j = .ok k) : ∃ k', es'.foldlM joinChild j' = .ok k' ∧ JoinsAlike k k' := by
  induction hes generalizing j j' with
  | nil =>
    cases h
    exact ⟨j',rfl,hj⟩
  | cons he _ ih =>
    rw [foldlM_cons] at h
    obtain ⟨j1,h1,hr⟩ := bind_ok h
    obtain ⟨j1',h1',hj1⟩ := alike_joinChild hj he h1
    obtain ⟨k',hk',hk⟩ := ih hj1 hr
    refine ⟨k',?_,hk⟩
    rw [foldlM_cons,h1']
    exact hk'

lemma alike_joinIn : Mirrors joinIn := by
  intro e e' r h hr
  obtain ⟨j,hj,hl⟩ := bind_ok hr
  obtain ⟨j',hj',ha⟩ := alike_joining h.children ⟨.nil,rfl,rfl,rfl,fun h => absurd h Bool.false_ne_true⟩ hj
  rw [joinIn,hj',ok_bind,ha.removed]
  split at hl
  · next hn =>
      rw [if_pos hn]
      cases hl
      exact ⟨e',rfl,h⟩
  next hsm =>
    rw [if_neg hsm]
    cases hl
    have hs := h.head.setValue "consolidated" (.text (Datum.list (j.removed.map fun p =>
      .list [.int p.1,.text p.2])).quoted)
    exact ⟨_,rfl,hs.over ha.kept⟩

lemma alike_stripText (h : Alike e e') (htg : e.tag = "text") : Alike (stripText e) (stripText e') := by
  have ht : e'.text = e.text := h.head.text (by rw [htg]; decide)
  rw [stripText,stripText,ht]
  cases e.text with
  | none => exact h
  | some text =>
    dsimp only
    split
    · exact h
    · have hs := h.head.setValue "stripped" (.text (toString (text.length - (Text.dropNewlines text).length)))
      exact alike_iff.mpr ⟨⟨hs.tag,hs.attributes,fun _ => rfl,hs.tail⟩,h.children⟩

lemma alike_stripIn : Mirrors stripIn := by
  intro e e' r h hr
  rw [stripIn] at hr ⊢
  by_cases ht : e.tag = "paragraph"
  · rw [if_neg (not_not_intro ht)] at hr
    rw [if_neg (not_not_intro (h.head.tag.trans ht)),findIdx?_alike h.children]
    cases hi : e.children.findIdx? (·.tag == "text") with
    | none =>
      rw [hi] at hr
      cases hr
      exact ⟨e',rfl,h⟩
    | some i =>
      rw [hi] at hr
      cases hr
      have hs (c c' : Element) (hc : e.children[i]? = some c) (hcc : Alike c c') :
          Alike (stripText c) (stripText c') := by
        have htx := of_findIdx?_eq_some hi
        rw [hc] at htx
        exact alike_stripText hcc (beq_iff_eq.mp htx)
      exact ⟨_,rfl,h.withChildren (rel_modify h.children hs)⟩
  · rw [if_pos ht] at hr
    rw [if_pos (h.head.tag.trans_ne ht)]
    cases hr
    exact ⟨e',rfl,h⟩

lemma alike_stripNewlines : Mirrors stripNewlines := by
  intro e e' r h hr
  simp only [stripNewlines,mapUpEach_eq] at hr ⊢
  exact alike_each h hr fun _ _ _ _ h => alike_mapUp alike_stripIn h

section

variable {splitter' splitter par' par : Element}

lemma firstGrandchild?_alike {test : Element → Bool} (ht : ∀ {x x'}, Alike x x' → test x' = test x)
  (h : Alike e e') : firstGrandchild? test e' = firstGrandchild? test e := by
  have hf := forest_alike [] 0 h.children
  rw [firstGrandchild?,firstGrandchild?]
  generalize forest [] 0 e.children = xs at hf ⊢
  generalize forest [] 0 e'.children = ys at hf ⊢
  induction hf with
  | nil => rfl
  | @cons p p' _ _ hp _ ih =>
    obtain ⟨addr,found⟩ := p
    obtain ⟨addr',found'⟩ := p'
    obtain ⟨rfl,ha⟩ := hp
    rw [findSome?_cons,findSome?_cons,ih]
    simp only [ht ha]

lemma alike_settledAt (hp : Alike par par') (hs : Alike splitter splitter') (idx : Nat) :
  Forall₂ Alike (settledAt idx par splitter) (settledAt idx par' splitter') := by
  rw [settledAt,settledAt,set_eq_modify,set_eq_modify]
  exact rel_modify hp.children fun _ _ _ _ =>
    alike_iff.mpr ⟨hs.head.setValue _ _,hs.children⟩

lemma alike_splitParents (hp : Alike par par') (hsp : Alike splitter splitter') (idx : Nat)
  (note note' : String) : Forall₂ Alike (splitParents idx note par splitter)
    (splitParents idx note' par' splitter') := by
  have hs := alike_settledAt hp hsp idx
  have hf : AlikeHead (Element.set { par with children := settledAt idx par splitter } "split" note)
      (Element.set { par' with children := settledAt idx par' splitter' } "split" note') :=
    (hp.withChildren hs).head.note _ _
  rw [splitParents,splitParents]
  split
  · exact .cons (alike_iff.mpr ⟨hf,hs⟩) .nil
  have hb : AlikeHead ({ tag := par.tag, children := (settledAt idx par splitter).drop idx } : Element)
      { tag := par'.tag, children := (settledAt idx par' splitter').drop idx } :=
    ⟨hp.head.tag,rfl,fun _ => rfl,rfl⟩
  have hsc : AlikeHead (copyAttributes ["newlines"] _ _) (copyAttributes ["newlines"] _ _) :=
    AlikeHead.copyAttributes (by decide) hf hb
  refine .cons (hf.over (forall₂_take idx hs))
    (.cons (alike_iff.mpr ⟨⟨hsc.tag,hsc.attributes,hsc.text,hsc.tail⟩,?_⟩) .nil)
  · dsimp only
    rw [(copyAttributes_fields _ _ _).2.2.2,(copyAttributes_fields _ _ _).2.2.2]
    exact forall₂_drop idx hs

lemma alike_splitBefore {i j : Nat} (h : Alike e e') (he' : Throughout Complete e')
  (hr : splitBefore i j e = .ok r) : ∃ r', splitBefore i j e' = .ok r' ∧ Alike r r' := by
  have hi := forall₂_getElem? h.children i
  cases hp : e.children[i]? with
  | none =>
    have hp' := rel_none_left (hp ▸ hi)
    simp only [splitBefore,hp] at hr
    cases hr
    simp only [splitBefore,hp']
    exact ⟨e',rfl,h⟩
  | some par =>
    obtain ⟨par',hp',ha⟩ := rel_some_left (hp ▸ hi)
    have hj := forall₂_getElem? ha.children j
    cases hs : par.children[j]? with
    | none =>
      have hs' := rel_none_left (hs ▸ hj)
      simp only [splitBefore,hp,hs] at hr
      cases hr
      simp only [splitBefore,hp',hs']
      exact ⟨e',rfl,h⟩
    | some splitter =>
      obtain ⟨splitter',hs',ha'⟩ := rel_some_left (hs ▸ hj)
      have hb' : Throughout Complete par' := he'.child (mem_of_getElem? hp')
      obtain ⟨text',hx'⟩ := (xml_ok_iff _).mpr (stable_shownBefore stable_complete hb' hs')
      obtain ⟨text,rfl⟩ := splitBefore_ok hp hs hr
      refine ⟨_,splitBefore_eq hp' hs' hx',h.withChildren ?_⟩
      exact rel_append (rel_append (forall₂_take i h.children)
        (alike_splitParents ha ha' j _ _)) (forall₂_drop (i + 1) h.children)

lemma alike_changeAt {f : Element → Except Fault Element}
  (hf : ∀ {x x' y}, Alike x x' → Throughout Complete x' → f x = .ok y → ∃ y', f x' = .ok y' ∧ Alike y y')
  (addr : Address) (h : Alike e e') (he' : Throughout Complete e')
  (hr : changeAt f addr e = .ok r) : ∃ r', changeAt f addr e' = .ok r' ∧ Alike r r' := by
  have hat := h.at? addr
  rw [changeAt] at hr ⊢
  cases hx : e.at? addr with
  | none =>
    rw [hx] at hr hat
    have hn : e'.at? addr = none := rel_none_left hat
    rw [hn]
    cases hr
    exact ⟨e',rfl,h⟩
  | some x =>
    obtain ⟨x',hx',ha⟩ := rel_some_left (hx ▸ hat)
    rw [hx] at hr
    obtain ⟨y,hy,rfl⟩ := map_ok hr
    obtain ⟨y',hy',hyy⟩ := hf ha (he'.at hx') hy
    rw [hx']
    refine ⟨e'.modifyAt (fun _ => y') addr,?_,h.modifyAt hyy addr⟩
    dsimp only
    rw [hy']
    rfl

lemma alike_onGrandchildren (fuel : Nat) (h : Alike e e') (he' : Throughout Complete e')
  (hr : onGrandchildren isSplitter splitBefore fuel e = .ok r) :
  ∃ r', onGrandchildren isSplitter splitBefore fuel e' = .ok r' ∧ Alike r r' := by
  have ht {x x' : Element} (hx : Alike x x') : isSplitter x' = isSplitter x := by
    rw [isSplitter,isSplitter,hx.head.value?]
  induction fuel generalizing e e' with
  | zero =>
    cases hr
    exact ⟨e',rfl,h⟩
  | succ fuel ih =>
    rw [onGrandchildren] at hr ⊢
    rw [firstGrandchild?_alike ht h]
    cases hf : firstGrandchild? isSplitter e with
    | none =>
      rw [hf] at hr
      cases hr
      exact ⟨e',rfl,h⟩
    | some found =>
      obtain ⟨addr,i,j⟩ := found
      rw [hf] at hr
      obtain ⟨changed,hc,hrs⟩ := bind_ok hr
      obtain ⟨changed',hc',ha⟩ := alike_changeAt alike_splitBefore addr h he' hc
      obtain ⟨r',hr',hrr⟩ := ih ha (stable_changeAt stable_complete
        (stable_splitBefore stable_complete) hc' he') hrs
      refine ⟨r',?_,hrr⟩
      dsimp only
      rw [hc']
      exact hr'

lemma alike_tidied (h : Alike e e') (he' : Throughout Complete e') (hak : Throughout AsksPlainly e)
    (hr : (do stripNewlines (← joinTexts (← resolveSplitters (← setNewlines e)))) = Except.ok r) :
    ∃ r', (do stripNewlines (← joinTexts (← resolveSplitters (← setNewlines e')))) = Except.ok r' ∧
      Alike r r' := by
  obtain ⟨e1,h1,hr⟩ := bind_ok hr
  obtain ⟨e2,h2,hr⟩ := bind_ok hr
  obtain ⟨e3,h3,h4⟩ := bind_ok hr
  obtain ⟨e1',h1',ha1⟩ := alike_setNewlines h hak h1
  obtain ⟨e2',h2',ha2⟩ := alike_onGrandchildren (e1.size + 1) ha1 (stable_setNewlines stable_complete h1' he') h2
  obtain ⟨e3',h3',ha3⟩ := alike_mapUp alike_joinIn ha2 h3
  obtain ⟨r',hr',hrr⟩ := alike_stripNewlines ha3 h4
  have hs : resolveSplitters e1' = .ok e2' := by
    rw [resolveSplitters,ha1.size]
    exact h2'
  refine ⟨r',?_,hrr⟩
  rw [h1',ok_bind,hs,ok_bind,joinTexts,h3',ok_bind]
  exact hr'

end

end Tree

end Docweave
