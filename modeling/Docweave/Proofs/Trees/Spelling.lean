import Docweave.Proofs.Markdown.Markup

namespace Docweave

open List

namespace Element

variable {e c : Element} {es : List Element} {f : Element → Element}

def Complete (e : Element) : Prop := ∀ a ∈ e.attributes, a.2 ≠ .missing

lemma attributesXml_ok_iff (l : List (String × Value)) : (∃ s, attributesXml l = .ok s) ↔
    ∀ a ∈ l, a.2 ≠ .missing := by
  induction l with
  | nil => exact ⟨fun _ => nofun,fun _ => ⟨_,rfl⟩⟩
  | cons a l ih =>
    obtain ⟨name,v⟩ := a
    rw [forall_mem_cons,← ih]
    constructor
    · rintro ⟨s,h⟩
      obtain ⟨value,hvl,h⟩ := bind_ok h
      obtain ⟨rest,hr,-⟩ := bind_ok h
      refine ⟨?_,rest,hr⟩
      rintro rfl
      cases hvl
    · rintro ⟨hv,rest,hr⟩
      obtain ⟨value,hvl⟩ : ∃ value, valueXml v = .ok value := by
        cases v with
        | missing => exact absurd rfl hv
        | text s => exact ⟨_,rfl⟩
        | names ns => exact ⟨_,rfl⟩
      rw [attributesXml,hvl,hr]
      exact ⟨_,rfl⟩

mutual

lemma xml_ok_iff : ∀ e : Element, (∃ s, e.xml = .ok s) ↔ Throughout Complete e
  | ⟨tag,attributes,text,tail,children⟩ => by
    rw [throughout_iff,Complete,← attributesXml_ok_iff,← xmlEach_ok_iff children]
    constructor
    · rintro ⟨s,h⟩
      obtain ⟨shown,hs,h⟩ := bind_ok h
      obtain ⟨inside,hi,-⟩ := bind_ok h
      exact ⟨⟨shown,hs⟩,inside,hi⟩
    · rintro ⟨⟨shown,hs⟩,inside,hi⟩
      rw [xml,hs,hi]
      exact ⟨_,rfl⟩

lemma xmlEach_ok_iff : ∀ es : List Element, (∃ s, xmlEach es = .ok s) ↔ ∀ e ∈ es, Throughout Complete e
  | [] => ⟨fun _ => nofun,fun _ => ⟨_,rfl⟩⟩
  | e :: es => by
    rw [forall_mem_cons,← xml_ok_iff e,← xmlEach_ok_iff es]
    constructor
    · rintro ⟨s,h⟩
      obtain ⟨first,hf,h⟩ := bind_ok h
      obtain ⟨rest,hr,-⟩ := bind_ok h
      exact ⟨⟨first,hf⟩,rest,hr⟩
    · rintro ⟨⟨first,hf⟩,rest,hr⟩
      rw [xmlEach,hf,hr]
      exact ⟨_,rfl⟩

end

structure Reduces (e e' : Element) : Prop where
  tag : e'.tag = e.tag
  attributes : ∀ a ∈ e'.attributes, a ∈ e.attributes ∨ a.2 ≠ .missing
  verbatim : e'.has "verbatim" = true → e.has "verbatim" = true
  text : e.tag ≠ "text" → e'.text = none ∨ e'.text = e.text
  children : ∀ c ∈ e'.children, ∃ d ∈ e.children, c.tag = d.tag

def Stable (Q : Element → Prop) : Prop := ∀ ⦃e e'⦄, Q e → Reduces e e' → Q e'

lemma stable_complete : Stable Complete := by
  intro e e' he h a ha
  exact (h.attributes a ha).elim (he a) id

def Literal (P : String → Prop) (e : Element) : Prop :=
  e.has "verbatim" = true → e.tag ≠ "text" ∧ ∀ text, e.text = some text → P text

lemma stable_literal (P : String → Prop) : Stable (Literal P) := by
  intro e e' he h hv
  obtain ⟨ht,htx⟩ := he (h.verbatim hv)
  refine ⟨h.tag.trans_ne ht,fun text hs => ?_⟩
  rcases h.text ht with hn | hsm
  · rw [hn] at hs
    cases hs
  · exact htx text (hsm.symm.trans hs)

lemma Reduces.refl (e : Element) : Reduces e e :=
  ⟨rfl,fun _ ha => .inl ha,id,fun _ => .inr rfl,fun c hc => ⟨c,hc,rfl⟩⟩

lemma Reduces.trans {a b : Element} (hab : Reduces a b) (hbc : Reduces b c) : Reduces a c := by
  refine ⟨hbc.tag.trans hab.tag,fun x hx => ?_,fun h => hab.verbatim (hbc.verbatim h),
    fun ht => ?_,fun x hx => ?_⟩
  · exact (hbc.attributes x hx).elim (hab.attributes x) .inr
  · rcases hbc.text (hab.tag.trans_ne ht) with hn | hs
    · exact .inl hn
    · rw [hs]
      exact hab.text ht
  · obtain ⟨y,hy,hxy⟩ := hbc.children x hx
    obtain ⟨z,hz,hyz⟩ := hab.children y hy
    exact ⟨z,hz,hxy.trans hyz⟩

lemma reduces_children (h : ∀ c ∈ es, ∃ d ∈ e.children, c.tag = d.tag) : Reduces e { e with children := es } :=
  ⟨rfl,fun _ ha => .inl ha,id,fun _ => .inr rfl,h⟩

lemma reduces_setValue (e : Element) {name : String} (hn : name ≠ "verbatim") {v : Value}
  (hv : v ≠ .missing) : Reduces e (e.setValue name v) := by
  refine ⟨rfl,fun a ha => (mem_setKey ha).imp_right fun h => by rwa [h],fun h => ?_,
    fun _ => .inr rfl,fun c hc => ⟨c,hc,rfl⟩⟩
  rwa [has,value?_setValue_ne e hn.symm] at h

lemma reduces_set (e : Element) (name text : String) (hn : name ≠ "verbatim" := by decide) :
    Reduces e (e.set name text) :=
  reduces_setValue e hn (by simp)

lemma ne_missing_of_value? {name : String} {v : Value} (h : e.value? name = some v) : v ≠ .missing := by
  rintro rfl
  rw [value?] at h
  split at h
  · cases h
  · next hv => exact hv h

lemma reduces_copyAttributes {ns : List String} (hn : "verbatim" ∉ ns)
  (src tgt : Element) : Reduces tgt (copyAttributes ns src tgt) := by
  induction ns generalizing tgt with
  | nil => exact .refl tgt
  | cons name ns ih =>
    rw [mem_cons,not_or] at hn
    rw [copyAttributes,foldl_cons]
    cases hv : src.value? name with
    | none => exact ih hn.2 tgt
    | some v =>
      exact (reduces_setValue tgt (Ne.symm hn.1) (ne_missing_of_value? hv)).trans (ih hn.2 _)

variable {Q : Element → Prop}

lemma Throughout.child (h : Throughout Q e) (hc : c ∈ e.children) : Throughout Q c :=
  (throughout_iff.mp h).2 c hc

lemma Throughout.at {e x : Element} {addr : Address} (h : Throughout Q e)
  (hx : e.at? addr = some x) : Throughout Q x := by
  induction addr generalizing e with
  | nil =>
    cases hx
    exact h
  | cons i rest ih =>
    obtain ⟨c,hc,hx⟩ := at?_cons_iff.mp hx
    exact ih (h.child (mem_of_getElem? hc)) hx

def Reworks (Q : Element → Prop) (es es' : List Element) : Prop :=
  ∀ c ∈ es', Throughout Q c ∧ ∃ d ∈ es, c.tag = d.tag

lemma Throughout.keep (h : Throughout Q e) (hc : c ∈ e.children) : Throughout Q c ∧
    ∃ d ∈ e.children, c.tag = d.tag :=
  ⟨h.child hc,c,hc,rfl⟩

def Retains (Q : Element → Prop) (f : Element → Except Fault Element) : Prop :=
  ∀ ⦃e e'⦄, f e = .ok e' → Throughout Q e → Throughout Q e' ∧ e'.tag = e.tag

def ReducesHead (f : Element → Except Fault Element) : Prop :=
  ∀ e e', f e = .ok e' → Reduces e { e' with children := e.children }

lemma mem_modify {i : Nat} (h : c ∈ es.modify i f) : c ∈ es ∨ ∃ d, es[i]? = some d ∧ c = f d := by
  obtain ⟨k,hk⟩ := mem_iff_getElem?.mp h
  rw [getElem?_modify] at hk
  obtain ⟨d,hd,rfl⟩ := Option.map_eq_some_iff.mp hk
  split
  · next heq => exact .inr ⟨d,heq ▸ hd,rfl⟩
  · exact .inl (mem_of_getElem? hd)

lemma Throughout.modify {i : Nat} (he : Throughout Q e)
  (hf : ∀ c, e.children[i]? = some c → Throughout Q (f c) ∧ (f c).tag = c.tag) :
  Reworks Q e.children (e.children.modify i f) := by
  intro c hc
  rcases mem_modify hc with hc | ⟨d,hd,rfl⟩
  · exact he.keep hc
  · exact ⟨(hf d hd).1,d,mem_of_getElem? hd,(hf d hd).2⟩

variable {f : Element → Except Fault Element} {e' : Element} {es' es : List Element} (hQ : Stable Q)

lemma reworks_each (h : Forall₂ (fun e e' => f e = .ok e') es es')
  (hf : ∀ e ∈ es, ∀ {e'}, f e = .ok e' → Throughout Q e' ∧ e'.tag = e.tag) : Reworks Q es es' := by
  intro e' he'
  obtain ⟨e,he,hm⟩ := forall₂_mem_right h he'
  exact ⟨(hf e he hm).1,e,he,(hf e he hm).2⟩

include hQ

lemma Throughout.reduce (he : Throughout Q e) (h : Reduces e e')
  (hk : ∀ c ∈ e'.children, Throughout Q c) : Throughout Q e' :=
  throughout_iff.mpr ⟨hQ (throughout_iff.mp he).1 h,hk⟩

lemma Throughout.rework (he : Throughout Q e) (hr : Reduces e { e' with children := e.children })
  (h : Reworks Q e.children e'.children) : Throughout Q e' :=
  he.reduce hQ { hr with children := fun c hc => (h c hc).2 } fun c hc => (h c hc).1

lemma Throughout.withChildren (he : Throughout Q e) (h : Reworks Q e.children es) :
  Throughout Q { e with children := es } :=
  he.rework hQ (reduces_children fun c hc => ⟨c,hc,rfl⟩) h

lemma stable_modifyAt {f : Element → Element} {addr : Address} {x : Element} (he : Throughout Q e)
  (hx : e.at? addr = some x) (hf : Throughout Q (f x) ∧ (f x).tag = x.tag) :
  Throughout Q (e.modifyAt f addr) ∧ (e.modifyAt f addr).tag = e.tag := by
  induction addr generalizing e with
  | nil =>
    cases hx
    exact hf
  | cons i rest ih =>
    refine ⟨he.withChildren hQ (he.modify fun c hc => ?_),rfl⟩
    rw [at?,hc] at hx
    exact ih (he.child (mem_of_getElem? hc)) hx

lemma stable_mapHeads (hf : ReducesHead f) : Retains Q (mapHeads f) := by
  intro e e' h he
  induction e using byChildren generalizing e' with
  | step e ih =>
    obtain ⟨head,es,hh,hes,rfl⟩ := mapHeads_ok_iff.mp h
    have hr := hf _ _ hh
    exact ⟨he.rework hQ hr (reworks_each (mapHeadsEach_ok_iff.mp hes) fun c hc _ hm =>
      ih c hc hm (he.child hc)),hr.tag⟩

lemma stable_mapUp (hf : Retains Q f) : Retains Q (mapUp f) := by
  intro e e' h he
  induction e using byChildren generalizing e' with
  | step e ih =>
    obtain ⟨es,hes,h⟩ := mapUp_ok_iff.mp h
    rw [mapUpEach_eq,mapM_ok_iff] at hes
    exact @hf { e with children := es } _ h (he.withChildren hQ
      (reworks_each hes fun c hc _ hm => ih c hc hm (he.child hc)))

lemma stable_each (hf : Retains Q f) (h : (do return { e with children := ← e.children.mapM f }) = Except.ok e')
  (he : Throughout Q e) : Throughout Q e' := by
  obtain ⟨es,hes,rfl⟩ := map_ok h
  exact he.withChildren hQ (reworks_each ((mapM_ok_iff _ _ _).mp hes) fun c hc _ hm => hf hm (he.child hc))

end Element

namespace Tree

open Element

variable {Q : Element → Prop} {e e' splitter par : Element} {j i : Nat}

lemma reducesHead_setNewline : ReducesHead setNewline := by
  intro e e' h
  rw [setNewline] at h
  cases hv : e.value? "setNewlines" with
  | none =>
    rw [hv] at h
    cases h
    exact reduces_children fun c hc => ⟨c,hc,rfl⟩
  | some v =>
    rw [hv] at h
    obtain ⟨steps,-,rfl⟩ := map_ok h
    exact reduces_set e _ _

section

variable {j k : Joining} {c last : Element} {a b : String}

lemma joinChild_add (h : c.tag = "text" → j.inText = true → j.kept = []) :
  joinChild j c = .ok ⟨j.kept ++ [c],j.removed,j.index + 1,c.tag == "text"⟩ := by
  rw [joinChild]
  by_cases ht : c.tag = "text"
  · rw [if_neg (not_not_intro ht),ht]
    split
    · next last hin hl =>
        rw [h ht hin] at hl
        cases hl
    · rfl
  · rw [if_pos ht,beq_eq_false_iff_ne.mpr ht]
    rfl

lemma joinChild_extend (ht : c.tag = "text") (hin : j.inText = true)
    (hl : j.kept.getLast? = some last)
  (ha : last.text = some a) (hb : c.text = some b) : joinChild j c =
    .ok ⟨j.kept.dropLast ++ [{ last with text := some (a ++ b) }],(j.index,b) :: j.removed,
      j.index + 1,j.inText⟩ := by
  rw [joinChild,if_neg (not_not_intro ht),hin,hl]
  simp only [ha,hb]
  rfl

lemma joinChild_ok (h : joinChild j c = .ok k) :
  (∃ last a b, c.tag = "text" ∧ j.inText = true ∧ j.kept.getLast? = some last ∧ last.text = some a ∧
    c.text = some b) ∨
    (c.tag = "text" → j.inText = true → j.kept = []) := by
  refine or_iff_not_imp_right.mpr fun hn => ?_
  obtain ⟨ht,hn⟩ := Classical.not_imp.mp hn
  obtain ⟨hin,hn⟩ := Classical.not_imp.mp hn
  obtain ⟨last,hl⟩ := Option.ne_none_iff_exists'.mp (mt getLast?_eq_none_iff.mp hn)
  rw [joinChild,if_neg (not_not_intro ht),hin,hl] at h
  dsimp only at h
  split at h
  · next a b ha hb => exact ⟨last,a,b,ht,hin,hl,ha,hb⟩
  · cases h

end

structure Joining.Maintains (Q : Element → Prop) (seen : List Element) (j : Joining) : Prop where
  kept : Reworks Q seen j.kept
  last : j.inText = true → ∀ c ∈ j.kept.getLast?, c.tag = "text"

def stripText (c : Element) : Element :=
  match c.text with
  | none => c
  | some text =>
    let stripped := Text.dropNewlines text
    if stripped = text then c
    else { c.set "stripped" (toString (text.length - stripped.length)) with text := some stripped }

lemma reduces_stripText {c : Element} (ht : c.tag = "text") :
  Reduces c (stripText c) ∧ (stripText c).children = c.children := by
  rw [stripText]
  split
  · exact ⟨.refl c,rfl⟩
  · dsimp only
    split
    · exact ⟨.refl c,rfl⟩
    · exact ⟨{ reduces_set c "stripped" _ with text := fun hne => absurd ht hne },rfl⟩

def settledAt (index : Nat) (parent splitter : Element) : List Element :=
  parent.children.set index (splitter.set "splitter" (isTrue false))

def shownBefore (index : Nat) (parent splitter : Element) : Element :=
  ((settledAt index parent splitter)[index - 1]?).getD (splitter.set "splitter" (isTrue false))

def splitParents (index : Nat) (note : String) (parent splitter : Element) : List Element :=
  let first := { parent with children := settledAt index parent splitter }.set "split" note
  let second := copyAttributes ["newlines"] first
    { tag := parent.tag, children := (settledAt index parent splitter).drop index }
  if index = 0 then [first]
  else [{ first with children := (settledAt index parent splitter).take index },
    { second with attributes := ("split",.text "new") :: second.attributes }]

lemma splitBefore_eq (hp : e.children[i]? = some par)
    (hs : par.children[j]? = some splitter) {text : String}
  (hx : (shownBefore j par splitter).xml = .ok text) : splitBefore i j e = .ok { e with
    children := e.children.take i ++ splitParents j s!"{j} {text}" par splitter ++
      e.children.drop (i + 1) } := by
  rw [splitBefore]
  simp only [hp,hs]
  rw [shownBefore,settledAt] at hx
  rw [hx]
  rfl

lemma splitBefore_ok (hp : e.children[i]? = some par) (hs : par.children[j]? = some splitter)
  (h : splitBefore i j e = .ok e') : ∃ text : String, e' = { e with
    children := e.children.take i ++ splitParents j s!"{j} {text}" par splitter ++
      e.children.drop (i + 1) } := by
  cases hx : (shownBefore j par splitter).xml with
  | error fault =>
    simp only [splitBefore,hp,hs] at h
    obtain ⟨text,ht,-⟩ := bind_ok h
    exact absurd (hx.symm.trans ht) (by simp)
  | ok text =>
    rw [splitBefore_eq hp hs hx] at h
    exact ⟨text,(Except.ok.inj h).symm⟩

variable (hQ : Stable Q)

include hQ

lemma keeps_joinChild {seen : List Element} {j j' : Joining} {child : Element}
  (h : joinChild j child = .ok j') (hj : j.Maintains Q seen) (hch : Throughout Q child) :
  j'.Maintains Q (seen ++ [child]) := by
  have hseen {c : Element} (h : ∃ d ∈ seen, c.tag = d.tag) : ∃ d ∈ seen ++ [child], c.tag = d.tag :=
    h.imp fun _ hd => ⟨mem_append_left _ hd.1,hd.2⟩
  rcases joinChild_ok h with ⟨last,a,b,ht,hin,hls,ha,hb⟩ | hn
  · cases (joinChild_extend ht hin hls ha hb).symm.trans h
    obtain ⟨hl,htg⟩ := hj.kept last (mem_of_getLast? hls)
    have htx := hj.last hin last hls
    refine ⟨forall_mem_append.mpr ⟨fun c hc => (hj.kept c (dropLast_subset _ hc)).imp_right hseen,
      forall_mem_singleton.mpr ⟨?_,hseen htg⟩⟩,fun _ c hc => ?_⟩
    · exact hl.reduce hQ { Reduces.refl last with text := fun hne => absurd htx hne } (throughout_iff.mp hl).2
    · rw [getLast?_concat] at hc
      exact Option.some.inj hc ▸ htx
  · cases (joinChild_add hn).symm.trans h
    refine ⟨forall_mem_append.mpr ⟨fun c hc => (hj.kept c hc).imp_right hseen,
      forall_mem_singleton.mpr ⟨hch,child,mem_append_right _ (mem_singleton_self _),rfl⟩⟩,fun hin c hc => ?_⟩
    rw [getLast?_concat] at hc
    exact Option.some.inj hc ▸ beq_iff_eq.mp hin

lemma keeps_joining (seen : List Element) {es : List Element} {j j' : Joining}
  (h : es.foldlM joinChild j = .ok j') (hj : j.Maintains Q seen) (hes : ∀ e ∈ es, Throughout Q e) :
  j'.Maintains Q (seen ++ es) := by
  induction es generalizing j seen with
  | nil =>
    cases h
    rwa [append_nil]
  | cons e es ih =>
    obtain ⟨j1,h1,hr⟩ := bind_ok h
    rw [forall_mem_cons] at hes
    rw [append_cons]
    exact ih _ hr (keeps_joinChild hQ h1 hj hes.1) hes.2

lemma stable_joinIn : Retains Q joinIn := by
  intro e e' h he
  obtain ⟨j,hj,hl⟩ := bind_ok h
  split at hl
  · cases hl
    exact ⟨he,rfl⟩
  · cases hl
    have hk := keeps_joining hQ [] hj ⟨nofun,nofun⟩ (throughout_iff.mp he).2
    exact ⟨he.rework hQ (reduces_set e "consolidated" _) hk.kept,rfl⟩

lemma stable_stripIn : Retains Q stripIn := by
  intro e e' h he
  rw [stripIn] at h
  split at h
  · cases h
    exact ⟨he,rfl⟩
  split at h
  · cases h
    exact ⟨he,rfl⟩
  next i hi =>
    cases h
    refine ⟨he.withChildren hQ (he.modify (f := stripText) fun c hc => ?_),rfl⟩
    have ht := he.child (mem_of_getElem? hc)
    have htx := of_findIdx?_eq_some hi
    rw [hc] at htx
    obtain ⟨hr,hk⟩ := reduces_stripText (beq_iff_eq.mp htx)
    refine ⟨ht.reduce hQ hr ?_,hr.tag⟩
    rw [hk]
    exact (throughout_iff.mp ht).2

lemma stable_settledAt (hp : Throughout Q par) (hs : par.children[j]? = some splitter) :
  Reworks Q par.children (settledAt j par splitter) := by
  intro c hc
  have hm := mem_of_getElem? hs
  rcases mem_or_eq_of_mem_set hc with hc | rfl
  · exact hp.keep hc
  · have hb := hp.child hm
    exact ⟨hb.reduce hQ (reduces_set _ "splitter" _) (throughout_iff.mp hb).2,splitter,hm,rfl⟩

lemma stable_shownBefore (hp : Throughout Q par)
  (hsp : par.children[j]? = some splitter) : Throughout Q (shownBefore j par splitter) := by
  have ha := stable_settledAt hQ hp hsp
  rw [shownBefore]
  cases hs : (settledAt j par splitter)[j - 1]? with
  | some c => exact (ha c (mem_of_getElem? hs)).1
  | none =>
    have hlt := (List.getElem?_eq_some_iff.mp hsp).1
    exact (ha _ (mem_set hlt _)).1

lemma stable_splitParents (note : String) (hpr : Throughout Q par)
  (hs : par.children[j]? = some splitter) :
  ∀ p ∈ splitParents j note par splitter, Throughout Q p ∧ p.tag = par.tag := by
  have hal := stable_settledAt hQ hpr hs
  have hf (es : List Element) (hes : es ⊆ settledAt j par splitter) :
      Throughout Q { ({ par with children := settledAt j par splitter } : Element).set "split" note
        with children := es } :=
    hpr.rework hQ (reduces_set par "split" note) fun c hc => hal c (hes hc)
  intro p hp
  rw [splitParents] at hp
  split at hp
  · obtain rfl := mem_singleton.mp hp
    exact ⟨hf _ fun c hc => hc,rfl⟩
  rcases mem_cons.mp hp with rfl | hp
  · exact ⟨hf _ (take_subset _ _),rfl⟩
  obtain rfl := mem_singleton.mp hp
  have hcp := reduces_copyAttributes (by decide : "verbatim" ∉ ["newlines"])
    (({ par with children := settledAt j par splitter } : Element).set "split" note)
    { tag := par.tag, children := (settledAt j par splitter).drop j }
  refine ⟨hpr.rework hQ ⟨hcp.tag,fun a ha => ?_,fun h => ?_,fun _ => .inl ?_,
    fun c hc => ⟨c,hc,rfl⟩⟩ fun c hc => ?_,hcp.tag⟩
  · rcases mem_cons.mp ha with rfl | ha
    · exact .inr nofun
    · exact .inr ((hcp.attributes a ha).elim nofun id)
  · exact absurd (hcp.verbatim h) Bool.false_ne_true
  · exact (copyAttributes_fields _ _ _).2.1
  · rw [(copyAttributes_fields _ _ _).2.2.2] at hc
    exact hal c (mem_of_mem_drop hc)

lemma stable_splitBefore : Retains Q (splitBefore i j) := by
  intro e e' h he
  cases hp : e.children[i]? with
  | none =>
    simp only [splitBefore,hp] at h
    cases h
    exact ⟨he,rfl⟩
  | some par =>
    cases hsp : par.children[j]? with
    | none =>
      simp only [splitBefore,hp,hsp] at h
      cases h
      exact ⟨he,rfl⟩
    | some splitter =>
      obtain ⟨text,rfl⟩ := splitBefore_ok hp hsp h
      have hm := mem_of_getElem? hp
      have hs := stable_splitParents hQ s!"{j} {text}" (he.child hm) hsp
      refine ⟨he.withChildren hQ (forall_mem_append.mpr ⟨forall_mem_append.mpr ⟨?_,?_⟩,?_⟩),rfl⟩
      · exact fun c hc => he.keep (mem_of_mem_take hc)
      · exact fun c hc => ⟨(hs c hc).1,par,hm,(hs c hc).2⟩
      · exact fun c hc => he.keep (mem_of_mem_drop hc)

lemma stable_changeAt {f : Element → Except Fault Element} (hf : Retains Q f)
  {addr : Address} (h : changeAt f addr e = .ok e') (he : Throughout Q e) : Throughout Q e' := by
  rcases changeAt_ok h with rfl | ⟨x,x',hx,hx',rfl⟩
  · exact he
  · exact (stable_modifyAt hQ he hx (hf hx' (he.at hx))).1

lemma stable_setNewlines (h : setNewlines e = .ok e') : Throughout Q e → Throughout Q e' := by
  simp only [setNewlines,mapHeadsEach_eq] at h
  exact stable_each hQ (stable_mapHeads hQ reducesHead_setNewline) h

lemma stable_tidied (h : (do stripNewlines (← joinTexts (← resolveSplitters (← setNewlines e)))) = Except.ok e')
  (he : Throughout Q e) : Throughout Q e' := by
  obtain ⟨e1,h1,h⟩ := bind_ok h
  obtain ⟨e2,h2,h⟩ := bind_ok h
  obtain ⟨e3,h3,h4⟩ := bind_ok h
  have hs := onGrandchildren_run (R := fun e e' => Throughout Q e → Throughout Q e') (fun _ => id)
    (fun h h' he => h' (h he)) (stable_changeAt hQ (stable_splitBefore hQ)) h2 (stable_setNewlines hQ h1 he)
  simp only [stripNewlines,mapUpEach_eq] at h4
  exact stable_each hQ (stable_mapUp hQ (stable_stripIn hQ)) h4 (stable_mapUp hQ (stable_joinIn hQ) h3 hs).1

end Tree

end Docweave
