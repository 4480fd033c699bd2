import Docweave.Proofs.Trees.LiftingOrder

namespace Docweave.Tree

open List hiding tail
open Element

section

variable {α : Type}

def cutBefore : List (Bool × α) → List α × List (List α)
  | [] => ([],[])
  | (true,a) :: rest => ([],(a :: (cutBefore rest).1) :: (cutBefore rest).2)
  | (false,a) :: rest => (a :: (cutBefore rest).1,(cutBefore rest).2)

def uncutFirst : List (Bool × α) → List (Bool × α)
  | [] => []
  | (_,a) :: rest => (false,a) :: rest

lemma uncutFirst_append {l : List (Bool × α)} (hl : l ≠ []) (r : List (Bool × α)) :
  uncutFirst (l ++ r) = uncutFirst l ++ r := by
  cases l with
  | nil => exact absurd rfl hl
  | cons => rfl

lemma cutBefore_unflagged (l : List α) (r : List (Bool × α)) :
  cutBefore (l.map (false,·) ++ r) = (l ++ (cutBefore r).1,(cutBefore r).2) := by
  induction l with
  | nil => rfl
  | cons a l ih => rw [map_cons,cons_append,cutBefore,ih]; rfl

lemma uncut_unflagged (l : List α) : cutBefore (uncutFirst (l.map (false,·))) = (l,[]) := by
  have hu : uncutFirst (l.map (false,·)) = l.map (false,·) ++ [] := by
    rw [append_nil]
    cases l <;> rfl
  rw [hu,cutBefore_unflagged,cutBefore,append_nil]

lemma cutBefore_append (l : List (Bool × α)) (a : α) (r : List (Bool × α)) : cutBefore (l ++ (true,a) :: r) =
    ((cutBefore l).1,(cutBefore l).2 ++ (a :: (cutBefore r).1) :: (cutBefore r).2) := by
  induction l with
  | nil => rfl
  | cons p l ih =>
    obtain ⟨flag,b⟩ := p
    cases flag <;> rw [cons_append,cutBefore,ih] <;> rfl

end

section

variable {e : Element} {name : String}

def settled (e : Element) : Element :=
  let plain := { e with attributes := e.attributes.filter (·.1 ≠ "split") }
  if isSplitter e then plain.set "splitter" (isTrue false) else plain

def restOf (e : Element) : Element := copyAttributes ["newlines"] e { tag := e.tag }

def portion (e : Element) (below : List (Bool × Element)) : Element × List Element :=
  let cut := cutBefore (uncutFirst below)
  ({ settled e with children := cut.1 }, cut.2.map fun es => { restOf e with children := es })

mutual

def parts : Element → Element × List Element
  | ⟨tag,attributes,text,tail,children⟩ => portion ⟨tag,attributes,text,tail,children⟩ (partsEach children)

def partsEach : List Element → List (Bool × Element)
  | [] => []
  | c :: cs => (isSplitter c,(parts c).1) :: (parts c).2.map (false,·) ++ partsEach cs

end

lemma parts_eq (e : Element) : parts e = portion e (partsEach e.children) := by
  cases e
  rw [parts]

lemma partsEach_cons (c : Element) (cs : List Element) :
  partsEach (c :: cs) = (isSplitter c,(parts c).1) :: ((parts c).2.map (false,·) ++ partsEach cs) := by
  rw [partsEach,cons_append]

lemma partsEach_append (cs ds : List Element) : partsEach (cs ++ ds) = partsEach cs ++ partsEach ds := by
  induction cs with
  | nil => rw [partsEach]; rfl
  | cons c cs ih => rw [cons_append,partsEach,partsEach,ih,append_assoc]

lemma partsEach_ne_nil {cs : List Element} (h : cs ≠ []) : partsEach cs ≠ [] := by
  cases cs with
  | nil => exact absurd rfl h
  | cons c cs => rw [partsEach_cons]; exact cons_ne_nil _ _

lemma isSplitter_set_ne (e : Element) (h : "splitter" ≠ name) (text : String) :
  isSplitter (e.set name text) = isSplitter e := by
  rw [isSplitter,isSplitter,value?_set_ne e h]

lemma isSplitter_done (e : Element) : isSplitter (e.set "splitter" (isTrue false)) = false := by
  rw [isSplitter,value?_set]
  rfl

lemma value?_plain (e : Element) (h : name ≠ "split") :
    ({ e with attributes := e.attributes.filter (·.1 ≠ "split") } : Element).value? name = e.value? name := by
  rw [value?,value?,lookup_filter (· ≠ "split") (decide_eq_true h)]

lemma value?_settled (e : Element) (hs : name ≠ "split") (hsp : name ≠ "splitter") :
  (settled e).value? name = e.value? name := by
  rw [settled]
  split
  · rw [value?_set_ne _ hsp,value?_plain e hs]
  · exact value?_plain e hs

lemma value?_of_settled (h : (settled e).value? "splitter" = none) : e.value? "splitter" = none := by
  rw [settled] at h
  split at h
  · rw [value?_set] at h
    cases h
  · rwa [value?_plain e (by decide)] at h

lemma head_settled (e : Element) : (settled e).tag = e.tag ∧ (settled e).text = e.text ∧
    (settled e).tail = e.tail := by
  rw [settled]
  split <;> exact ⟨rfl,rfl,rfl⟩

lemma settled_note (e : Element) (text : String) : settled (e.set "split" text) = settled e := by
  rw [settled,settled,isSplitter_set_ne e (by decide)]
  dsimp only [Element.set,Element.setValue]
  rw [filter_setKey (· ≠ "split")]
  rfl

lemma settled_done (h : isSplitter e) : settled (e.set "splitter" (isTrue false)) = settled e := by
  rw [settled,settled,if_pos h,isSplitter_done,if_neg Bool.false_ne_true]
  dsimp only [Element.set,Element.setValue]
  rw [filter_setKey (· ≠ "split")]
  rfl

lemma restOf_congr {e' : Element} (ht : e'.tag = e.tag)
  (hv : e'.value? "newlines" = e.value? "newlines") : restOf e' = restOf e := by
  simp only [restOf,copyAttributes,foldl_cons,foldl_nil,ht,hv]

lemma value?_restOf (e : Element) (name : String) :
    (restOf e).value? name = if name = "newlines" then e.value? "newlines" else none := by
  split
  · next h =>
      subst h
      exact value?_copyAttributes (mem_singleton_self _) rfl
  · next h => exact value?_copyAttributes_ne _ _ _ (by simpa using h)

end

section

variable {e e' g p x : Element} {cs : List Element} {addr : Address} {i j : Nat}

def flagged (c : Element) : List (Bool × Element) := (isSplitter c,(parts c).1) :: (parts c).2.map (false,·)

lemma partsEach_eq (cs : List Element) : partsEach cs = cs.flatMap flagged := by
  induction cs with
  | nil => rfl
  | cons c cs ih => rw [partsEach,flatMap_cons,ih,flagged]

lemma parts_congr (hh : ∀ es, { settled e' with children := es } = { settled e with children := es })
    (hr : restOf e' = restOf e) (h : e'.children = e.children) : parts e' = parts e := by
  rw [parts_eq,parts_eq,portion,portion,hh,hr,h]

lemma settled_children (e : Element) (cs es : List Element) :
    { settled { e with children := cs } with children := es } = { settled e with children := es } := by
  rw [settled,settled,show isSplitter { e with children := cs } = isSplitter e from rfl]
  split <;> rfl

lemma parts_children (e : Element) (cs : List Element) :
    parts { e with children := cs } = portion e (partsEach cs) := by
  rw [parts_eq,portion,settled_children]
  rfl

lemma parts_note (e : Element) (text : String) : parts (e.set "split" text) = parts e :=
  parts_congr (fun es => by rw [settled_note]) (restOf_congr rfl (value?_set_ne e (by decide) text)) rfl

lemma parts_done (h : isSplitter e) : parts (e.set "splitter" (isTrue false)) = parts e :=
  parts_congr (fun es => by rw [settled_done h]) (restOf_congr rfl (value?_set_ne e (by decide) _)) rfl

def cutOff (p : Element) (es : List Element) : Element :=
  { restOf p with attributes := ("split",.text "new") :: (restOf p).attributes, children := es }

lemma children_cutOff (p : Element) (es : List Element) : (cutOff p es).children = es := rfl

lemma value?_cutOff {name : String} (h : name ≠ "split") (p : Element) (es : List Element) :
  (cutOff p es).value? name = (restOf p).value? name := by
  have hb : (name == "split") = false := beq_eq_false_iff_ne.mpr h
  rw [value?,value?,cutOff,lookup_cons,hb]

lemma isSplitter_cutOff (p : Element) (es : List Element) : isSplitter (cutOff p es) = false := by
  rw [isSplitter,value?_cutOff (by decide),value?_restOf]
  rfl

lemma restOf_cutOff (p : Element) (es : List Element) : restOf (cutOff p es) = restOf p := by
  refine restOf_congr (copyAttributes_fields _ _ _).1 ?_
  rw [value?_cutOff (by decide),value?_restOf,if_pos rfl]

lemma settled_cutOff (p : Element) (es fs : List Element) :
    { settled (cutOff p es) with children := fs } = { restOf p with children := fs } := by
  rw [settled,isSplitter_cutOff,if_neg Bool.false_ne_true,cutOff,restOf,copyAttributes,foldl_cons,foldl_nil]
  cases p.value? "newlines" <;> rfl

lemma parts_cutOff (p c : Element) (cs : List Element) : parts (cutOff p (c :: cs)) =
      let cut := cutBefore ((parts c).2.map (false,·) ++ partsEach cs)
      ({ restOf p with children := (parts c).1 :: cut.1 },
        cut.2.map fun es => { restOf p with children := es }) := by
  rw [parts_eq,portion,settled_cutOff,restOf_cutOff]
  rw [children_cutOff,partsEach_cons,uncutFirst,cutBefore]

lemma splitParents_eq (hx : p.children[j]? = some x) (note : String) : splitParents j note p x =
      if j = 0 then [{ p with children := x.set "splitter" (isTrue false) :: p.children.drop 1 }.set
        "split" note]
      else [{ p with children := p.children.take j }.set "split" note,
        cutOff p (x.set "splitter" (isTrue false) :: p.children.drop (j + 1))] := by
  have hj := (List.getElem?_eq_some_iff.mp hx).1
  have hl : (p.children.take j).length = j := length_take_of_le hj.le
  have hs : settledAt j p x = p.children.take j ++
    x.set "splitter" (isTrue false) :: p.children.drop (j + 1) := by
    rw [settledAt,set_eq_take_append_cons_drop,if_pos hj]
  have hc (note : String) (es : List Element) :
      copyAttributes ["newlines"] ({ p with children := settledAt j p x }.set "split" note)
        { tag := p.tag, children := es } =
        { restOf p with children := es } := by
    have hv : ({ p with children := settledAt j p x }.set "split" note).value? "newlines" =
      p.value? "newlines" :=
      value?_set_ne _ (by decide) note
    simp only [restOf,copyAttributes,foldl_cons,hv]
    cases p.value? "newlines" <;> rfl
  rw [splitParents,hc,hs,take_left' hl,drop_left' hl]
  split
  · next hz =>
      subst hz
      rfl
  · rfl

lemma flagged_splitParents (hx : p.children[j]? = some x) (hs : isSplitter x) (note : String) :
  (splitParents j note p x).flatMap flagged = flagged p := by
  have hp : partsEach p.children = partsEach (p.children.take j) ++
      (true,(parts x).1) :: ((parts x).2.map (false,·) ++ partsEach (p.children.drop (j + 1))) := by
    conv_lhs => rw [split_at hx]
    rw [partsEach_append,partsEach_cons,hs]
  have hf (es : List Element) : flagged ({ p with children := es }.set "split" note) =
      (isSplitter p,(portion p (partsEach es)).1) :: (portion p (partsEach es)).2.map (false,·) := by
    rw [flagged,parts_note,parts_children,isSplitter_set_ne _ (by decide)]
    rfl
  rw [splitParents_eq hx,flagged,parts_eq p,hp]
  split
  · next hj =>
      -- The first child stays where it is, flagged or not.
      subst hj
      rw [flatMap_singleton,hf,partsEach_cons,parts_done hs]
      rfl
  next hj =>
    have hpr : partsEach (p.children.take j) ≠ [] := by
      refine partsEach_ne_nil fun h => ?_
      rcases take_eq_nil_iff.mp h with hz | hn
      · exact hj hz
      · simp [hn] at hx
    rw [flatMap_cons,flatMap_singleton,hf,flagged,isSplitter_cutOff,parts_cutOff,parts_done hs]
    simp only [portion,uncutFirst_append hpr,cutBefore_append,map_append,map_cons,
      cons_append]

lemma partsEach_modifyAt (hat : e.at? addr = some g) (h : partsEach cs = partsEach g.children) :
    partsEach (e.modifyAt (fun _ => { g with children := cs }) addr).children = partsEach e.children := by
  induction addr generalizing e with
  | nil =>
    cases hat
    exact h
  | cons i addr ih =>
    obtain ⟨c,hc,hat⟩ := at?_cons_iff.mp hat
    have hb := ih hat
    obtain ⟨fs,hfs⟩ := modifyAt_head c cs addr hat
    rw [hfs] at hb
    have hf : flagged { c with children := fs } = flagged c := by
      rw [flagged,flagged,parts_children,parts_eq,hb]
      rfl
    rw [modifyAt]
    conv_rhs => rw [split_at hc]
    simp only [modify_at hc,hfs,partsEach_eq,flatMap_append,flatMap_cons,flatMap_nil,append_nil,append_assoc,hf]

lemma partsEach_round (h : grandchildRound isSplitter splitBefore e = some (.ok e')) :
  partsEach e'.children = partsEach e.children := by
  obtain ⟨addr,i,j,-,g,p,x,g',hg,hi,-,hj,hs,-,hg',rfl⟩ := grandchildRound_ok h
  obtain ⟨text,rfl⟩ := splitBefore_ok hi hj hg'
  refine partsEach_modifyAt hg ?_
  conv_rhs => rw [split_at hi]
  simp only [partsEach_eq,flatMap_append,flatMap_cons,flagged_splitParents hj hs,append_assoc]

lemma consumes_splitBefore : Consumes isSplitter splitBefore := by
  refine ⟨fun _ _ => rfl,fun {g g' p x i j} hi hj hs hg' => ?_⟩
  obtain ⟨text,rfl⟩ := splitBefore_ok hi hj hg'
  refine ⟨_,rfl,?_⟩
  have hw : weight isSplitter p.children = weight isSplitter (p.children.take j) +
      (weight isSplitter x.children + 1 + weight isSplitter (p.children.drop (j + 1))) := by
    conv_lhs => rw [split_at hj]
    rw [weight_append,weight_cons,if_pos hs]
  have hd : weight isSplitter (x.set "splitter" (isTrue false) :: p.children.drop (j + 1)) =
      weight isSplitter x.children + weight isSplitter (p.children.drop (j + 1)) := by
    rw [weight_cons,isSplitter_done,if_neg Bool.false_ne_true,set_children,Nat.add_zero]
  have hf (note : String) (es : List Element) :
      isSplitter ({ p with children := es }.set "split" note) = isSplitter p :=
        isSplitter_set_ne _ (by decide) note
  rw [splitParents_eq hj]
  split
  · next hz =>
      subst hz
      rw [flatMap_singleton,weight_cons,hf,set_children,hd,weight_nil]
      refine ⟨by omega,fun hp => ?_⟩
      rw [hp,if_neg Bool.false_ne_true]
      omega
  rw [flatMap_cons,flatMap_singleton,weight_append,weight_cons,weight_cons,hf,isSplitter_cutOff,
    if_neg Bool.false_ne_true,set_children,weight_nil]
  rw [children_cutOff]
  dsimp only
  refine ⟨by omega,fun hp => ?_⟩
  rw [hp,if_neg Bool.false_ne_true]
  omega

lemma ends_resolveSplitters (e : Element) :
    Ends (grandchildRound isSplitter splitBefore) e (resolveSplitters e) :=
  consumes_splitBefore.ends_size e

end

section

variable {e e' c : Element}

mutual

def cleared : Element → Element
  | ⟨tag,attributes,text,tail,children⟩ =>
    { settled ⟨tag,attributes,text,tail,children⟩ with children := clearedEach children }

def clearedEach : List Element → List Element
  | [] => []
  | e :: es => cleared e :: clearedEach es

end

lemma clearedEach_eq (es : List Element) : clearedEach es = es.map cleared := by
  induction es with
  | nil => rfl
  | cons e es ih => rw [clearedEach,map_cons,ih]

lemma cleared_eq (e : Element) : cleared e = { settled e with children := e.children.map cleared } := by
  cases e
  rw [cleared,clearedEach_eq]

lemma partsEach_of_singletons {cs : List Element} (h : ∀ c ∈ cs, flagged c = [(isSplitter c,cleared c)]) :
  partsEach cs = cs.map fun c => (isSplitter c,cleared c) := by
  induction cs with
  | nil => rfl
  | cons c cs ih =>
    rw [forall_mem_cons] at h
    rw [partsEach_eq,flatMap_cons,h.1,← partsEach_eq,ih h.2,map_cons,singleton_append]

lemma flagged_of_none (h : ∀ d ∈ c.children, Throughout (fun x => isSplitter x = false) d) :
  flagged c = [(isSplitter c,cleared c)] := by
  induction c using byChildren with
  | step c ih =>
    have hb : partsEach c.children = (c.children.map cleared).map (false,·) := by
      rw [partsEach_of_singletons fun d hd => ih d hd (throughout_iff.mp (h d hd)).2,map_map]
      exact map_congr_left fun d hd => congrArg (·,cleared d) (throughout_iff.mp (h d hd)).1
    rw [flagged,parts_eq,portion,hb,uncut_unflagged,cleared_eq]
    rfl

lemma resolveSplitters_parts (h : resolveSplitters e = .ok e') :
  (e'.children.map fun c => (isSplitter c,cleared c)) = partsEach e.children ∧
    ∀ c ∈ e'.children, ∀ d ∈ c.children, Throughout (fun x => isSplitter x = false) d := by
  have he := ends_resolveSplitters e
  rw [h] at he
  have hn : firstGrandchild? isSplitter e' = none := Option.map_eq_none_iff.mp he.no_round
  have hb (c : Element) (hc : c ∈ e'.children) := throughout_of_firstGrandchild? hn hc
  refine ⟨?_,hb⟩
  rw [← partsEach_of_singletons fun c hc => flagged_of_none (hb c hc)]
  exact he.keeps (P := fun s => partsEach s.children = partsEach e.children)
    (fun _ _ hr => (partsEach_round hr).trans) rfl e' rfl

end

section

variable {α β γ : Type} {R : α → β → Prop} {N : β → Prop}

inductive Spread (R : α → β → Prop) (N : β → Prop) : List α → List β → Prop
  | nil : Spread R N [] []
  | kept {a : α} {b : β} {as : List α} {bs : List β} (h : R a b) (hrest : Spread R N as bs) :
      Spread R N (a :: as) (b :: bs)
  | added {b : β} {as : List α} {bs : List β} (h : N b) (hrest : Spread R N as bs) : Spread R N as (b :: bs)

namespace Spread

open List hiding tail

variable {as : List α} {bs : List β}

lemma append {as' : List α} {bs' : List β} (h : Spread R N as bs) (h' : Spread R N as' bs') :
  Spread R N (as ++ as') (bs ++ bs') := by
  induction h with
  | nil => exact h'
  | kept h _ ih => exact .kept h ih
  | added h _ ih => exact .added h ih

lemma of_map {R' : α → γ → Prop} {N' : γ → Prop} {f : γ → β} (hR : ∀ a c, R a (f c) → R' a c)
  (hN : ∀ c, N (f c) → N' c) {cs : List γ} (h : Spread R N as (cs.map f)) : Spread R' N' as cs := by
  generalize hbs : cs.map f = bs at h
  induction h generalizing cs with
  | nil =>
    rw [map_eq_nil_iff.mp hbs]
    exact .nil
  | kept h _ ih =>
    obtain ⟨c,cs,rfl,rfl,rfl⟩ := map_eq_cons_iff.mp hbs
    exact .kept (hR _ _ h) (ih rfl)
  | added h _ ih =>
    obtain ⟨c,cs,rfl,rfl,rfl⟩ := map_eq_cons_iff.mp hbs
    exact .added (hN _ h) (ih rfl)

lemma filterMap_eq {f : α → Option γ} {g : β → Option γ} (hR : ∀ a b, R a b → g b = f a)
  (hN : ∀ b, N b → g b = none) (h : Spread R N as bs) : bs.filterMap g = as.filterMap f := by
  induction h with
  | nil => rfl
  | kept h _ ih => rw [filterMap_cons,filterMap_cons,hR _ _ h,ih]
  | added h _ ih => rw [filterMap_cons,hN _ h,ih]

end Spread

end

section

variable {x : Element} {s : Bool × Element} {rest : List Element → Element} {cs : List Element}

mutual

def stations (leads : Bool) : Element → List (Bool × Element)
  | ⟨tag,attributes,text,tail,children⟩ =>
    (leads,⟨tag,attributes,text,tail,children⟩) :: stationsEach true children

def stationsEach (leads : Bool) : List Element → List (Bool × Element)
  | [] => []
  | e :: es => stations leads e ++ stationsEach false es

end

lemma stations_eq (leads : Bool) (e : Element) :
    stations leads e = (leads,e) :: stationsEach true e.children := by
  cases e
  rw [stations]

lemma stationsEach_false (es : List Element) : stationsEach false es = es.flatMap (stations false) := by
  induction es with
  | nil => rfl
  | cons e es ih => rw [stationsEach,flatMap_cons,ih]

lemma stationsEach_cons (leads : Bool) (e : Element) (es : List Element) :
  stationsEach leads (e :: es) = stations leads e ++ es.flatMap (stations false) := by
  rw [stationsEach,stationsEach_false]

mutual

lemma map_snd_stations (leads : Bool) : ∀ e : Element, (stations leads e).map Prod.snd = inOrder e
  | ⟨tag,attrs,text,tail,children⟩ => by
    rw [stations,map_cons,map_snd_stationsEach true children,inOrder_eq]

lemma map_snd_stationsEach (leads : Bool) : ∀ es : List Element,
    (stationsEach leads es).map Prod.snd = es.flatMap inOrder
  | [] => rfl
  | e :: es => by
    rw [stationsEach,map_append,map_snd_stations leads e,map_snd_stationsEach false es,flatMap_cons]

end

mutual

lemma stations_cleared (leads : Bool) : ∀ e : Element,
    stations leads (cleared e) = (stations leads e).map fun s => (s.1,cleared s.2)
  | ⟨tag,attrs,text,tail,children⟩ => by
    rw [stations_eq,stations,map_cons,← stationsEach_cleared true children,cleared_eq]

lemma stationsEach_cleared (leads : Bool) : ∀ es : List Element,
    stationsEach leads (es.map cleared) = (stationsEach leads es).map fun s => (s.1,cleared s.2)
  | [] => rfl
  | e :: es => by
    rw [map_cons,stationsEach,stationsEach,map_append,stations_cleared leads e,stationsEach_cleared false es]

end

structure Retains (x : Element) (s : Bool × Element) : Prop where
  tag : s.2.tag = x.tag
  text : s.2.text = x.text
  tail : s.2.tail = x.tail
  values : ∀ name, name ≠ "split" → name ≠ "splitter" → s.2.value? name = x.value? name
  leads : isSplitter x = true → s.1 = true

structure IsAdded (s : Bool × Element) : Prop where
  text : s.2.text = none
  tail : s.2.tail = none
  values : ∀ name, name ≠ "split" → name ≠ "newlines" → s.2.value? name = none

lemma retains_settled {b : Bool} (es : List Element) (hb : isSplitter x → b) :
    Retains x (b,{ settled x with children := es }) :=
  ⟨(head_settled x).1,(head_settled x).2.1,(head_settled x).2.2,fun _ => value?_settled x,hb⟩

lemma retains_cleared (h : Retains x (s.1,cleared s.2)) : Retains x s := by
  obtain ⟨htg,htx,ht,hv,hl⟩ := h
  obtain ⟨hsg,hsx,hst⟩ := head_settled s.2
  rw [cleared_eq] at htg htx ht hv
  exact ⟨hsg.symm.trans htg,hsx.symm.trans htx,hst.symm.trans ht,
    fun name hs hsp => (value?_settled s.2 hs hsp).symm.trans (hv name hs hsp),hl⟩

lemma isAdded_cleared (h : IsAdded (s.1,cleared s.2)) : IsAdded s := by
  obtain ⟨htx,ht,hv⟩ := h
  obtain ⟨-,hsx,hst⟩ := head_settled s.2
  rw [cleared_eq] at htx ht hv
  refine ⟨hsx.symm.trans htx,hst.symm.trans ht,fun name hs hn => ?_⟩
  by_cases hsp : name = "splitter"
  · subst hsp
    exact value?_of_settled (hv _ hs hn)
  · exact (value?_settled s.2 hs hsp).symm.trans (hv name hs hn)

lemma isAdded_restOf (e : Element) (es : List Element) : IsAdded (false,{ restOf e with children := es }) := by
  refine ⟨(copyAttributes_fields _ _ _).2.1,(copyAttributes_fields _ _ _).2.2.1,fun name _ hn => ?_⟩
  exact (value?_restOf e name).trans (if_neg hn)

def Spreads (c : Element) : Prop := ∀ b : Bool, (isSplitter c → b) →
  Spread Retains IsAdded (inOrder c) (stations b (parts c).1 ++ (parts c).2.flatMap (stations false))

lemma spread_rest (hr : ∀ es, IsAdded (false,rest es) ∧ (rest es).children = es)
    (ih : ∀ c ∈ cs, Spreads c) :
    let cut := cutBefore (partsEach cs)
    Spread Retains IsAdded (cs.flatMap inOrder)
      (cut.1.flatMap (stations false) ++ (cut.2.map rest).flatMap (stations false)) := by
  induction cs with
  | nil => exact .nil
  | cons c cs ihcs =>
    rw [forall_mem_cons] at ih
    have hl := ihcs ih.2
    rw [partsEach_cons]
    cases hc : isSplitter c with
    | false =>
      have hs := (ih.1 false (by simp [hc])).append hl
      simpa only [cutBefore,cutBefore_unflagged,flatMap_cons,flatMap_append,append_assoc] using hs
    | true =>
      have hs := (ih.1 true fun _ => rfl).append hl
      obtain ⟨ha,hk⟩ := hr ((parts c).1 :: ((parts c).2 ++ (cutBefore (partsEach cs)).1))
      simp only [cutBefore,cutBefore_unflagged,map_cons,flatMap_cons]
      rw [stations_eq,hk,stationsEach_cons,cons_append]
      refine .added ha ?_
      simpa only [flatMap_append,append_assoc] using hs

lemma spread_children (hr : ∀ es, IsAdded (false,rest es) ∧ (rest es).children = es)
    (ih : ∀ c ∈ cs, Spreads c) :
    let cut := cutBefore (uncutFirst (partsEach cs))
    Spread Retains IsAdded (cs.flatMap inOrder) (stationsEach true cut.1 ++
      (cut.2.map rest).flatMap (stations false)) := by
  cases cs with
  | nil => exact .nil
  | cons c cs =>
    rw [forall_mem_cons] at ih
    have hs := (ih.1 true fun _ => rfl).append (spread_rest hr ih.2)
    rw [partsEach_cons,flatMap_cons]
    simpa only [uncutFirst,cutBefore,cutBefore_unflagged,stationsEach_cons,flatMap_append,append_assoc] using hs

lemma spread_parts (c : Element) : Spreads c := by
  induction c using byChildren with
  | step c ih =>
    intro b hb
    rw [parts_eq,inOrder_eq]
    exact .kept (retains_settled _ hb) (spread_children (fun es => ⟨isAdded_restOf c es,rfl⟩) ih)

end

section

open Markup (make)

variable {e e' : Element}

lemma resolveSplitters_head (h : resolveSplitters e = .ok e') : ∃ es, e' = { e with children := es } := by
  have he := ends_resolveSplitters e
  refine he.keeps (P := fun s => ∃ es, s = { e with children := es }) (fun s s' hr hs => ?_) ?_ e' h
  · obtain ⟨es,rfl⟩ := hs
    obtain ⟨addr,i,j,-,g,p,x,g',hg,hi,-,hj,-,-,hg',rfl⟩ := grandchildRound_ok hr
    obtain ⟨text,rfl⟩ := splitBefore_ok hi hj hg'
    exact modifyAt_head _ _ addr hg
  · cases e
    exact ⟨_,rfl⟩

lemma complete_round {res : Except Fault Element} (h : grandchildRound isSplitter splitBefore e = some res)
  (he : Throughout Complete e) : ∃ e', res = .ok e' ∧ Throughout Complete e' := by
  obtain ⟨addr,i,j,-,g,p,x,hg,hi,-,hj,-,rfl⟩ := grandchildRound_some h
  have hp : Throughout Complete p := (he.at hg).child (mem_of_getElem? hi)
  obtain ⟨text,ht⟩ := (xml_ok_iff _).mpr (stable_shownBefore stable_complete hp hj)
  have hs := splitBefore_eq hi hj ht
  rw [hs]
  exact ⟨_,rfl,(stable_modifyAt stable_complete he hg (stable_splitBefore stable_complete hs (he.at hg))).1⟩

lemma flag_partsEach {cs : List Element} {y : Element} (h : (true,y) ∈ partsEach cs) :
    ∃ c ∈ cs, isSplitter c := by
  rw [partsEach_eq] at h
  obtain ⟨c,hc,hy⟩ := mem_flatMap.mp h
  rcases mem_cons.mp hy with hs | hl
  · exact ⟨c,hc,(congrArg Prod.fst hs).symm⟩
  · simp at hl

lemma unmarked_resolveSplitters (hk : ∀ c ∈ e.children, isSplitter c = false)
    (h : resolveSplitters e = .ok e') :
  (∀ c ∈ e'.children, isSplitter c = false) ∧
  partsEach e.children = (e'.children.map cleared).map (false,·) := by
  obtain ⟨hp,-⟩ := resolveSplitters_parts h
  have hu : ∀ c ∈ e'.children, isSplitter c = false := fun c hc => by
    refine eq_false_of_ne_true fun hm => ?_
    have hf : (true,cleared c) ∈ partsEach e.children := by
      rw [← hp,← hm]
      exact mem_map_of_mem (f := fun c => (isSplitter c,cleared c)) hc
    obtain ⟨d,hd,hs⟩ := flag_partsEach hf
    exact absurd hs (ne_true_of_eq_false (hk d hd))
  refine ⟨hu,?_⟩
  rw [← hp,map_map]
  exact map_congr_left fun c hc => congrArg (·,cleared c) (hu c hc)

lemma spread_resolveSplitters (hs : isSplitter e = false) (hk : ∀ c ∈ e.children, isSplitter c = false)
  (h : resolveSplitters e = .ok e') : Spread Retains IsAdded (inOrder e) (stations false e') := by
  obtain ⟨-,hu⟩ := unmarked_resolveSplitters hk h
  obtain ⟨es,rfl⟩ := resolveSplitters_head h
  have hb := spread_children (fun es => ⟨isAdded_restOf e es,rfl⟩) fun c (_ : c ∈ e.children) => spread_parts c
  rw [hu,uncut_unflagged] at hb
  dsimp only at hb
  rw [map_nil,flatMap_nil,append_nil,stationsEach_cleared] at hb
  rw [inOrder_eq]
  exact .kept ⟨rfl,rfl,rfl,fun _ _ _ => rfl,fun hm => absurd hm (ne_true_of_eq_false hs)⟩
    (hb.of_map (fun _ _ => retains_cleared) fun _ => isAdded_cleared)

theorem splitting_leads (hself : isSplitter e = false)
    (hchildren : ∀ c ∈ e.children, isSplitter c = false) :
    (∀ result, Ends (grandchildRound isSplitter splitBefore) e result ↔
      result = resolveSplitters e) ∧
    (Throughout Complete e → ∃ e', resolveSplitters e = .ok e') ∧
    ∀ e', resolveSplitters e = .ok e' →
      Throughout (fun x => isSplitter x = false) e' ∧
      (inOrder e').filterMap (·.text) = (inOrder e).filterMap (·.text) ∧
      Spread Retains IsAdded (inOrder e) (stations false e') := by
  have hends := ends_resolveSplitters e
  refine ⟨ends_iff hends, hends.returns fun _ _ => complete_round, fun e' he' => ?_⟩
  have hspread := spread_resolveSplitters hself hchildren he'
  refine ⟨?_, ?_, hspread⟩
  · obtain ⟨es, rfl⟩ := resolveSplitters_head he'
    have hunmarked := (unmarked_resolveSplitters hchildren he').1
    have hbelow := (resolveSplitters_parts he').2
    exact throughout_iff.mpr ⟨hself, fun c hc => throughout_iff.mpr ⟨hunmarked c hc, hbelow c hc⟩⟩
  · rw [← map_snd_stations false, filterMap_map]
    exact hspread.filterMap_eq (fun _ _ h => h.text) fun _ h => h.text

def commandSpan (text : String) : Element :=
  make "text" [("layout","span"),("splitter",isTrue true)] (some text)

def commandComment : Element :=
  let span (tag wrap : String) (children : List Element) : Element :=
    make tag [("wrap",wrap),("layout","span")] none children
  make "comment" [] none [make "markdown" [] none
    [make "paragraph" [("newlines","2")] none
      [plainSpan "one ",commandSpan "@param ",plainSpan "two ",
        span "emphasis" "*" [plainSpan "three ",commandSpan "@return ",
          span "double_emphasis" "**" [commandSpan "@see ",plainSpan "four"]],commandSpan "@note "]]]

theorem splitting_leads_at_commands :
    (isSplitter commandComment = false ∧ ∀ c ∈ commandComment.children, isSplitter c = false) ∧
    ∃ e', resolveSplitters commandComment = .ok e' ∧ Throughout (fun x => isSplitter x = false) e' ∧
      (inOrder e').filterMap (·.text) = ["one ", "@param ", "two ", "three ", "@return ", "@see ",
        "four", "@note "] ∧
      Spread Retains IsAdded (inOrder commandComment) (stations false e') := by
  have hself : isSplitter commandComment = false := by decide +kernel
  have hchildren : ∀ c ∈ commandComment.children, isSplitter c = false := by decide +kernel
  have hcomplete : Throughout Complete commandComment := by
    unfold Throughout Complete
    decide +kernel
  obtain ⟨-, hreturns, hresult⟩ := splitting_leads hself hchildren
  obtain ⟨e', he'⟩ := hreturns hcomplete
  obtain ⟨hnone, htexts, hspread⟩ := hresult e' he'
  exact ⟨⟨hself, hchildren⟩, e', he', hnone, htexts.trans (by decide +kernel), hspread⟩

end

end Docweave.Tree
