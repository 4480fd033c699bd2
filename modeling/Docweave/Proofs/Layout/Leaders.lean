import Docweave.Proofs.Layout.TreeStrokes

namespace Docweave.Tree

open Element Text List

section

structure Prosaic (e : Element) : Prop where
  shown : e.has "verbatim" = false
  level : ∀ s, e.attribute? "level" = some s → ∃ n, whole s = .ok n
  newlines : ∀ s, e.attribute? "newlines" = some s → ∃ n, whole s = .ok n
  counted : e.tag ≠ "doc"

lemma whole_ok_iff (s : String) : (∃ n, whole s = .ok n) ↔ (whole? s).isSome := by
  rw [whole]
  cases whole? s <;> simp

instance : DecidablePred Prosaic := fun e =>
  decidable_of_iff (e.has "verbatim" = false ∧ (∀ s ∈ e.attribute? "level", (whole? s).isSome = true) ∧
      (∀ s ∈ e.attribute? "newlines", (whole? s).isSome = true) ∧ e.tag ≠ "doc")
    ⟨fun h => ⟨h.1,fun s hs => (whole_ok_iff s).mpr (h.2.1 s hs),
        fun s hs => (whole_ok_iff s).mpr (h.2.2.1 s hs),h.2.2.2⟩,
      fun h => ⟨h.shown,fun s hs => (whole_ok_iff s).mp (h.level s hs),
        fun s hs => (whole_ok_iff s).mp (h.newlines s hs),h.counted⟩⟩

inductive EndsInText : Element → Prop
  | text {e : Element} (htext : e.text.isSome = true) (hleaf : e.children = []) : EndsInText e
  | last {e c : Element} {init : List Element} (hkids : e.children = init ++ [c]) (hlast : EndsInText c) :
      EndsInText e
  | member {e c : Element} {init : List Element} (horder : (orderOf e).isSome = true)
      (hblks : ∀ x ∈ e.children, x.attribute? "layout" = none) (hkids : e.children = init ++ [c])
      (hempty : c.children = []) : EndsInText e

structure Prose (tree : Element) : Prop where
  prosaic : Throughout Prosaic tree
  ends : tree.children = [] ∨ EndsInText tree

structure Regular (p : Element) : Prop where
  shown : p.has "verbatim" = false
  unsplit : p.value? "split" = none
  indent : ∀ s, p.attribute? "indent" = some s → ∃ n, whole s = .ok n
  newlines : ∀ s, p.attribute? "newlines" = some s → ∃ n, whole s = .ok n

def Stays (p : Element) : Prop := p.attribute? "newlines" = none

namespace Stroke

def Calm : Stroke → Prop
  | .code _ => False
  | .feed n => ∃ m, whole n = .ok m
  | _ => True

def Shows : Stroke → Prop
  | .text _ | .mark _ => True
  | _ => False

def Silent : Stroke → Prop
  | .feed _ => False
  | _ => True

variable {s : Stroke} (d : Edition) (w : Int)

lemma Calm.regular (h : s.Calm) : Regular (s.piece d w) := by
  cases s with
  | text s => exact ⟨rfl,rfl,fun _ hs => (by cases hs),fun _ hs => (by cases hs)⟩
  | mark s => exact ⟨rfl,rfl,fun _ hs => Option.some.inj hs ▸ ⟨w,whole_toString_int w⟩,fun _ hs => (by cases hs)⟩
  | leave => exact ⟨rfl,rfl,fun _ hs => Option.some.inj hs ▸ ⟨_,whole_toString_int _⟩,fun _ hs => (by cases hs)⟩
  | feed n => exact ⟨rfl,rfl,fun _ hs => (by cases hs),fun _ hs => Option.some.inj hs ▸ h⟩
  | code s => exact h.elim

lemma Shows.text (h : s.Shows) : (s.piece d w).text.isSome := by
  cases s <;> first | rfl | exact h.elim

lemma Silent.stays (h : s.Silent) : Stays (s.piece d w) := by
  cases s <;> first | rfl | exact h.elim

end Stroke

variable {e : Element} {w : Int} {ss : List (Nat × Stroke)}

lemma Prosaic.readable (he : Prosaic e) : Readable e :=
  ⟨he.level,fun hv => by rw [he.shown] at hv; cases hv⟩

lemma Prosaic.own (he : Prosaic e) : ∀ s ∈ ownStrokes e, s.Calm ∧ s.Shows ∧ s.Silent := by
  rw [ownStrokes_shown he.shown,forall_mem_map]
  exact fun _ _ => ⟨trivial,trivial,trivial⟩

lemma calm_strokes (depth : Nat) (he : Throughout Prosaic e) : ∀ x ∈ strokes w depth e, x.2.Calm :=
  forall_strokes ⟨fun _ hx s hs => (hx.own s hs).1,fun _ _ _ _ _ _ => trivial,trivial,⟨1,whole_one⟩,
    fun _ n hx hn => hx.newlines n hn⟩ depth he

def Speaks (ss : List (Nat × Stroke)) : Prop :=
  ∃ front x back, ss = front ++ x :: back ∧ x.2.Shows ∧ ∀ y ∈ x :: back, y.2.Silent

lemma Speaks.after (h : Speaks ss) (front : List (Nat × Stroke)) : Speaks (front ++ ss) := by
  obtain ⟨front',x,back,rfl,hx⟩ := h
  exact ⟨front ++ front',x,back,by simp,hx⟩

lemma Speaks.before (h : Speaks ss) {back : List (Nat × Stroke)} (hb : ∀ y ∈ back, y.2.Silent) :
  Speaks (ss ++ back) := by
  obtain ⟨front,x,back',rfl,hx,hq⟩ := h
  refine ⟨front,x,back' ++ back,by simp,hx,?_⟩
  exact forall_mem_append.mpr ⟨hq,hb⟩

lemma countToLast_prosaic {es : List Element} (hes : ∀ e ∈ es, Throughout Prosaic e) :
    countToLast es = es.length := countToLast_eq fun e he => (throughout_iff.mp (hes e he)).1.counted

lemma Prosaic.leaf (he : Prosaic e) (depth : Nat) :
  ∀ x ∈ (ownStrokes e ++ wrapStrokes e).map (depth,·), x.2.Shows ∧ x.2.Silent :=
  forall_mem_map.mpr fun s hs => (he.own s ((mem_append.mp hs).elim id (wrapStrokes_subset e ·))).2

lemma speaks_leaf (he : Prosaic e) (depth : Nat) (hne : ownStrokes e ++ wrapStrokes e ≠ []) :
  Speaks ((ownStrokes e ++ wrapStrokes e).map (depth,·)) := by
  have ha := he.leaf depth
  obtain ⟨s,own,ho⟩ := exists_cons_of_ne_nil hne
  rw [ho] at ha ⊢
  exact ⟨[],_,_,rfl,(ha _ mem_cons_self).1,fun x hx => (ha x hx).2⟩

lemma speaks_strokes (h : EndsInText e) (he : Throughout Prosaic e) (depth : Nat) :
    Speaks (strokes w depth e) := by
  -- Where the last child speaks with its mark, so does the element: what follows has no line end.
  have hl {e c : Element} {init : List Element} (he : Throughout Prosaic e) (hk : e.children = init ++ [c])
      {depth : Nat} (hsp : ∀ last', ((∀ x ∈ init, x.attribute? "layout" = none) → last' = none) →
        Speaks ((markStrokes w (orderOf e) init.length).map (depth,·) ++
          (changeStrokes last' c).map (inner depth (orderOf e),·) ++ strokes w (inner depth (orderOf e)) c)) :
      Speaks (strokes w depth e) := by
    obtain ⟨hh,ha⟩ := throughout_iff.mp he
    obtain ⟨front,last',hs,hn⟩ :=
      childStrokes_concat w depth (orderOf e) (init ++ [c]).length 0 none init c
    have hen : endStrokes (init ++ [c]).length init.length c = [] := by rw [endStrokes,if_neg (by simp)]
    rw [strokes_eq,countToLast_prosaic ha,hk,hs,framed,Nat.zero_add,hen]
    refine ((((hsp last' (hn rfl)).before ?_).after _).after _).before fun x hx => (hh.leaf depth x ?_).2
    · split <;> simp [Stroke.Silent]
    · rw [map_append]
      exact mem_append_right _ hx
  induction h generalizing depth with
  | @text e ht hlf =>
    obtain ⟨text,ht⟩ := Option.isSome_iff_exists.mp ht
    rw [strokes_leaf w depth hlf]
    exact speaks_leaf (throughout_iff.mp he).1 depth (by simp [ownStrokes,ht])
  | @last e c init hk _ ih =>
    refine hl he hk fun last' _ => ?_
    have hc : Throughout Prosaic c := (throughout_iff.mp he).2 c (by simp [hk])
    exact (ih hc (inner depth (orderOf e))).after _
  | @member e c init ho hb hk hem =>
    rw [hk,forall_mem_append] at hb
    obtain ⟨ordered,ho⟩ := Option.isSome_iff_exists.mp ho
    refine hl he hk fun last' hn => ?_
    have hc : Prosaic c := (throughout_iff.mp ((throughout_iff.mp he).2 c (by simp [hk]))).1
    rw [hn hb.1,strokes_leaf w _ hem,ho]
    refine ⟨[],_,_,rfl,trivial,forall_mem_cons.mpr ⟨trivial,?_⟩⟩
    exact fun x hx => (hc.leaf _ x hx).2

lemma Prose.strokes {tree : Element} (h : Prose tree) (hw : 0 ≤ w) (d : Edition) :
  ∃ ss, Tree.pieces d w tree = .ofList (written d w ss) ∧ (∀ x ∈ ss, x.2.Calm) ∧ (ss = [] ∨ Speaks ss) := by
  have hr : Throughout Readable tree := fun x hx => (h.prosaic x hx).readable
  refine ⟨Tree.strokes w 0 tree,pieces_strokes d w hw 0 hr,calm_strokes 0 h.prosaic,?_⟩
  rcases h.ends with hl | he
  · rw [strokes_leaf w 0 hl]
    by_cases hn : ownStrokes tree ++ wrapStrokes tree = []
    · exact .inl (by rw [hn]; rfl)
    · exact .inr (speaks_leaf (throughout_iff.mp h.prosaic).1 0 hn)
  · exact .inr (speaks_strokes he h.prosaic 0)

end

section

variable {d : Edition} {l : Layout} {p : Element}

structure IsFilled (bare : Bool) (e : Element) : Prop where
  settable : Settable e
  hangs : (e.attribute? "hanging").isSome = true
  bare : e.has "bareLine" = bare

structure Layout.Tidy (l : Layout) : Prop where
  done : ∀ e ∈ l.done, IsFilled false e
  split : l.split = none

lemma settable_of_hanging {e : Element} {n : Int} (ht : e.text.isSome)
  (hh : e.attribute? "hanging" = some (toString n)) : Settable e := by
  refine ⟨ht,fun s hs => ⟨n,?_⟩⟩
  cases hh.symm.trans hs
  exact whole_toString_int n

lemma tidy_newline (tag : String) (hl : l.Tidy) : (l.newline tag).Tidy := by
  refine ⟨fun e he => ?_,rfl⟩
  rcases mem_append.mp he with he | he
  · exact hl.done e he
  · rw [hl.split] at he
    obtain rfl := mem_singleton.mp he
    exact ⟨settable_of_hanging rfl rfl,rfl,rfl⟩

lemma tidy_newlines (tag : String) (n : Nat) (hl : l.Tidy) : (l.newlines tag n).Tidy := by
  induction n generalizing l with
  | zero => exact hl
  | succ n ih => exact ih (tidy_newline tag hl)

lemma tag_newlines (tag : String) (n : Nat) : (l.newlines tag n).tag = l.tag := by
  induction n generalizing l with
  | zero => rfl
  | succ n ih => exact ih

lemma add_regular (hl : l.Tidy) (hp : Regular p) : ∃ l', l.add d p = .ok l' ∧ l'.Tidy ∧ l'.tag.isSome ∧
    (Stays p → l.texts ≠ [] ∨ p.text.isSome → l'.texts ≠ []) := by
  obtain ⟨l1,h1,hd1,ht1,hsp1,htg1⟩ : ∃ l1,
      Layout.indented p { l with tag := some (l.tag.getD p.tag) } = .ok l1 ∧ l1.done = l.done ∧
        l1.texts = l.texts ∧ l1.split = l.split ∧ l1.tag = some (l.tag.getD p.tag) := by
    rw [Layout.indented]
    split
    · exact ⟨_,rfl,rfl,rfl,rfl,rfl⟩
    · next s hs =>
        obtain ⟨n,hn⟩ := hp.indent s hs
        rw [hn]
        exact ⟨_,rfl,rfl,rfl,rfl,rfl⟩
  have hpr : Layout.parted p l1 = l1 := by rw [Layout.parted,hp.unsplit]
  obtain ⟨l2,h2,hd2,ht2,hsp2,htg2⟩ : ∃ l2, Layout.filled d (l.tag.getD p.tag) p l1 = .ok l2 ∧ l2.done = l1.done ∧
        l2.texts = l1.texts ++ p.text.toList ∧ l2.split = l1.split ∧ l2.tag = l1.tag := by
    rw [Layout.filled]
    split
    · next hnn => exact ⟨_,rfl,rfl,by simp [hnn],rfl,rfl⟩
    · next text htx =>
        rw [if_neg (by simp [hp.shown])]
        exact ⟨_,rfl,rfl,by simp [htx],rfl,rfl⟩
  have htd : l2.Tidy := by
    refine ⟨?_,by rw [hsp2,hsp1,hl.split]⟩
    rw [hd2,hd1]
    exact hl.done
  have ha : l.add d p = Layout.ended (l.tag.getD p.tag) p l2 := by
    rw [add_eq,h1]
    simp only [bind,Except.bind]
    rw [hpr,h2]
  rw [ha,Layout.ended]
  split
  · refine ⟨l2,rfl,htd,by rw [htg2,htg1]; rfl,fun _ ht => ?_⟩
    rw [ht2,ht1]
    rcases ht with ht | htx
    · simp [ht]
    · obtain ⟨text,htx⟩ := Option.isSome_iff_exists.mp htx
      simp [htx]
  next s hs =>
    obtain ⟨n,hn⟩ := hp.newlines s hs
    rw [hn]
    refine ⟨_,rfl,tidy_newlines _ _ htd,?_,fun hst => ?_⟩
    · rw [tag_newlines,htg2,htg1]
      rfl
    · cases hs.symm.trans hst

lemma layOutFrom_regular {ps : List Element} (hl : l.Tidy) (hps : ∀ p ∈ ps, Regular p) :
  ∃ l' : Layout, l'.Tidy ∧ (∀ qs err, layOutFrom d l (ps ++ qs) err = layOutFrom d l' qs err) ∧
    (l.tag.isSome → l'.tag.isSome) ∧ ((∀ p ∈ ps, Stays p) → l.texts ≠ [] → l'.texts ≠ []) := by
  induction ps generalizing l with
  | nil => exact ⟨l,hl,fun _ _ => rfl,id,fun _ => id⟩
  | cons p ps ih =>
    rw [forall_mem_cons] at hps
    obtain ⟨l1,ha,hl1,htg1,ht1⟩ := @add_regular d l p hl hps.1
    obtain ⟨l',hl',hr,htg,ht⟩ := ih hl1 hps.2
    refine ⟨l',hl',fun qs err => ?_,fun _ => htg htg1,fun hs hne => ?_⟩
    · rw [cons_append,layOutFrom,ha]
      exact hr qs err
    · rw [forall_mem_cons] at hs
      exact ht hs.2 (ht1 hs.1 (.inl hne))

lemma layOutFrom_speaks {ss : List (Nat × Stroke)} {w : Int} (hl : l.Tidy) (hss : ∀ x ∈ ss, x.2.Calm)
  (hs : Speaks ss) : ∃ front last, layOutFrom d l (written d w ss) none = .ofList (front ++ [last]) ∧
    (∀ e ∈ front, IsFilled false e) ∧ IsFilled true last := by
  have hr {ss : List (Nat × Stroke)} (hss : ∀ x ∈ ss, x.2.Calm) : ∀ p ∈ written d w ss, Regular p :=
    forall_mem_map.mpr fun x hx => (hss x hx).regular d w
  obtain ⟨before,x,back,rfl,hsh,hq⟩ := hs
  rw [forall_mem_append,forall_mem_cons] at hss
  rw [forall_mem_cons] at hq
  obtain ⟨l1,hl1,hf,-,-⟩ := @layOutFrom_regular d l _ hl (hr hss.1)
  obtain ⟨l2,ha,hl2,htg2,ht2⟩ := @add_regular d l1 _ hl1 (hss.2.1.regular d w)
  obtain ⟨l3,hl3,hb,htg3,ht3⟩ := @layOutFrom_regular d l2 _ hl2 (hr hss.2.2)
  obtain ⟨tag,htg⟩ := Option.isSome_iff_exists.mp (htg3 htg2)
  have ht : l3.texts ≠ [] := ht3 (forall_mem_map.mpr fun y hy => (hq.2 y hy).stays d w)
    (ht2 (hq.1.stays d w) (.inr (hsh.text d w)))
  have he := hb [] none
  rw [append_nil] at he
  rw [written,map_append,← written,hf,map_cons,layOutFrom,ha]
  dsimp only
  rw [← written,he,layOutFrom,Layout.close,htg]
  dsimp only
  rw [if_neg (by simpa using ht)]
  exact ⟨_,_,rfl,hl3.done,settable_of_hanging rfl rfl,rfl,rfl⟩

lemma Prose.lines {tree : Element} (h : Prose tree) {indentWidth : Int} (hw : 0 ≤ indentWidth) :
  ∃ made ls, (Tree.pieces .final indentWidth tree).toExcept = .ok made ∧
    (logicalLines .final (.ofList made)).toExcept = .ok ls ∧
    (ls = [] ∨ ∃ front last, ls = front ++ [last] ∧ (∀ e ∈ front, IsFilled false e) ∧ IsFilled true last) := by
  obtain ⟨ss,hp,hc,hs⟩ := h.strokes hw .final
  refine ⟨written .final indentWidth ss,?_⟩
  rw [hp]
  rcases hs with rfl | hs
  · exact ⟨[],rfl,rfl,.inl rfl⟩
  obtain ⟨front,last,hl,hf,hls⟩ :=
    @layOutFrom_speaks .final {} ss indentWidth ⟨forall_mem_nil _,rfl⟩ hc hs
  refine ⟨front ++ [last],rfl,?_,.inr ⟨front,last,rfl,hf,hls⟩⟩
  rw [logicalLines,Stream.ofList,hl]
  rfl

end

section

variable {dialect lang : Dialect} {width wd hang : Int} {start next : String} {e e' : Element}

def Wraps (width : Int) (dialect : Dialect) (start : String) (e : Element) : Prop :=
  ∃ e' hanging text first second rest, respellLine dialect e = .ok (e',some hanging) ∧ e'.text = some text ∧
    fill width (start ++ spacesInt hanging) (start ++ text) = .ok (first :: second :: rest)

def HasRoom (width : Int) (dialect : Dialect) (start : String) (e : Element) : Prop :=
  ∀ e' hanging, respellLine dialect e = .ok (e',some hanging) →
    ((start ++ spacesInt hanging).length : Int) < width

instance : Decidable (HasRoom wd lang start e) :=
  decidable_of_iff (∀ n ∈ (respellLine lang e).toOption.bind Prod.snd,
      ((start ++ spacesInt n).length : Int) < wd) (by
    constructor
    · intro hroom e' n hresp
      exact hroom n (by simp [hresp,Except.toOption])
    · intro hroom n hn
      obtain ⟨⟨e',_⟩,hr,rfl⟩ := Option.bind_eq_some_iff.mp hn
      exact hroom e' n (ok_of_toOption hr))

instance : Decidable (Wraps wd lang start e) :=
  decidable_of_iff (∃ r ∈ (respellLine lang e).toOption, ∃ n ∈ r.2, ∃ text ∈ r.1.text,
      1 < ((fill wd (start ++ spacesInt n) (start ++ text)).toOption.getD []).length) (by
    constructor
    · rintro ⟨⟨e',_⟩,hr,n,rfl,text,htext,hmore⟩
      cases hfill : fill wd (start ++ spacesInt n) (start ++ text) with
      | error err => simp [hfill,Except.toOption] at hmore
      | ok ls =>
        rw [hfill] at hmore
        cases ls with
        | nil => cases hmore
        | cons first ls =>
          cases ls with
          | nil => exact absurd hmore (Nat.lt_irrefl 1)
          | cons second rest => exact ⟨e',n,text,first,second,rest,ok_of_toOption hr,htext,hfill⟩
    · rintro ⟨e',n,text,first,second,rest,hresp,htext,hfill⟩
      exact ⟨(e',some n),by simp [hresp,Except.toOption],n,rfl,text,htext,
        by simp [hfill,Except.toOption]⟩)

def LedBy (start : String) (lines : List String) : Prop :=
  ∀ line ∈ lines, start.toList <+: line.toList ∧ '\n' ∉ line.toList

lemma fillLine_led (hs : IsLeader start) (text : String) (hw : ((start ++ spacesInt hang).length : Int) < wd) :
  ∃ shown, fillLine (some wd) start text hang = .ok (shown.intersperse "\n") ∧ shown ≠ [] ∧
    LedBy start shown ∧ (1 < shown.length ↔ ∃ first second rest,
      fill wd (start ++ spacesInt hang) (start ++ text) = .ok (first :: second :: rest)) := by
  obtain ⟨first,rest,hln,-,hf⟩ := fillLine_lines text hw
  have hi := not_mem_leads hs.oneLine hang
  have hrm : (start.length : Int) < wd := by
    rw [String.length_append] at hw
    omega
  obtain ⟨first',rest',hf',hld⟩ := hs.fill_first (start ++ spacesInt hang) text hrm
  replace hf := hf.resolve_right fun hn => by cases hn.1.symm.trans hf'
  cases hf'.symm.trans hf
  obtain ⟨hfr,hr⟩ := forall_mem_cons.mp (fill_oneLine hi hf)
  refine ⟨_,hln,cons_ne_nil _ _,forall_mem_cons.mpr ⟨?_,fun line hl => ⟨?_,hr line hl⟩⟩,?_⟩
  · split
    · exact ⟨by simp,hi⟩
    · next hlg =>
        rw [String.length_append] at hlg
        exact ⟨hld (by omega),hfr⟩
  · obtain ⟨body,-,rfl⟩ := mem_map.mp hl
    simp
  · rw [hf]
    cases rest with
    | nil => simp
    | cons second rest => simp

lemma writeLine_led {bare : Bool} (he : IsFilled bare e) (hst : IsLeader start) (hrm : HasRoom wd lang start e) :
    ∃ e' shown, writeLine (some wd) lang start e =
        .ok (e',shown.intersperse "\n" ++ if bare then [] else ["\n"]) ∧
      shown ≠ [] ∧ LedBy start shown ∧ (1 < shown.length ↔ Wraps wd lang start e) := by
  obtain ⟨s,hs⟩ := Option.isSome_iff_exists.mp he.hangs
  obtain ⟨e',hang,text,hr,ht⟩ := respellLine_settable lang he.settable hs
  obtain ⟨shown,hf,hne,hld,hm⟩ := fillLine_led hst text (hrm e' hang hr)
  have hsh : fillLine (some wd) start (e'.text.getD "") hang = .ok (shown.intersperse "\n") := by
    rwa [ht]
  have hw := writeLine_ok_iff.mpr (.filled hr hsh)
  rw [ending,has,respellLine_value hr (by decide) (by decide),← has,he.bare] at hw
  refine ⟨e',shown,hw,hne,hld,hm.trans ⟨?_,?_⟩⟩
  · rintro ⟨first,second,rest,hl⟩
    exact ⟨e',hang,text,first,second,rest,hr,ht,hl⟩
  · rintro ⟨e'',hang',text',first,second,rest,hr',ht',hl⟩
    obtain ⟨rfl,hsm⟩ := Prod.mk.inj (Except.ok.inj (hr.symm.trans hr'))
    cases hsm
    cases ht.symm.trans ht'
    exact ⟨first,second,rest,hl⟩

lemma writeLinesFrom_led {front : List Element} {last : Element} (hf : ∀ e ∈ front, IsFilled false e)
  (hls : IsFilled true last) (hs : IsLeader start) (hn : IsLeader next) {es : List Element}
  (hes : front ++ [last] = e :: es) (hrm : HasRoom wd lang start e) (hr : ∀ x ∈ es, HasRoom wd lang next x) :
  (writeLinesFrom (some wd) lang next start (e :: es) none).fault = none ∧
    ∃ own others, own ≠ [] ∧ LedBy start own ∧ LedBy next others ∧ (1 < own.length ↔ Wraps wd lang start e) ∧
      String.join (writeLinesFrom (some wd) lang next start (e :: es) none).texts =
        String.join ((own ++ others).intersperse "\n") := by
  induction front generalizing start e es with
  | nil =>
    cases hes
    obtain ⟨e',shown,hwr,hne,hld,hw⟩ := writeLine_led hls hs hrm
    rw [writeLinesFrom_eq hwr]
    refine ⟨rfl,shown,[],hne,hld,forall_mem_nil _,hw,?_⟩
    simp [writeLinesFrom]
  | cons x front ih =>
    obtain ⟨rfl,hl⟩ := cons.inj hes
    rw [forall_mem_cons] at hf
    obtain ⟨e',shown,hwr,hne,hld,hw⟩ := writeLine_led hf.1 hs hrm
    obtain ⟨y,es,rfl⟩ := exists_cons_of_ne_nil (show es ≠ [] by rw [← hl]; simp)
    rw [forall_mem_cons] at hr
    obtain ⟨hfl,own,others,hown,hon,ho,-,ht⟩ := ih hf.2 hn hl hr.1 hr.2
    rw [writeLinesFrom_eq hwr]
    refine ⟨hfl,shown,own ++ others,hne,hld,forall_mem_append.mpr ⟨hon,ho⟩,hw,?_⟩
    rw [← join_intersperse_append hne (by simp [hown])]
    simp only [String.join_append,ht]
    simp [String.append_assoc]

end

section

def IsLed (indent : Int) (texts : List String) : Prop :=
  ∃ first between, physicalLines texts = first :: (between ++ [(spacesInt (indent + 1) ++ "*/").toList]) ∧
    (spacesInt indent ++ "/** ").toList <+: first ∧
    ∀ line ∈ between, (spacesInt (indent + 1) ++ "* ").toList <+: line

lemma not_both_leaders (ind : Int) {line : List Char} (ho : (spacesInt ind ++ "/** ").toList <+: line) :
  ¬ (spacesInt (ind + 1) ++ "* ").toList <+: line := by
  rintro ⟨after,hn⟩
  obtain ⟨rest,rfl⟩ := ho
  simp only [spacesInt,spaces] at hn
  by_cases hi : 0 ≤ ind
  · have hw : (ind + 1).toNat = ind.toNat + 1 := by omega
    rw [hw,replicate_succ'] at hn
    simp at hn
  · rw [Int.toNat_of_nonpos (by omega),Int.toNat_of_nonpos (by omega)] at hn
    simp at hn

lemma isLed_iff {ind : Int} {own others : List String} (hne : own ≠ [])
  (hon : LedBy (spacesInt ind ++ "/** ") own) (ho : LedBy (spacesInt (ind + 1) ++ "* ") others)
  {ts : List String} (ht : String.join ts =
    String.join ((own ++ others ++ [spacesInt (ind + 1) ++ "*/"]).intersperse "\n")) :
  IsLed ind ts ↔ ¬ 1 < own.length := by
  have hc : '\n' ∉ (spacesInt (ind + 1) ++ "*/").toList := by
    rw [String.toList_append,mem_append]
    rintro (hm | hm)
    · exact not_mem_spacesInt _ hm
    · exact absurd hm (by decide)
  have hln : physicalLines ts = (own ++ others).map String.toList ++ [(spacesInt (ind + 1) ++ "*/").toList] := by
    rw [physicalLines,ht,← physicalLines,physicalLines_intersperse (by simp) ?_,map_append]
    · rfl
    · simp only [forall_mem_append,forall_mem_singleton]
      exact ⟨⟨fun line hl => (hon line hl).2,fun line hl => (ho line hl).2⟩,hc⟩
  obtain ⟨line,own,rfl⟩ := exists_cons_of_ne_nil hne
  obtain ⟨hl,hmr⟩ := forall_mem_cons.mp hon
  rw [IsLed,hln]
  constructor
  · rintro ⟨first,between,hsm,-,hb⟩ hlg
    obtain ⟨second,own,rfl⟩ := exists_cons_of_ne_nil (show own ≠ [] by rintro rfl; simp at hlg)
    obtain ⟨rfl,ha⟩ := cons.inj hsm
    obtain rfl := append_cancel_right ha
    exact not_both_leaders ind (hmr second mem_cons_self).1 (hb _ (by simp))
  · intro hs
    obtain rfl : own = [] := by
      cases own with
      | nil => rfl
      | cons second own => exact absurd (by simp) hs
    refine ⟨line.toList,others.map String.toList,rfl,hl.1,fun cs hcs => ?_⟩
    obtain ⟨other,hoh,rfl⟩ := mem_map.mp hcs
    exact (ho other hoh).1

lemma leader_opening (ind : Int) : leader .plain ind true = spacesInt ind ++ "/** " := by
  show spacesInt ind ++ "/**" ++ " " = _
  rw [String.append_assoc]
  rfl

def FirstWraps (width indent : Int) (lines : List Element) : Prop :=
  ∃ e es, lines = e :: es ∧ Wraps width .plain (leader .plain indent true) e

lemma writeComment_plain {d : Edition} {wd : Option Int} {comment : Element} {ind : Int}
  (hs : standing d comment = .ok (.plain,ind)) (e : Element) (es : List Element)
  (ha : (writeLinesFrom wd .plain (leader .plain ind false) (leader .plain ind true) (e :: es)
    none).fault = none) : (writeComment d wd comment (.ofList (e :: es))).fault = none ∧
    (writeComment d wd comment (.ofList (e :: es))).texts =
      (writeLinesFrom wd .plain (leader .plain ind false) (leader .plain ind true) (e :: es) none).texts ++
        ["\n",spacesInt (ind + 1),"*/"] := by
  rw [writeComment_eq hs]
  dsimp only [Stream.ofList]
  rw [ha]
  exact ⟨rfl,rfl⟩

theorem comment_led_iff {comment : Element} {indent : Int}
    (hstand : standing .final comment = .ok (.plain, indent))
    {tree : Element} (htree : Prose tree) {indentWidth : Int} (hindent : 0 ≤ indentWidth) :
    ∃ made lines, (pieces .final indentWidth tree).toExcept = .ok made ∧
      (logicalLines .final (.ofList made)).toExcept = .ok lines ∧
      ∀ width : Int, (∀ e es, lines = e :: es → HasRoom width .plain (leader .plain indent true) e ∧
          ∀ x ∈ es, HasRoom width .plain (leader .plain indent false) x) →
        (writeComment .final (some width) comment (.ofList lines)).fault = none ∧
        (IsLed indent (writeComment .final (some width) comment (.ofList lines)).texts ↔
          ¬ FirstWraps width indent lines) := by
  obtain ⟨made, lines, hmade, hlaid, hlines⟩ := htree.lines hindent
  refine ⟨made, lines, hmade, hlaid, fun width hrooms => ?_⟩
  rcases hlines with rfl | ⟨front, last, rfl, hfront, hlast⟩
  · have hnone : ¬ FirstWraps width indent [] := by
      rintro ⟨e, es, hnil, -⟩
      cases hnil
    have hopened : LedBy (spacesInt indent ++ "/** ") [spacesInt indent ++ "/** "] := by
      refine forall_mem_singleton.mpr ⟨prefix_refl _, ?_⟩
      rw [← leader_opening]
      exact (isLeader_opening indent).oneLine
    have hled : IsLed indent [leader .plain indent true, "\n", spacesInt (indent + 1), "*/"] := by
      refine (isLed_iff (cons_ne_nil _ _) hopened (forall_mem_nil _) ?_).mpr (by simp)
      rw [leader_opening]
      simp [String.join_cons]
    rw [writeComment, hstand]
    exact ⟨rfl, iff_of_true hled hnone⟩
  · obtain ⟨e, es, hes⟩ := exists_cons_of_ne_nil (show front ++ [last] ≠ [] by simp)
    obtain ⟨hroom, hothers⟩ := hrooms e es hes
    have hopening : IsLeader (leader .plain indent true) := isLeader_opening indent
    have hnext : IsLeader (leader .plain indent false) := isLeader_next (indent + 1)
    obtain ⟨hall, own, others, hne, howned, hled, hwraps, htexts⟩ :=
      writeLinesFrom_led hfront hlast hopening hnext hes hroom hothers
    rw [hes]
    obtain ⟨hfault, hwritten⟩ := writeComment_plain hstand e es hall
    have hjoined : String.join (writeComment .final (some width) comment (.ofList (e :: es))).texts =
        String.join ((own ++ others ++ [spacesInt (indent + 1) ++ "*/"]).intersperse "\n") := by
      rw [hwritten, ← join_intersperse_append (by simp [hne]) (by simp), String.join_append, String.join_append,
        htexts]
      simp [String.join_cons]
    rw [leader_opening] at howned
    refine ⟨hfault, (isLed_iff hne howned hled hjoined).trans (not_congr (hwraps.trans ⟨?_, ?_⟩))⟩
    · exact fun hfirst => ⟨e, es, rfl, hfirst⟩
    · rintro ⟨e', es', hsame, hfirst⟩
      obtain ⟨rfl, -⟩ := cons.inj hsame
      exact hfirst

def columnsTree : Element :=
  blockOf "markdown" [] ([blockOf "header" [("level","1"),("newlines","1")] [spanOf "Width"],
      blockOf "paragraph" [("newlines","2")] [spanOf "The width is counted in columns, tabs included."]] ++
    [blockOf "list" [("newlines","2"),("ordered","True")]
      ([blockOf "list_item" [("newlines","1")] [spanOf "none"]] ++ [blockOf "list_item" [("newlines","1")] []])])

lemma prose_columnsTree : Prose columnsTree := by
  refine ⟨fun e he => ?_,.inr (.last rfl (.member rfl ?_ rfl rfl))⟩
  · revert e
    decide +kernel
  · decide +kernel

theorem comment_led_at_columns : standing .final marginComment = .ok (.plain, 0) ∧
    Prose columnsTree ∧ ∃ made lines, (pieces .final 4 columnsTree).toExcept = .ok made ∧
      (logicalLines .final (.ofList made)).toExcept = .ok lines ∧
      IsLed 0 (writeComment .final (some 24) marginComment (.ofList lines)).texts := by
  have hstand : standing .final marginComment = .ok (.plain, 0) := ok_of_toOption (by decide +kernel)
  refine ⟨hstand, prose_columnsTree, ?_⟩
  obtain ⟨made, lines, hmade, hlaid, hwidths⟩ :=
    comment_led_iff hstand prose_columnsTree (by decide : (0 : Int) ≤ 4)
  refine ⟨made, lines, hmade, hlaid, ?_⟩
  have hlines : lines = (logicalLines .final (.ofList (pieces .final 4 columnsTree).items)).items := by
    rw [items_of_toExcept hmade, items_of_toExcept hlaid]
  have hfirst : ∀ e ∈ lines.head?, HasRoom 24 .plain (leader .plain 0 true) e ∧
      ¬ Wraps 24 .plain (leader .plain 0 true) e := by
    rw [hlines]
    decide +kernel
  have hothers : ∀ e ∈ lines.tail, HasRoom 24 .plain (leader .plain 0 false) e := by
    rw [hlines]
    decide +kernel
  refine (hwidths 24 fun e es hes => ?_).2.mpr ?_
  · rw [hes] at hfirst hothers
    exact ⟨(hfirst e rfl).1, hothers⟩
  · rintro ⟨e, es, hes, hwraps⟩
    rw [hes] at hfirst
    exact (hfirst e rfl).2 hwraps

def wordsTree : Element :=
  blockOf "markdown" [] ([] ++ [blockOf "paragraph" [("newlines","2")] ([] ++ [spanOf "a b"])])

theorem opening_repeats_when_wrapped :
    standing .final marginComment = .ok (.plain, 0) ∧ Prose wordsTree ∧
    (∀ e ∈ (logicalLines .final (pieces .final 4 wordsTree)).items,
      HasRoom 6 .plain (leader .plain 0 true) e) ∧
    (writeComment .final (some 6) marginComment
      (logicalLines .final (pieces .final 4 wordsTree))).texts =
      ["/** a", "\n", "/** b", "\n", " ", "*/"] ∧
      ¬ IsLed 0 ["/** a", "\n", "/** b", "\n", " ", "*/"] := by
  have hprosaic : Throughout Prosaic wordsTree := by
    intro e
    revert e
    decide +kernel
  refine ⟨ok_of_toOption (by decide +kernel), ⟨hprosaic, .inr (.last rfl (.last rfl (.text rfl rfl)))⟩,
    by decide +kernel, by decide +kernel, ?_⟩
  rintro ⟨first, between, hlines, -, hbetween⟩
  have hphysical : physicalLines ["/** a", "\n", "/** b", "\n", " ", "*/"] =
      "/** a".toList :: (["/** b".toList] ++ [(spacesInt (0 + 1) ++ "*/").toList]) := by
    decide +kernel
  obtain ⟨-, hafter⟩ := cons.inj (hphysical.symm.trans hlines)
  obtain rfl := append_cancel_right hafter
  exact absurd (hbetween _ mem_cons_self) (by decide +kernel)

end

end Docweave.Tree
