import Docweave.Proofs.Trees.LiftingOrder

namespace Docweave.Tree

open List hiding tail
open Element

section

variable {tagRemove countName : String} {e e' : Element}

def countsOne (countName : String) (e : Element) : Bool := e.value? countName == some (.text "1")

def singleRound (tagRemove countName : String) : Element → Option (Except Fault Element) :=
  belowRound (countsOne countName) (liftSingle tagRemove countName)

lemma size_eq (e : Element) : e.size = 1 + sizes e.children := by
  cases e
  rfl

lemma size_child {c : Element} (hc : c ∈ e.children) : c.size < e.size := by
  have hs (es : List Element) (hc : c ∈ es) : c.size ≤ sizes es := by
    induction es with
    | nil => cases hc
    | cons d es ih =>
      rcases mem_cons.mp hc with rfl | hc
      · exact Nat.le_add_right _ _
      · exact (ih hc).trans (Nat.le_add_left _ _)
  rw [size_eq e]
  have := hs e.children hc
  omega

lemma liftSingle_idle (h : countsOne countName e = false) : liftSingle tagRemove countName e = .ok e := by
  have hne : e.value? countName ≠ some (.text "1") := by simpa [countsOne] using h
  rw [liftSingle,if_pos hne]
  rfl

lemma liftSingle_done (h : countsOne countName e) (he' : liftSingle tagRemove countName e = .ok e') :
  countsOne countName e' = false ∧ e'.size ≤ e.size := by
  have ho : e.value? countName = some (.text "1") := by simpa [countsOne] using h
  have hs {text : String} (hne : text ≠ "1") (es : List Element) :
      countsOne countName { e.set countName text with children := es } = false := by
    have hv : ({ e.set countName text with children := es } : Element).value? countName = some (.text text) :=
      value?_set e countName text
    rw [countsOne,hv]
    simpa using hne
  rw [liftSingle,if_neg (not_not.mpr ho)] at he'
  cases hk : e.children with
  | nil =>
    rw [hk] at he'
    cases he'
    exact ⟨hs (by decide) e.children,by rw [size_eq e]; rfl⟩
  | cons child rest =>
    cases rest with
    | cons second rest =>
      rw [hk] at he'
      obtain ⟨_,-,he'⟩ := bind_ok he'
      cases he'
    | nil =>
      rw [hk] at he'
      dsimp only at he'
      split at he'
      · obtain ⟨_,-,he'⟩ := bind_ok he'
        cases he'
      cases hi : child.children with
      | nil =>
        rw [hi] at he'
        cases he'
      | cons first others =>
        rw [hi] at he'
        cases he'
        refine ⟨hs (by decide) _,?_⟩
        have hf : (first.set "liftedSingle" (isTrue true)).size = first.size := by rw [size_eq first]; rfl
        rw [size_eq,size_eq e,hk,sizes,sizes,size_eq child,hi]
        simp only [sizes]
        omega

lemma ends_changeDown {n : Nat} {c : Element} (hn : c.size ≤ n) :
  Ends (selfRound (countsOne countName) (liftSingle tagRemove countName)) c
    (changeDown (liftSingle tagRemove countName) n c) := by
  induction n generalizing c with
  | zero =>
    rw [size_eq] at hn
    omega
  | succ n ih =>
    have hb {x : Element} (hx : countsOne countName x = false) (hs : x.size ≤ n + 1) :
        Ends (selfRound (countsOne countName) (liftSingle tagRemove countName)) x (do
          return { x with children := ← x.children.mapM (changeDown (liftSingle tagRemove countName) n) }) := by
      refine ends_children (fun es => ?_) fun c hc => ih ?_
      · rw [selfRound_eq]
        exact if_neg (ne_true_of_eq_false hx)
      · have := size_child hc
        omega
    rw [changeDown]
    cases hc : countsOne countName c with
    | false =>
      rw [liftSingle_idle hc]
      exact hb hc hn
    | true =>
      have hr := (selfRound_eq (countsOne countName) (liftSingle tagRemove countName) c).trans (if_pos hc)
      cases hl : liftSingle tagRemove countName c with
      | error fault => exact .fault (hl ▸ hr)
      | ok c' =>
        obtain ⟨hd,hs⟩ := liftSingle_done hc hl
        exact .next (hl ▸ hr) (hb hd (hs.trans hn))

lemma ends_liftSingles (tagRemove countName : String) (e : Element) :
  Ends (singleRound tagRemove countName) e (liftSingles tagRemove countName e) :=
  ends_children (fun _ => rfl) fun _ hc => ends_changeDown (Nat.le_of_lt (size_child hc))

end

section

variable {ms : Bool} {e e' g g' p r x c : Element} {i j : Nat} {addr : Address}
  {cl op ps : List Element}

def HoldsLine (e : Element) : Prop := e.tag ∈ ["paragraph","header"] ∨ e.attribute? "layout" = some "span"

structure MarkdownShape (e : Element) : Prop extends LiftShape e where
  member : Throughout (fun x => x.tag = "list_item" → x.attribute? "layout" = none ∧ x.has "resolved" = false) e
  line : Throughout (fun x => HoldsLine x → ∀ c ∈ x.children, InLine c) e

structure Lawful (e : Element) : Prop where
  block : e.tag ∈ "list_item" :: blockTags → e.attribute? "layout" = none ∧ e.has "resolved" = false
  line : HoldsLine e → ∀ c ∈ e.children, InLine c ∨ IsMarker c
  leaf : IsMarker e → e.children = []

lemma MarkdownShape.lawful (h : MarkdownShape e) : Throughout Lawful e := by
  intro x hx
  refine ⟨fun hb => ?_,fun hl c hc => .inl (h.line x hx hl c hc),fun hmk => ?_⟩
  · rcases mem_cons.mp hb with hm | hb
    · exact h.member x hx hm
    · exact (h.all x hx).block hb
  · exact absurd hmk.1 (h.all x hx).notMarker

lemma InLine.of_head (h : SameHead e e') (he : InLine e) : InLine e' := (LooksLike.of_sameHead h).inLine he

lemma IsMarker.of_head (h : SameHead e e') (he : IsMarker e) : IsMarker e' := by
  rwa [IsMarker,h.tag,h.attribute?]

lemma Lawful.of_heads (he : Lawful e) (h : SameHead e e')
  (hk : ∀ c' ∈ e'.children, ∃ c ∈ e.children, SameHead c c') : Lawful e' := by
  have hlk := LooksLike.of_sameHead h
  refine ⟨fun hb => ?_,fun hl c' hc' => ?_,fun hm => ?_⟩
  · rw [h.attribute?,hlk.has_resolved]
    exact he.block (h.tag ▸ hb)
  · obtain ⟨c,hc,hh⟩ := hk c' hc'
    rw [HoldsLine,h.tag,h.attribute?] at hl
    exact (he.line hl c hc).imp (.of_head hh) (.of_head hh)
  · rw [IsMarker,h.tag,h.attribute?] at hm
    rw [eq_nil_iff_forall_not_mem]
    intro c' hc'
    obtain ⟨c,hc,-⟩ := hk c' hc'
    rw [he.leaf hm] at hc
    cases hc

lemma throughout_modifyAt {Q : Element → Prop}
  (hQ : ∀ {e e'}, Q e → SameHead e e' → (∀ c' ∈ e'.children, ∃ c ∈ e.children, SameHead c c') → Q e')
  (he : Throughout Q e) (hat : e.at? addr = some g) (hh : SameHead g g') (hg' : Throughout Q g') :
  Throughout Q (e.modifyAt (fun _ => g') addr) ∧ SameHead e (e.modifyAt (fun _ => g') addr) := by
  induction addr generalizing e with
  | nil =>
    cases hat
    exact ⟨hg',hh⟩
  | cons i addr ih =>
    obtain ⟨c,hc,hat⟩ := at?_cons_iff.mp hat
    obtain ⟨hb,hs⟩ := ih (he.child (mem_of_getElem? hc)) hat
    have hk : ∀ y ∈ (e.modifyAt (fun _ => g') (i :: addr)).children,
        Throughout Q y ∧ ∃ x ∈ e.children, SameHead x y := by
      intro y hy
      rcases mem_modify hy with hy | ⟨d,hd,rfl⟩
      · exact ⟨he.child hy,y,hy,.refl y⟩
      · cases hc.symm.trans hd
        exact ⟨hb,c,mem_of_getElem? hc,hs⟩
    refine ⟨throughout_iff.mpr ⟨hQ (throughout_iff.mp he).1 ⟨rfl,rfl,rfl,rfl⟩ fun y hy => (hk y hy).2,
      fun y hy => (hk y hy).1⟩,rfl,rfl,rfl,rfl⟩

lemma canContain_false (h : canContain .final p c = .ok false) : p.tag ∈ "list_item" :: blockTags := by
  by_contra hp
  simp only [blockTags,mem_cons,not_or] at hp
  rw [canContain] at h
  simp only [hp] at h
  split at h
  · cases h
  · cases h

def MayStand (p c : Element) : Prop := Throughout Lawful c ∧ (HoldsLine p → InLine c ∨ IsMarker c)

lemma Lawful.mayStand (h : Throughout Lawful p) : ∀ c ∈ p.children, MayStand p c := fun c hc =>
  ⟨h.child hc,fun hl => (throughout_iff.mp h).1.line hl c hc⟩

lemma Lawful.refilled (hp : Lawful p) (hm : ¬ IsMarker p) (ht : x.tag = p.tag)
  (hv : ∀ name, name ≠ "liftedTree" → x.value? name = p.value? name)
  (hk : ∀ c ∈ x.children, MayStand p c) : Throughout Lawful x ∧ (InLine p → InLine x) := by
  have hl : x.attribute? "layout" = p.attribute? "layout" := by
    rw [attribute?,hv "layout" (by decide),attribute?]
  have hr : x.has "resolved" = p.has "resolved" := congrArg Option.isSome (hv "resolved" (by decide))
  refine ⟨throughout_iff.mpr ⟨⟨fun hb => ?_,fun hln c hc => (hk c hc).2 ?_,fun hx => ?_⟩,
    fun c hc => (hk c hc).1⟩,fun hi => ?_⟩
  · rw [hl,hr]
    exact hp.block (ht ▸ hb)
  · rwa [HoldsLine,ht,hl] at hln
  · rw [IsMarker,ht,hl] at hx
    exact absurd hx hm
  · rwa [InLine,hl,hr]

lemma MayStand.noted {loc : String} (h : MayStand p c) : MayStand p (noteLift .final loc c) := by
  obtain ⟨hlw,hln⟩ := h
  obtain ⟨hs,hb⟩ := throughout_iff.mp hlw
  have hl := LooksLike.noteLift loc c
  refine ⟨throughout_iff.mpr ⟨⟨fun hbl => ?_,fun hln => ?_,fun hm => ?_⟩,hb⟩,fun hp => ?_⟩
  · rw [hl.layout,hl.has_resolved]
    exact hs.block hbl
  · rw [HoldsLine,hl.layout] at hln
    exact hs.line hln
  · rw [IsMarker,hl.layout] at hm
    exact hs.leaf hm
  · rw [IsMarker,hl.layout]
    exact (hln hp).imp_left hl.inLine

lemma mayStand_marker (h : marksOf ms r = .ok (op,cl)) (hr : r.has "resolved") :
    ∀ m ∈ op ++ cl, MayStand p m := by
  obtain ⟨ho,hc⟩ := marks_marksOf h hr
  intro m hm
  obtain ⟨hl,-,hmk⟩ := forall_mem_append.mpr ⟨ho.leaf,hc.leaf⟩ m hm
  refine ⟨throughout_leaf ⟨fun hb => ?_,fun _ => ?_,fun _ => hl⟩ hl,fun _ => .inr hmk⟩
  · rw [hmk.1] at hb
    exact absurd hb (by decide)
  · rw [hl]
    exact forall_mem_nil _

lemma Parts.mayStand {pre stay go after : List Element} (h : Parts p pre op stay go cl after ps) (hp : Lawful p)
  (hmk : ¬ IsMarker p) (hi : HoldsLine g → InLine p) (hrs : ∀ c ∈ pre ++ after, MayStand p c)
  (hm : ∀ q, ∀ m ∈ op ++ cl, MayStand q m) (hs : ∀ c ∈ stay, MayStand p c) (hgo : ∀ c ∈ go, MayStand g c) :
  ∀ x ∈ ps, MayStand g x := by
  intro x hx
  rcases h.mem hx with ⟨es,hx,hes⟩ | hx | hx
  · have hk : ∀ c ∈ es, MayStand p c := fun c hc =>
      (hes c hc).elim (hrs c) fun hc => hc.elim (hm p c) (hs c)
    have hr : Throughout Lawful x ∧ (InLine p → InLine x) := by
      rcases hx with rfl | rfl
      · exact hp.refilled hmk rfl (fun _ _ => rfl) hk
      · exact hp.refilled hmk (tag_tailOf p) (fun _ hn => value?_tailOf p hn) hk
    exact ⟨hr.1,fun hl => .inl (hr.2 (hi hl))⟩
  · exact hm g x hx
  · exact hgo x hx

lemma inLine_of_canContain {es : List Element} (hp : Lawful p) (hl : HoldsLine p)
  (hk : (∀ c ∈ es, InLine c) ∨ ∀ c ∈ es, InBlock c) (hc : c ∈ es) (h : canContain .final p c = .ok true) :
  InLine c := by
  refine hk.elim (fun hk => hk c hc) fun hk => ?_
  have hm : p.tag = "list_item" := of_decide_eq_true (canContain_inBlock (hk c hc) h).symm
  rcases hl with hl | hl
  · rw [hm] at hl
    exact absurd hl (by decide)
  · rw [(hp.block (hm ▸ mem_cons_self)).1] at hl
    cases hl

lemma canContain_inside_line (hp : Lawful p) (hi : InLine p) (hpr : p.has "resolved" = false) :
  canContain .final p c ≠ .ok false := by
  intro h
  obtain ⟨hl,-⟩ := hp.block (canContain_false h)
  rcases hi with hs | hr
  · rw [hl] at hs
    cases hs
  · rw [hpr] at hr
    cases hr

lemma lawful_liftReference (hg : Throughout Lawful g) (hsn : Throughout Sound g) (hi : g.children[i]? = some p)
  (hpr : p.has "resolved" = false) (hj : p.children[j]? = some r) (hr : r.has "resolved")
  (h : liftReference .final ms i j g = .ok g') : SameHead g g' ∧ Throughout Lawful g' := by
  obtain ⟨op,cl,stay,go,hmr,hcn,rfl⟩ := liftReference_placed hi hj h
  obtain ⟨ha,hst,hgo⟩ := spanContained_spec hcn
  have hp : Throughout Lawful p := hg.child (mem_of_getElem? hi)
  have hrf : Throughout Lawful r := hp.child (mem_of_getElem? hj)
  obtain ⟨hs,-⟩ := throughout_iff.mp hp
  have hm : ¬ IsMarker p := by
    intro hm
    rw [hs.leaf hm] at hj
    cases hj
  have hin (hl : HoldsLine g) : InLine p :=
    ((throughout_iff.mp hg).1.line hl p (mem_of_getElem? hi)).resolve_right hm
  have hkn := ((throughout_iff.mp ((hsn.child (mem_of_getElem? hi)).child (mem_of_getElem? hj))).1.kinds hr).2
  have hmd := (parts_placed p j op cl stay go).mayStand hs hm hin (fun c hc => ?_)
    (fun _ => mayStand_marker hmr hr) (fun c hc => ?_) fun c hc => ?_
  · have hk : ∀ c ∈ g.children.take i ++ placed p j op cl stay go ++ g.children.drop (i + 1),
        MayStand g c := by
      simp only [forall_mem_append]
      exact ⟨⟨fun c hc => Lawful.mayStand hg c (mem_of_mem_take hc),hmd⟩,
        fun c hc => Lawful.mayStand hg c (mem_of_mem_drop hc)⟩
    obtain ⟨hb,-,hlf⟩ := (throughout_iff.mp hg).1
    refine ⟨⟨rfl,rfl,rfl,rfl⟩,throughout_iff.mpr ⟨⟨hb,fun hl c hc => (hk c hc).2 hl,fun hx => ?_⟩,
      fun c hc => (hk c hc).1⟩⟩
    have hn : g.children = [] := hlf hx
    rw [hn] at hi
    cases hi
  · exact Lawful.mayStand hp c ((mem_append.mp hc).elim mem_of_mem_take mem_of_mem_drop)
  · obtain ⟨d,hd,rfl⟩ := mem_map.mp hc
    have hmm : d ∈ r.children := ha ▸ mem_append_left go hd
    exact MayStand.noted ⟨hrf.child hmm,fun hl =>
      .inl (inLine_of_canContain hs hl hkn hmm (hst d hd))⟩
  · obtain ⟨d,hd,rfl⟩ := mem_map.mp hc
    refine MayStand.noted ⟨hrf.child (ha ▸ mem_append_right stay hd),fun hl => ?_⟩
    obtain ⟨c,-,hc⟩ := hgo (ne_nil_of_mem hd)
    exact absurd hc (canContain_inside_line hs (hin hl) hpr)

end

section

variable {ms : Bool} {e e' x y : Element}

structure MidLift (e : Element) : Prop where
  rooted : Rooted e
  sound : Throughout Sound e
  lawful : Throughout Lawful e

lemma MarkdownShape.midLift (h : MarkdownShape e) : MidLift e := ⟨h.rooted,h.sound,h.lawful⟩

lemma MidLift.next (he : MidLift e) (h : liftRound ms e = some (.ok e')) : MidLift e' := by
  have ho := liftsOne_round he.rooted he.sound h
  obtain ⟨addr,i,j,hf,g,p,r,g',hg,hi,hp,hj,hr,-,hlf,rfl⟩ := grandchildRound_ok h
  obtain ⟨hh,hl⟩ := lawful_liftReference (he.lawful.at hg) (he.sound.at hg) hi
    (he.rooted.above hf prefix_rfl hp) hj hr hlf
  exact ⟨he.rooted.next ho,ho.sound,(throughout_modifyAt (fun h => h.of_heads) he.lawful hg hh hl).1⟩

lemma MidLift.lifted (he : MidLift e) (h : Ends (liftRound ms) e (.ok e')) :
  Throughout Lawful e' ∧ Throughout (fun x => x.has "resolved" = false) e' := by
  have hen : MidLift e' := h.keeps (fun _ _ hr hs => hs.next hr) he e' rfl
  exact ⟨hen.lawful,hen.rooted.of_none (Option.map_eq_none_iff.mp h.no_round)⟩

lemma below_line (hlw : Throughout Lawful x) (hl : Throughout (fun x => x.has "resolved" = false) x)
  (hln : HoldsLine x) : ∀ y ∈ x.descendants, y.attribute? "layout" = some "span" ∨ IsMarker y := by
  induction x using byChildren with
  | step x ih =>
    obtain ⟨hs,hb⟩ := throughout_iff.mp hlw
    rw [descendants_eq]
    intro y hy
    obtain ⟨c,hc,hy⟩ := mem_flatMap.mp hy
    have hl := hl.child hc
    have hch : c.attribute? "layout" = some "span" ∨ IsMarker c := by
      refine (hs.line hln c hc).imp_left fun hi => hi.resolve_right ?_
      exact ne_true_of_eq_false (throughout_iff.mp hl).1
    rcases mem_cons.mp hy with rfl | hy
    · exact hch
    · rcases hch with hsp | hm
      · exact ih c hc (hb c hc) hl (.inr hsp) y hy
      · rw [descendants_of_leaf ((throughout_iff.mp (hb c hc)).1.leaf hm)] at hy
        cases hy

lemma not_nested (hl : Throughout Lawful e)
    (hlf : Throughout (fun x => x.has "resolved" = false) e) : ¬ Nested e := by
  have he : e.select [.below "paragraph",.below "paragraph"] = [] := by
    rw [eq_nil_iff_forall_not_mem]
    rintro ⟨below,y⟩ hy
    simp only [select,foldl_cons,foldl_nil,Step.take,flatMap_cons,flatMap_nil,append_nil,
      mem_flatMap,mem_filter,nodesBelow,beq_iff_eq] at hy
    obtain ⟨⟨addr,x⟩,⟨hx,hp⟩,hy,hi⟩ := hy
    have hb : y ∈ x.descendants := by
      rw [descendants_eq,← map_snd_forest addr 0]
      exact mem_map_of_mem hy
    obtain ⟨i,rest,c,-,hc,hat⟩ := (mem_forest_iff _ _ _ _ _).mp hx
    have hx := (hl.child (mem_of_getElem? hc)).at hat
    have hln : HoldsLine x := .inl (hp ▸ mem_cons_self)
    rcases below_line hx ((hlf.child (mem_of_getElem? hc)).at hat) hln y hb with hs | hm
    · have hbl := (hx y (mem_cons_of_mem _ hb)).block (hi ▸ by decide)
      rw [hbl.1] at hs
      cases hs
    · exact absurd (hm.1.symm.trans hi) (by decide)
  rw [Nested,first?,he]
  decide

end

section

def Faults {α : Type} (P : Fault → Prop) (a : Except Fault α) : Prop := ∀ fault, a = .error fault → P fault

variable {α β : Type} {P : Fault → Prop} {ms : Bool} {e : Element}

lemma faults_ok (x : α) : Faults P (.ok x) := nofun

lemma faults_error {fault : Fault} (h : P fault) : Faults P (.error fault : Except Fault α) := by
  intro fault' h'
  obtain rfl := Except.error.inj h'
  exact h

lemma Faults.bind {a : Except Fault α} {f : α → Except Fault β} (ha : Faults P a) (hf : ∀ x, Faults P (f x)) :
  Faults P (a >>= f) := by
  cases a with
  | error fault => exact faults_error (ha fault rfl)
  | ok x => exact hf x

def OfLifting (fault : Fault) : Prop :=
  fault = .missing "attribute" ∨ ∃ parent child, fault = .cannotPlace parent child

lemma faults_attributesXml (l : List (String × Value)) : Faults OfLifting (attributesXml l) := by
  induction l with
  | nil => exact faults_ok _
  | cons a l ih =>
    obtain ⟨name,v⟩ := a
    refine Faults.bind ?_ fun value => ih.bind fun rest => faults_ok _
    cases v with
    | missing => exact faults_error (.inl rfl)
    | text s => exact faults_ok _
    | names ns => exact faults_ok _

mutual

lemma faults_xml : ∀ e : Element, Faults OfLifting e.xml
  | ⟨tag,attrs,text,tail,children⟩ => by
    exact (faults_attributesXml attrs).bind fun _ => (faults_xmlEach children).bind fun _ => faults_ok _

lemma faults_xmlEach : ∀ es : List Element, Faults OfLifting (xmlEach es)
  | [] => faults_ok _
  | e :: es => by
    exact (faults_xml e).bind fun _ => (faults_xmlEach es).bind fun _ => faults_ok _

end

lemma faults_canContain (p c : Element) : Faults OfLifting (canContain .final p c) := by
  rw [canContain]
  split_ifs
  case neg => exact faults_error (.inr ⟨_,_,rfl⟩)
  all_goals exact faults_ok _

lemma faults_spanContained (p : Element) (es : List Element) : Faults OfLifting (spanContained .final p es) := by
  induction es with
  | nil => exact faults_ok _
  | cons c es ih =>
    refine (faults_canContain p c).bind fun b => ?_
    cases b with
    | true => exact ih.bind fun _ => faults_ok _
    | false => exact faults_ok _

lemma faults_liftReference (ms : Bool) (i j : Nat) (g : Element) :
  Faults OfLifting (liftReference .final ms i j g) := by
  have hm (r : Element) : Faults OfLifting (marksOf ms r) := by
    cases ms with
    | false => exact faults_ok _
    | true =>
      refine Faults.bind ?_ fun _ => faults_ok _
      exact (faults_ok _).bind fun _ => (faults_xml _).bind fun _ => faults_ok _
  cases hi : g.children[i]? with
  | none =>
    rw [liftReference,hi]
    exact faults_ok _
  | some p =>
    cases hj : p.children[j]? with
    | none =>
      rw [liftReference,hi]
      dsimp only
      rw [hj]
      exact faults_ok _
    | some r =>
      rw [liftReference_eq hi hj]
      exact (hm r).bind fun _ => (faults_spanContained p r.children).bind fun _ => faults_ok _

lemma Ends.faults {res : Except Fault Element} (h : Ends (liftRound ms) e res) : Faults OfLifting res := by
  induction h with
  | done => exact faults_ok _
  | next _ _ ih => exact ih
  | @fault e fault h =>
    obtain ⟨⟨addr,i,j⟩,-,hc⟩ := Option.map_eq_some_iff.mp h
    rw [← hc,changeAt]
    split
    · exact faults_ok _
    · exact (faults_liftReference ms i j _).bind fun _ => faults_ok _

end

section

open Markup (make)

variable {marks : Bool} {e e' : Element}

def refuseNested (e : Element) : Except Fault Element := do
  match e.first? [.below "paragraph",.below "paragraph"] with
  | some found => throw (.nestedParagraph (← found.xml) (← e.xml))
  | none => return e

lemma refuseNested_ok (h : ¬ Nested e) : refuseNested e = .ok e := by
  rw [refuseNested,Option.not_isSome_iff_eq_none.mp h]
  rfl

theorem lifting_ends_lawfully (marks : Bool) (tagRemove countName : String) (e : Element) :
    (∀ result, Ends (singleRound tagRemove countName) e result ↔
      result = liftSingles tagRemove countName e) ∧
    (∃ lifted, (∀ result, Ends (liftRound marks) e result ↔ result = lifted) ∧
      liftTrees .final marks e = lifted >>= refuseNested) ∧ (MarkdownShape e →
      (∀ found whole, liftTrees .final marks e ≠ .error (.nestedParagraph found whole)) ∧
      ∀ e', liftTrees .final marks e = .ok e' → Throughout (fun x => x.has "resolved" = false) e' ∧
        Throughout (fun x => x.tag ∈ ["paragraph", "header"] →
          ∀ c ∈ x.children, c.attribute? "layout" = some "span" ∨ IsMarker c) e') := by
  have hends := (consumes_liftReference marks).ends_size e
  have htrees : liftTrees .final marks e =
      onGrandchildren Edition.final.isReference (liftReference .final marks)
        (e.size + 1) e >>= refuseNested := rfl
  refine ⟨ends_iff (ends_liftSingles tagRemove countName e), ⟨_, ends_iff hends, htrees⟩, fun hshape => ?_⟩
  rw [htrees]
  generalize onGrandchildren Edition.final.isReference (liftReference .final marks) (e.size + 1) e =
    lifted at hends
  cases lifted with
  | error fault =>
    refine ⟨fun found whole h => ?_, nofun⟩
    obtain rfl := Except.error.inj h
    rcases hends.faults _ rfl with h | ⟨parent, child, h⟩ <;> cases h
  | ok lifted =>
    obtain ⟨hlawful, hresult⟩ := hshape.midLift.lifted hends
    rw [ok_bind, refuseNested_ok (not_nested hlawful hresult)]
    refine ⟨nofun, fun e' he' => ?_⟩
    obtain rfl := Except.ok.inj he'
    refine ⟨hresult, fun x hx hparagraph c hc => ?_⟩
    refine ((hlawful x hx).line (.inl hparagraph) c hc).imp_left fun hinline => hinline.resolve_right ?_
    exact ne_true_of_eq_false ((hresult.deep x hx).2 c hc)

instance (e : Element) : Decidable (HoldsLine e) := inferInstanceAs (Decidable (_ ∨ _))

instance (e : Element) : Decidable (MarkdownShape e) :=
  decidable_of_iff (LiftShape e ∧
    (∀ x ∈ e :: e.descendants, x.tag = "list_item" → x.attribute? "layout" = none ∧ x.has "resolved" = false) ∧
    ∀ x ∈ e :: e.descendants, HoldsLine x → ∀ c ∈ x.children, InLine c)
    ⟨fun h => ⟨h.1,h.2.1,h.2.2⟩,fun h => ⟨h.toLiftShape,h.member,h.line⟩⟩

def crowdedComment : Element :=
  let block (text : String) : Element := make "paragraph" [("newlines","2")] none [plainSpan text]
  make "comment" [] none [make "markdown" [] none
    [make "header" [("level","1"),("newlines","1")] none
      [plainSpan "one",resolvedTo "#two" [plainSpan "two",resolvedTo "#three" [block "three"]]],
      make "list" [("ordered","False"),("newlines","2")] none
        [make "list_item" [("setNewlines","paragraph")] none
        [resolvedTo "#four" [block "four",make "paragraph" [("newlines","2")] none
          [make "emphasis" [("wrap","*"),("layout","span")] none [resolvedTo "#five" [plainSpan "five"]],
            resolvedTo "#six" [block "six"],plainSpan "seven"]]]]]]

theorem lifting_ends_lawfully_at_crowded : MarkdownShape crowdedComment ∧
    ∃ e', liftTrees .final true crowdedComment = .ok e' ∧
      Throughout (fun x => x.has "resolved" = false) e' ∧
      Throughout (fun x => x.tag ∈ ["paragraph", "header"] →
        ∀ c ∈ x.children, c.attribute? "layout" = some "span" ∨ IsMarker c) e' := by
  have hshape : MarkdownShape crowdedComment := by decide +kernel
  obtain ⟨e', he'⟩ : ∃ e', (liftTrees .final true crowdedComment).toOption = some e' :=
    Option.isSome_iff_exists.mp (by decide +kernel)
  obtain ⟨-, -, hlawful⟩ := lifting_ends_lawfully true "paragraph" "contentLines" crowdedComment
  exact ⟨hshape, e', ok_of_toOption he', (hlawful hshape).2 e' (ok_of_toOption he')⟩

end

end Docweave.Tree
