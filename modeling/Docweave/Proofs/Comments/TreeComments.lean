import Docweave.Proofs.Comments.TreeReading

namespace Docweave.Tree

open Comment Element List
open String (ofList join append_empty ofList_append)

variable {s : Strip} {e : Element} {es : List Element} {r : Remark} {n k : Nat} {allLed : Bool}
  {ss : List Strip} {p : Passage}

structure IsComment (r : Remark) (e : Element) : Prop where
  tag : e.tag = "comment"
  first : e.attribute? "lineFirst" = some (toString r.number)
  text : e.text = none
  lines : ∃ es, e.children = [{ tag := "lines", children := es }] ∧ Forall₂ IsStrip r.strips es

def IsGathered : Passage → Element → Prop
  | .code n cs, e => IsLine n cs e
  | .comment r, e => IsComment r e

lemma IsStrip.tail (h : IsStrip s e) : e.tail = none := by
  cases s with
  | code n cs => exact IsLine.tail h
  | start n m => exact IsPart.tail h
  | middle n m => exact IsPart.tail h
  | finish n i => exact IsPart.tail h

lemma gatherFrom_pending (comment : Element) (ls : List Element)
  (h : ∀ e ∈ es, e.value? "part" = some (.text "continue")) (rest : List Element) :
  gatherFrom {} (some (comment,ls)) (es ++ rest) = gatherFrom {} (some (comment,ls ++ es)) rest := by
  induction es generalizing ls with
  | nil => rw [nil_append,append_nil]
  | cons e es ih =>
    have he : (some "part").bind e.value? = some (.text "continue") := h e mem_cons_self
    rw [cons_append,gatherFrom]
    simp only [he,Option.getD_some]
    rw [if_neg (by decide),ih _ fun e' he' => h e' (mem_cons_of_mem _ he'),append_assoc,singleton_append]

lemma isComment_closeComment (he : IsPart r.number "start" (stripChildren (.start r.number r.mark)) e)
  (hes : Forall₂ IsStrip r.strips es) : IsComment r (closeComment {} (openComment {} e) es) := by
  obtain ⟨htg,ht,-,-⟩ := copyAttributes_fields ["source"] e
    (({ tag := "comment" } : Element).set? "lineFirst" (e.attribute? "number"))
  refine ⟨htg,?_,ht,es,rfl,hes⟩
  have hn : e.attribute? "number" = some (toString r.number) := by
    rw [attribute?,he.number]
  have hs : (({ tag := "comment" } : Element).set? "lineFirst" (some (toString r.number))).value?
      "lineFirst" = some (.text (toString r.number)) := value?_setValue _ _ (by simp)
  have hf : (openComment {} e).value? "lineFirst" = some (.text (toString r.number)) := by
    simp only [openComment,hn,copyAttributes,foldl_cons,foldl_nil]
    cases e.value? "source" with
    | none => exact hs
    | some v => rw [value?_setValue_ne _ (by decide),hs]
  have hv : (closeComment {} (openComment {} e) es).value? "lineFirst" =
    (openComment {} e).value? "lineFirst" := rfl
  rw [attribute?,hv,hf]

lemma gatherFrom_comment (h : Forall₂ IsStrip r.strips es) (rest : List Element)
    (hr : r.finish.isSome ∨ rest = []) :
  ∃ e, gatherFrom {} none (es ++ rest) = e :: gatherFrom {} none rest ∧ IsComment r e := by
  obtain ⟨e,es',he,hes',rfl⟩ := forall₂_cons_left_iff.mp h
  obtain ⟨ms,fs,rfl,hms,hfs⟩ := forall₂_split hes'
  refine ⟨closeComment {} (openComment {} e) (e :: (ms ++ fs)),?_,isComment_closeComment he h⟩
  have hs : (some "part").bind e.value? = some (.text "start") := IsPart.part he
  have hm : ∀ e' ∈ ms, e'.value? "part" = some (.text "continue") := by
    rw [forall₂_map_left_iff] at hms
    intro e' he'
    obtain ⟨p,-,hp⟩ := forall₂_mem_right hms he'
    exact IsPart.part hp
  rw [cons_append,gatherFrom]
  simp only [hs]
  rw [append_assoc,gatherFrom_pending _ _ hm]
  cases hf : r.finish with
  | none =>
    simp only [hf,Option.map_none,Option.toList_none,forall₂_nil_left_iff] at hfs
    obtain rfl : rest = [] := by simpa [hf] using hr
    simp [hfs,gatherFrom]
  | some p =>
    simp only [hf] at hfs
    obtain ⟨f,fs',hfn,hn,rfl⟩ := forall₂_cons_left_iff.mp hfs
    obtain rfl := forall₂_nil_left_iff.mp hn
    have hpr : (some "part").bind f.value? = some (.text "finish") := IsPart.part hfn
    simp only [singleton_append]
    rw [gatherFrom]
    simp [hpr]

lemma isGathered_gatherComments {ps : List Passage} (hps : Composed ps)
  (h : Forall₂ IsStrip (ps.flatMap Passage.strips) es) : Forall₂ IsGathered ps (gatherComments {} es) := by
  rw [gatherComments]
  induction ps generalizing es with
  | nil =>
    obtain rfl := forall₂_nil_left_iff.mp h
    exact .nil
  | cons p ps ih =>
    obtain ⟨es1,es2,rfl,h1,h2⟩ := forall₂_split h
    cases p with
    | code n cs =>
      obtain ⟨e,es',he,hn,rfl⟩ := forall₂_cons_left_iff.mp h1
      obtain rfl := forall₂_nil_left_iff.mp hn
      have hp : (some "part").bind e.value? = none := IsLine.part he
      rw [singleton_append,gatherFrom]
      simp only [hp]
      exact .cons he (ih hps.2 h2)
    | comment r =>
      have hr : r.finish.isSome = true ∨ es2 = [] := by
        refine hps.1.imp_right fun hn => ?_
        rw [hn] at h2
        exact forall₂_nil_left_iff.mp h2
      obtain ⟨e,hg,he⟩ := gatherFrom_comment h1 es2 hr
      rw [hg]
      exact .cons he (ih hps.2 h2)

def settledChildren (k : Nat) (allLed : Bool) : Strip → List Element
  | .middle n m =>
    if allLed then stripChildren (.middle n m)
    else
      [leaf "indent" (replicate (min m.indent (k + 1)) ' ') (indentTail m.leader),
        leaf "symbol" [] (symbolTail m.leader),
        marginLeaf [] (some (ofList (shuffledText k m))),endLeaf (lineEnd m.after)]
  | s => stripChildren s

def IsSettled (k : Nat) (allLed : Bool) (s : Strip) (e : Element) : Prop :=
  IsPart s.number (stripRole s) (settledChildren k allLed s) e

lemma textLength_leaf (tag : String) (cs : List Char) (tail : Option String) :
  textLength (leaf tag cs tail) = cs.length := by
  cases cs with
  | nil => rfl
  | cons c cs => simp [textLength,leaf,Nat.add_comm]

lemma joinedText_leaf (tag : String) (cs : List Char) (tail : Option String) :
  (leaf tag cs tail).joinedText = ofList cs := by
  rw [joinedText_eq]
  cases cs with
  | nil => rfl
  | cons c cs => simp [leaf,childrenText]

lemma IsPart.set {role : String} {children : List Element} (h : IsPart n role children e) {name : String}
  (hn : "number" ≠ name) (hp : "part" ≠ name) (he : "extract" ≠ name) (text : String) :
  IsPart n role children (e.set name text) :=
  ⟨h.tag,(value?_set_ne e hn text).trans h.number,(value?_set_ne e hp text).trans h.part,
    (value?_set_ne e he text).trans h.extract,h.text,h.tail,h.children⟩

lemma shuffleLine_ok {m : ContinueMark} (k : Nat) (h : IsStrip (.middle n m) e) :
  ∃ e', shuffleLine k e = .ok e' ∧ IsSettled k false (.middle n m) e' := by
  have hkd : e.children = stripChildren (.middle n m) := h.children
  have hc : ((leaf "indent" (replicate m.indent ' ') (indentTail m.leader)).text.getD "").toList
      = replicate m.indent ' ' := by
    cases hi : m.indent <;> simp [leaf]
  have hs := IsPart.set h (by decide : "number" ≠ "shuffles") (by decide) (by decide)
  simp only [shuffleLine,marks,hkd,stripChildren,continueLeaves,cons_append,nil_append,bind,Except.bind,hc]
  refine ⟨_,rfl,h.tag,(hs _).number,(hs _).part,(hs _).extract,h.text,h.tail,?_⟩
  have hin : (if k + 1 < (replicate m.indent ' ').length then
      { leaf "indent" (replicate m.indent ' ') (indentTail m.leader) with
        text := some (ofList ((replicate m.indent ' ').take (k + 1))) }
      else leaf "indent" (replicate m.indent ' ') (indentTail m.leader)) =
      leaf "indent" (replicate (min m.indent (k + 1)) ' ') (indentTail m.leader) := by
    by_cases hk : k + 1 < m.indent
    · simp [hk,leaf,Nat.min_eq_right (Nat.le_of_lt hk),Nat.min_eq_left (Nat.le_of_lt hk)]
    · simp [hk,Nat.min_eq_left (Nat.le_of_not_lt hk)]
  have hm : join [ofList ((replicate m.indent ' ').drop (k + 1)),
      (leaf "symbol" m.leader.symbol (symbolTail m.leader)).text.getD "",
      (marginLeaf m.leader.margin (some (ofList (bodyText m.after)))).text.getD "",
      (marginLeaf m.leader.margin (some (ofList (bodyText m.after)))).tail.getD ""] =
      ofList (shuffledText k m) := by
    rw [shuffledText]
    cases m.leader <;> simp [leaf,marginLeaf,Leader.symbol,Leader.margin]
  rw [hin,hm]
  rfl

lemma isSettled_of_isStrip (h : IsStrip s e) (hc : s.isCode = false)
  (hs : allLed ∨ stripRole s ≠ "continue") : IsSettled k allLed s e := by
  cases s with
  | code n cs => simp [Strip.isCode] at hc
  | start n m => exact h
  | middle n m =>
    have ha : allLed := by simpa [stripRole] using hs
    rw [IsSettled,settledChildren,if_pos ha]
    exact h
  | finish n i => exact h

lemma isContinued_eq {role : String} {children : List Element} (h : IsPart n role children e) :
  isContinued e = decide (role = "continue") := by
  rw [isContinued,h.part]
  by_cases hr : role = "continue" <;> simp [hr]

lemma shuffleLines_ok (k : Nat) (h : Forall₂ IsStrip ss es) (hss : ∀ s ∈ ss, s.isCode = false) :
    ∃ es', (es.mapM fun line =>
        if isContinued line then shuffleLine k line else .ok line) = Except.ok es' ∧
      Forall₂ (IsSettled k false) ss es' := by
  refine forall₂_mapM_ok h fun s hs e he => ?_
  have hp : IsSettled k true s e := isSettled_of_isStrip he (hss s hs) (.inl rfl)
  rw [isContinued_eq hp]
  by_cases hr : stripRole s = "continue"
  · simp only [hr]
    cases s with
    | middle n m => exact shuffleLine_ok k he
    | code n cs => simp [stripRole] at hr
    | start n m => simp [stripRole] at hr
    | finish n i => simp [stripRole] at hr
  · simp only [hr]
    exact ⟨e,rfl,isSettled_of_isStrip he (hss s hs) (Or.inr hr)⟩

lemma settledChildren_marks (k : Nat) (allLed : Bool) (h : s.isCode = false) :
  ∃ a b c rest, settledChildren k allLed s = a :: b :: c :: rest := by
  cases s with
  | code n cs => simp [Strip.isCode] at h
  | start n m => exact ⟨_,_,_,_,rfl⟩
  | middle n m => cases allLed <;> exact ⟨_,_,_,_,rfl⟩
  | finish n i => exact ⟨_,_,_,_,rfl⟩

lemma checkIndents_ok (found : Option Nat) (h : Forall₂ (IsSettled k allLed) ss es)
  (hss : ∀ s ∈ ss, s.isCode = false) :
  ∃ i, checkIndents allLed k found es = .ok i ∧ Forall₂ (IsSettled k allLed) ss i.lines := by
  induction h generalizing found with
  | nil => exact ⟨_,rfl,.nil⟩
  | @cons s e ss es he hes ih =>
    obtain ⟨a,b,c,rest,hc⟩ := settledChildren_marks k allLed (hss s mem_cons_self)
    have hr (found' : Option Nat) := ih found' fun s' hs' => hss s' (mem_cons_of_mem _ hs')
    have hm : marks e = .ok (a,b,c,rest) := by rw [marks,he.children,hc]
    have hh : e.children.head? = some a := by rw [he.children,hc]; rfl
    have hk (e' : Element) (he' : IsSettled k allLed s e') (found' : Option Nat) :
        ∃ i, ((checkIndents allLed k found' es).map fun i => i.cons e') = .ok i ∧
          Forall₂ (IsSettled k allLed) (s :: ss) i.lines := by
      obtain ⟨i,hi,hl⟩ := hr found'
      exact ⟨i.cons e',by rw [hi]; rfl,.cons he' hl⟩
    have hst (found' : Option Nat) : ∃ i, Except.ok (⟨e :: es,false,found'⟩ : Indents) =
        (.ok i : Except Fault Indents) ∧ Forall₂ (IsSettled k allLed) (s :: ss) i.lines :=
      ⟨_,rfl,.cons he hes⟩
    rw [checkIndents]
    simp only [hh]
    cases isContinued e with
    | false => exact hk e he found
    | true =>
      obtain ⟨blank,hb⟩ : ∃ blank, isSpaceOnly e = .ok blank := by
        rw [isSpaceOnly,hm]
        exact ⟨_,rfl⟩
      have hsk : ((pure !allLed : Except Fault Bool) <&&> isSpaceOnly e) = .ok (!allLed && blank) := by
        cases allLed
        · exact hb
        · rfl
      simp only [hsk,Bool.not_true]
      cases !allLed && blank with
      | true => exact hk _ (IsPart.set he (by decide) (by decide) (by decide) _) found
      | false =>
        simp only [Bool.false_eq_true,if_false]
        cases found with
        | none =>
          simp only
          split
          · exact hk e he _
          · exact hst none
        | some m =>
          simp only
          split
          · exact hk e he _
          · exact hst (some m)

section

variable {k : Nat} {allLed : Bool} {ss : List Strip} {es : List Element}

lemma forall_settledChildren {P : Element → Prop} (hl : ∀ tag cs tail, P (leaf tag cs tail))
  (hm : ∀ cs tail, P (marginLeaf cs tail)) (he : ∀ cs, P (endLeaf cs)) (s : Strip) :
  ∀ c ∈ settledChildren k allLed s, P c := by
  cases s with
  | code n cs => exact forall_mem_nil _
  | start n m => simp [settledChildren,stripChildren,openLeaves,hl,hm,he]
  | middle n m => cases allLed <;> simp [settledChildren,stripChildren,continueLeaves,hl,hm,he]
  | finish n i => simp [settledChildren,stripChildren,closeLeaves,hl,hm]

lemma settledChildren_leaves (s : Strip) : ∀ c ∈ settledChildren k allLed s, c.children = [] :=
  forall_settledChildren (fun _ _ _ => rfl) (fun _ _ => rfl) (fun _ => rfl) s

lemma descendants_settled (tag : String) (h : Forall₂ (IsSettled k allLed) ss es) :
    ({ tag, children := es } : Element).descendants = es.flatMap fun e => e :: e.children := by
  rw [descendants_eq]
  induction h with
  | nil => rfl
  | cons he _ ih =>
    rw [flatMap_cons,flatMap_cons,ih,descendants_of_leaves]
    rw [he.children]
    exact settledChildren_leaves _

lemma any_symbol_settled (h : Forall₂ (IsSettled k true) ss es) :
  (es.flatMap fun e => e :: e.children).any (fun e => e.tag == "symbol" && e.joinedText == "") =
    ss.any Strip.isBare := by
  induction h with
  | nil => rfl
  | @cons s e ss es he _ ih =>
    have hk : (settledChildren k true s).any (fun e => e.tag == "symbol" && e.joinedText == "") = s.isBare := by
      cases s with
      | code n cs => rfl
      | start n m =>
        simp [settledChildren,stripChildren,openLeaves,leaf,marginLeaf,endLeaf,
          Strip.isBare,joinedText_eq,childrenText]
      | middle n m =>
        cases hl : m.leader <;> simp [settledChildren,stripChildren,continueLeaves,leaf,marginLeaf,endLeaf,
            Strip.isBare,hl,Leader.symbol,joinedText_eq,childrenText]
      | finish n i =>
        simp [settledChildren,stripChildren,closeLeaves,leaf,marginLeaf,Strip.isBare,joinedText_eq,childrenText]
    rw [flatMap_cons,any_append,any_cons,any_cons,ih,he.children,hk,he.tag]
    rfl

lemma filter_settled {p : Element → Bool} (hp : ∀ s, ∀ c ∈ settledChildren k allLed s, p c = false)
  (h : Forall₂ (IsSettled k allLed) ss es) : (es.flatMap fun e => e :: e.children).filter p = es.filter p := by
  induction h with
  | nil => rfl
  | @cons s e ss es he _ ih =>
    have hk : e.children.filter p = [] := by
      rw [he.children,filter_eq_nil_iff]
      exact fun c hc => by simp [hp s c hc]
    rw [flatMap_cons,filter_append,filter_cons,hk,ih,filter_cons]
    split <;> rfl

lemma filter_number_settled (h : Forall₂ (IsSettled k allLed) ss es) :
  (es.flatMap fun e => e :: e.children).filter (·.has "number") = es := by
  rw [filter_settled (forall_settledChildren (fun _ _ _ => rfl) (fun _ _ => rfl) fun _ => rfl) h,filter_eq_self]
  intro e he
  obtain ⟨s,-,hs⟩ := forall₂_mem_right h he
  rw [has,hs.number]
  rfl

lemma getLast?_number_settled (h : Forall₂ (IsSettled k allLed) ss es) :
  es.getLast?.bind (·.attribute? "number") = (ss.getLast?.map Strip.number).map toString := by
  induction h with
  | nil => rfl
  | @cons s e ss es he hes ih =>
    have hn : e.attribute? "number" = some (toString s.number) := by
      rw [attribute?,he.number]
    cases hes with
    | nil => exact hn
    | cons he' hes' =>
      exact ih

end

structure SettledHead (r : Remark) (e : Element) : Prop where
  tag : e.tag = "comment"
  first : e.attribute? "lineFirst" = some (toString r.number)
  last : e.attribute? "lineLast" = some (toString r.lastNumber)
  indentStart : e.attribute? "indentStart" = some (toString r.mark.indent.length)
  allHaveSymbol : e.attribute? "allHaveSymbol" = some (isTrue r.allLed)

def AreSettled (r : Remark) (es : List Element) :
    Prop := Forall₂ (IsSettled r.mark.indent.length r.allLed) r.strips es

structure IsSettledComment (r : Remark) (e : Element) : Prop extends SettledHead r e where
  text : e.text = none
  lines : ∃ es, e.children = [{ tag := "lines", children := es }] ∧ AreSettled r es

def noted (r : Remark) (inPlace : Bool) (found : Option Nat) (e : Element) : Element :=
  let e := ((e.set "indentStart" (toString r.mark.indent.length)).set "allHaveSymbol" (isTrue r.allLed)).set
    "allIndentedOK" (isTrue inPlace)
  let e := match found with
    | some n => e.set "indentContinue" (toString n)
    | none => e
  e.set "lineLast" (toString r.lastNumber)

section

variable (r : Remark) (inPlace : Bool) (found : Option Nat) (e : Element)

lemma settledHead_noted (ht : e.tag = "comment") (hf : e.attribute? "lineFirst" = some (toString r.number)) :
  SettledHead r (noted r inPlace found e) := by
  cases found <;> refine ⟨ht,?_,?_,?_,?_⟩ <;> simp (disch := decide) only [noted,attribute?_set,
    attribute?_set_ne,hf]

lemma noted_text : (noted r inPlace found e).text = e.text := by
  cases found <;> rfl

lemma noted_children : (noted r inPlace found e).children = e.children := by
  cases found <;> rfl

end

lemma settleLines_ok (e : Element) (h : Forall₂ IsStrip r.strips es) : ∃ inPlace found es',
    settleLines e { tag := "lines", children := es } =
        .ok (noted r inPlace found e,{ tag := "lines", children := es' }) ∧ AreSettled r es' := by
  have hs (k : Nat) (allLed : Bool) (ha : allLed) : Forall₂ (IsSettled k allLed) r.strips es :=
    forall₂_imp h fun s hs e he => isSettled_of_isStrip he (r.isCode_strips s hs) (.inl ha)
  have hr := hs 0 true rfl
  have hi : ({ tag := "lines", children := es } : Element).descendants.find? (·.tag == "indent") =
      some (leaf "indent" r.mark.indent (some "")) := by
    obtain ⟨e0,es',he0,-,rfl⟩ := forall₂_cons_left_iff.mp hr
    rw [descendants_settled _ hr,flatMap_cons,he0.children,cons_append,find?_cons,he0.tag]
    rfl
  have ha : (!({ tag := "lines", children := es } : Element).descendants.any
      fun e => e.tag == "symbol" && e.joinedText == "") = r.allLed := by
    rw [descendants_settled _ hr,any_symbol_settled hr]
    rfl
  have hf (es1 : List Element) (hes1 : AreSettled r es1) :
      ∃ i, checkIndents r.allLed r.mark.indent.length none es1 = .ok i ∧
        lastNumber { tag := "lines", children := i.lines } = some (toString r.lastNumber) ∧
          AreSettled r i.lines := by
    obtain ⟨i,hc,hes2⟩ := checkIndents_ok none hes1 r.isCode_strips
    refine ⟨i,hc,?_,hes2⟩
    rw [lastNumber,descendants_settled _ hes2,filter_number_settled hes2,getLast?_number_settled hes2,
      r.getLast?_strips,Option.map_some]
  simp only [settleLines,hi,ha,textLength_leaf,bind,Except.bind,noted]
  cases hld : r.allLed with
  | true =>
    obtain ⟨i,hc,hl,hes2⟩ := hf es (hs _ _ hld)
    rw [hld] at hc
    refine ⟨i.allInPlace,i.found,i.lines,?_,hes2⟩
    simp only [pure,Except.pure,hc,hl]
    rfl
  | false =>
    obtain ⟨es1,hsh,hes1⟩ := shuffleLines_ok r.mark.indent.length h r.isCode_strips
    rw [← hld] at hes1
    obtain ⟨i,hc,hl,hes2⟩ := hf es1 hes1
    rw [hld] at hc
    refine ⟨i.allInPlace,i.found,i.lines,?_,hes2⟩
    simp only [hsh,hc,hl]
    rfl

lemma settleComment_eq {e' : Element} {es' : List Element}
    (hk : e.children = [{ tag := "lines", children := es }])
    (hs : settleLines e { tag := "lines", children := es } = .ok (e',{ tag := "lines", children := es' }))
    (he' : e'.children = e.children) :
    settleComment "lines" e = .ok { e' with children := [{ tag := "lines", children := es' }] } := by
  have hi : childIndex? "lines" e = some 0 := by
    rw [childIndex?,hk]
    rfl
  have hl : e.children[0]? = some { tag := "lines", children := es } := by
    rw [hk]
    rfl
  simp only [settleComment,hi,hl,Option.bind_some,Option.map_some,hs,bind,Except.bind,he']
  rw [hk]
  rfl

lemma settleComment_ok (h : IsComment r e) : ∃ e', settleComment "lines" e = .ok e' ∧ IsSettledComment r e' := by
  obtain ⟨es,hk,hes⟩ := h.lines
  obtain ⟨inPlace,found,es',hs,hes'⟩ := settleLines_ok e hes
  obtain ⟨ht,hf,hl,hst,hsy⟩ := settledHead_noted r inPlace found e h.tag h.first
  exact ⟨_,settleComment_eq hk hs (noted_children ..),⟨ht,hf,hl,hst,hsy⟩,
    (noted_text ..).trans h.text,es',rfl,hes'⟩

lemma childrenText_leaves (a b c : List Char) (ta tb tc : Option String) (es : List Element) :
  childrenText (leaf "indent" a ta :: leaf "symbol" b tb :: marginLeaf c tc :: es) =
    ofList a ++ ta.getD "" ++ (ofList b ++ tb.getD "" ++ (ofList c ++ tc.getD "" ++ childrenText es)) := by
  have hm : (marginLeaf c tc).joinedText = ofList c := by
    rw [← joinedText_leaf "margin" c tc]
    rfl
  rw [childrenText_cons,childrenText_cons,childrenText_cons,joinedText_leaf,joinedText_leaf,hm]
  rfl

lemma childrenText_endLeaf (cs : List Char) : childrenText [endLeaf cs] = ofList cs := by
  simp [joinedText_eq,endLeaf,childrenText]

lemma childrenText_settled (k : Nat) (allLed : Bool) (h : s.isCode = false) :
  childrenText (settledChildren k allLed s) = ofList s.chars := by
  cases s with
  | code n cs => simp [Strip.isCode] at h
  | start n m =>
    simp only [settledChildren,stripChildren,openLeaves,cons_append,nil_append,
      childrenText_leaves,childrenText_endLeaf,Option.getD_some,append_empty,String.append_assoc,
      ofList_bodyText_lineEnd,Strip.chars,OpenMark.head,ofList_append]
  | middle n m =>
    have hin := replicate_min_append m.indent (k + 1)
    have hi : (indentTail m.leader).getD "" = "" := by cases m.leader <;> rfl
    have hs : (symbolTail m.leader).getD "" = "" := by cases m.leader <;> rfl
    cases allLed with
    | true =>
      simp only [settledChildren,stripChildren,continueLeaves,cons_append,nil_append,
        childrenText_leaves,childrenText_endLeaf,hi,hs,Option.getD_some,append_empty,
        String.append_assoc,ofList_bodyText_lineEnd,Strip.chars,ContinueMark.head,ofList_append,
        if_true]
    | false =>
      simp only [settledChildren,childrenText_leaves,childrenText_endLeaf,hi,hs,
        Option.getD_some,append_empty,Bool.false_eq_true,if_false,Strip.chars,
        ContinueMark.head,shuffledText,← hin,ofList_append,String.append_assoc,
        ofList_bodyText_lineEnd]
      rfl
  | finish n i =>
    have ht : (i.map fun _ => "").getD "" = "" := by cases i <;> rfl
    simp only [settledChildren,stripChildren,closeLeaves,childrenText_leaves,ht,
      Option.getD_none,append_empty,Strip.chars,ofList_append]
    simp [childrenText]

lemma joinedText_settled (h : IsSettled k allLed s e) (hc : s.isCode = false) :
    e.joinedText = ofList s.chars := by
  rw [joinedText_eq,h.text,h.children,childrenText_settled k allLed hc]
  simp

lemma joinedText_line {cs : List Char} (h : IsLine n cs e) : e.joinedText = ofList cs := by
  rw [joinedText_eq,h.text,h.children]
  simp [childrenText]

lemma joinedText_strip (h : IsStrip s e) : e.joinedText = ofList s.chars := by
  cases hc : s.isCode with
  | false =>
    exact joinedText_settled (isSettled_of_isStrip h hc (Or.inl rfl) : IsSettled 0 true s e) hc
  | true =>
    cases s with
    | code n cs => exact joinedText_line h
    | _ => simp [Strip.isCode] at hc

lemma map_joinedText {α : Type} {f : α → List Char} {xs : List α}
  (h : Forall₂ (fun x e => e.joinedText = ofList (f x)) xs es) :
  es.map joinedText = xs.map fun x => ofList (f x) := by
  induction h with
  | nil => rfl
  | cons he _ ih => rw [map_cons,map_cons,he,ih]

lemma joinedText_of_lines (ht : e.text = none) (hc : e.children = [{ tag := "lines", children := es }])
    (h : Forall₂ (fun s e => e.tail = none ∧ e.joinedText = ofList s.chars) ss es) :
    e.joinedText = ofList (ss.flatMap Strip.chars) := by
  have htl : ∀ e ∈ es, e.tail = none := fun e he => by
    obtain ⟨s,-,hs⟩ := forall₂_mem_right h he
    exact hs.1
  rw [← join_map_ofList,← map_joinedText (h.imp fun s e he => he.2),← childrenText_eq_join htl,
    joinedText_eq,ht,hc,childrenText_cons,joinedText_eq]
  simp [childrenText]

def IsSettledPassage : Passage → Element → Prop
  | .code n cs, e => IsLine n cs e
  | .comment r, e => IsSettledComment r e

lemma joinedText_gathered (h : IsGathered p e) : e.joinedText = ofList (p.strips.flatMap Strip.chars) := by
  cases p with
  | code n cs =>
    rw [joinedText_line h]
    simp [Passage.strips,Strip.chars]
  | comment r =>
    obtain ⟨es,hc,hes⟩ := IsComment.lines h
    exact joinedText_of_lines (IsComment.text h) hc (hes.imp fun s e he => ⟨he.tail,joinedText_strip he⟩)

lemma joinedText_settledPassage (h : IsSettledPassage p e) :
    e.joinedText = ofList (p.strips.flatMap Strip.chars) := by
  cases p with
  | code n cs => exact joinedText_gathered (p := .code n cs) h
  | comment r =>
    obtain ⟨es,hc,hes⟩ := IsSettledComment.lines h
    exact joinedText_of_lines (IsSettledComment.text h) hc
      (forall₂_imp hes fun s hs e he => ⟨IsPart.tail he,joinedText_settled he (r.isCode_strips s hs)⟩)

lemma settleComment_passage (h : IsGathered p e) : ∃ e', settleComment "lines" e = .ok e' ∧
    IsSettledPassage p e' := by
  cases p with
  | comment r => exact settleComment_ok h
  | code n cs =>
    refine ⟨e,?_,h⟩
    rw [settleComment,childIndex?,IsLine.children h]
    rfl

lemma leaves_of_isStrip (h : IsStrip s e) : ∀ c ∈ e.children, c.children = [] := by
  cases hc : s.isCode with
  | false =>
    have hs : IsSettled 0 true s e := isSettled_of_isStrip h hc (Or.inl rfl)
    rw [hs.children]
    exact settledChildren_leaves s
  | true =>
    cases s with
    | code n cs => simp [IsLine.children h]
    | _ => simp [Strip.isCode] at hc

theorem markComments_keeps_text (source : Option String) (lines : List String)
    (h : ∀ line ∈ lines, line ≠ "") :
    ∃ es settled, markComments (lineElements "line" source lines) = .ok es ∧
      List.Forall₂ IsStrip (cutLines (lines.map String.toList)) es ∧
      (∀ e ∈ es, ∀ c ∈ e.children, c.children = []) ∧
      String.join (es.map joinedText) = String.join lines ∧
      String.join ((gatherComments {} es).map joinedText) = String.join lines ∧
      (gatherComments {} es).mapM (settleComment "lines") = .ok settled ∧
      settled.map joinedText = (gatherComments {} es).map joinedText := by
  have hne : ∀ cs ∈ lines.map String.toList, cs ≠ [] := by
    intro cs hcs
    obtain ⟨line, hline, rfl⟩ := mem_map.mp hcs
    simpa using h line hline
  obtain ⟨es, hread, hes⟩ := readFrom_ok hne false (areLines_lineElements source lines)
  obtain ⟨ps, hps, hflat⟩ := exists_passages_cutLines (lines.map String.toList)
  have hgather : Forall₂ IsGathered ps (gatherComments {} es) :=
    isGathered_gatherComments hps (by rw [hflat]; exact hes)
  obtain ⟨settled, hsettle, hsettled⟩ := forall₂_mapM_ok hgather fun p _ e he => settleComment_passage he
  have htexts := map_joinedText (hgather.imp fun p e => joinedText_gathered)
  refine ⟨es, settled, hread, hes, ?_, ?_, ?_, hsettle, ?_⟩
  · intro e he
    obtain ⟨s, -, hs⟩ := forall₂_mem_right hes he
    exact leaves_of_isStrip hs
  · rw [map_joinedText (hes.imp fun s e => joinedText_strip), join_map_ofList,
      flatMap_chars_cutFrom, ofList_flatten_toList]
  · rw [htexts, join_map_ofList, ← flatMap_assoc, hflat, flatMap_chars_cutLines,
      ofList_flatten_toList]
  · rw [htexts]
    exact map_joinedText (hsettled.imp fun p e => joinedText_settledPassage)

theorem markComments_keeps_text_of_nested_marks :
    (∀ line ∈ ["/***/ /** a **/ int x; /** b\n", "  * c\n", "** d */ y"], line ≠ "") ∧
      ∃ es settled, markComments (lineElements "line" none
          ["/***/ /** a **/ int x; /** b\n", "  * c\n", "** d */ y"]) = .ok es ∧
        List.Forall₂ IsStrip (cutLines (["/***/ /** a **/ int x; /** b\n", "  * c\n",
          "** d */ y"].map String.toList)) es ∧ (∀ e ∈ es, ∀ c ∈ e.children, c.children = []) ∧
        String.join (es.map joinedText) = "/***/ /** a **/ int x; /** b\n  * c\n** d */ y" ∧
        String.join ((gatherComments {} es).map joinedText) =
          "/***/ /** a **/ int x; /** b\n  * c\n** d */ y" ∧
        (gatherComments {} es).mapM (settleComment "lines") = .ok settled ∧
        settled.map joinedText = (gatherComments {} es).map joinedText :=
  ⟨by decide, markComments_keeps_text none _ (by decide)⟩

end Docweave.Tree
