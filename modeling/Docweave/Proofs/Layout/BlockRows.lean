import Docweave.Proofs.Layout.CodeInLists

namespace Docweave.Tree

open Element Text List

variable {w : Nat} {k : Nat} {tree e c x : Element}

section

def lastLayout (last : Option String) (es : List Element) : Option String :=
  es.foldl (fun last c => (transition .final last c).1) last

lemma childStrokes_append (w : Int) (k : Nat) (order : Option Bool) (count idx : Nat) (last : Option String)
  (es es' : List Element) : childStrokes w k order count idx last (es ++ es') =
    childStrokes w k order count idx last es ++
      childStrokes w k order count (idx + es.length) (lastLayout last es) es' := by
  induction es generalizing idx last with
  | nil => simp [childStrokes,lastLayout]
  | cons c es ih =>
    rw [cons_append,childStrokes,childStrokes,ih,append_assoc,length_cons,Nat.add_comm es.length,← Nat.add_assoc]
    rfl

def Stroke.EndsLine : Stroke → Prop
  | .feed _ | .mark _ | .code _ => True
  | .text _ | .leave => False

def Stroke.StopsLine : Stroke → Prop
  | .feed _ | .leave => True
  | .text _ | .mark _ | .code _ => False

def LineEnded (ss : List (Nat × Stroke)) : Prop := ∀ x ∈ ss.getLast?, x.2.EndsLine

def LineStopped (ss : List (Nat × Stroke)) : Prop := ∀ x ∈ ss.head?, x.2.StopsLine

lemma LineEnded.append {ss ss' : List (Nat × Stroke)} (h : LineEnded ss) (h' : LineEnded ss') :
    LineEnded (ss ++ ss') := by
  rw [LineEnded,getLast?_append]
  cases hl : ss'.getLast? with
  | none => exact h
  | some y => exact fun x hx => h' x (by rw [hl]; exact hx)

lemma LineStopped.append {ss ss' : List (Nat × Stroke)} (h : LineStopped ss) (h' : LineStopped ss') :
  LineStopped (ss ++ ss') := by
  rw [LineStopped,head?_append]
  cases hh : ss.head? with
  | none => exact h'
  | some y => exact fun x hx => h x (by rw [hh]; exact hx)

lemma lineEnded_nil : LineEnded [] := by simp [LineEnded]

lemma lineEnded_change (last : Option String) (c : Element) (k : Nat) :
    LineEnded ((changeStrokes last c).map (k,·)) := by
  rw [changeStrokes]
  split <;> simp [LineEnded,Stroke.EndsLine]

def IsForm (e : Element) : Prop := form? e = some .prose ∨ form? e = some .list

lemma IsMarkdown.children (h : IsMarkdown e) (hc : c ∈ e.children) (hb : IsBlockElement c) :
  (∃ ord, orderOf e = some ord) ∨ orderOf e = none ∧ ownStrokes e = [] ∧ e.attribute? "wrap" = none ∧
    ∀ y ∈ e.children, form? y = some .span ∨ form? y = some .code ∨ IsBlockElement y := by
  have ho : form? c ≠ some .span := fun hsp => hb.other hsp rfl
  obtain ⟨-,f,hf,ha⟩ := h
  cases f with
  | span => exact absurd (ha.2.2 c hc) ho
  | code =>
    rw [ha.2.2.2.2.2.2] at hc
    cases hc
  | list =>
    exact .inl (Option.isSome_iff_exists.mp (((form?_other hf (by decide)).2.2 (by decide)).mpr rfl))
  | prose =>
    have hor : orderOf e = none := by simpa using (form?_other hf (by decide)).2.2 (by decide)
    have hon := ha.2.2.2.resolve_right fun hs => ho (hs c hc)
    exact .inr ⟨hor,hon,ha.1,ha.2.2.1⟩

lemma IsMarkdown.kinds (h : IsMarkdown e) (hc : c ∈ e.children) :
  form? c = some .span ∨ form? c = some .code ∨ IsBlockElement c := by
  obtain ⟨-,f,hf,ha⟩ := h
  cases f with
  | span => exact .inl (ha.2.2 c hc)
  | code =>
    rw [ha.2.2.2.2.2.2] at hc
    cases hc
  | list => exact .inr (.inr (ha.2.2.2 c hc))
  | prose => exact ha.2.2.1 c hc

lemma LineEnded.after {ss : List (Nat × Stroke)} (h : LineEnded ss) (hne : ss ≠ [])
    (front : List (Nat × Stroke)) :
  LineEnded (front ++ ss) := by
  rw [LineEnded,getLast?_append_of_ne_nil _ hne]
  exact h

lemma lineEnded_single {x : Nat × Stroke} (h : x.2.EndsLine) : LineEnded [x] := by
  rintro y ⟨⟩
  exact h

lemma lineEnded_framed {count idx : Nat} {last : Option String} (hc : IsMarkdown c) (hm : idx + 1 < count)
  (ho : form? c = some .code ∨ IsBlockElement c) (front : List (Nat × Stroke)) :
  LineEnded (front ++ framed w k none count idx last c (strokes w (inner k none) c)) := by
  rw [framed,endStrokes,if_pos hm,← append_assoc]
  rcases ho with hcd | ⟨-,n,hn,-⟩
  · obtain ⟨-,f,hf,ha⟩ := hc
    obtain rfl : f = .code := Option.some.inj (hf.symm.trans hcd)
    obtain ⟨-,hw,hl,hnn,-,ht,hlf⟩ := ha
    obtain ⟨t,ht⟩ := Option.isSome_iff_exists.mp ht
    have hcs : strokes w k c = [(k,.code t)] := by
      rw [strokes_leaf _ _ hlf,ownStrokes,wrapStrokes,hw,hashes,hl,ht,(form?_other hcd (by decide)).2.1.mpr rfl]
      rfl
    rw [hnn,inner,if_neg (by simp),hcs]
    simp only [Option.isSome_none,Bool.false_eq_true,if_false,Option.toList_none,map_nil,append_nil]
    rw [← append_assoc]
    exact LineEnded.after (@lineEnded_single (k,.code t) trivial) (cons_ne_nil _ _) _
  · rw [Option.mem_def.mp hn]
    exact LineEnded.after (@lineEnded_single (k,.feed n) trivial) (cons_ne_nil _ _) _

lemma lineEnded_before {pre post : List Element} (he : ∀ y ∈ e.children, IsMarkdown y)
  (hk : ∀ y ∈ e.children, form? y = some .span ∨ form? y = some .code ∨ IsBlockElement y)
  (hs : e.children = pre ++ c :: post) (hly : c.attribute? "layout" = none) :
  LineEnded (childStrokes w k none e.children.length 0 none pre ++
    (changeStrokes (lastLayout none pre) c).map (k,·)) := by
  rcases eq_nil_or_concat' pre with rfl | ⟨init,y,rfl⟩
  · simp [childStrokes,lastLayout,changeStrokes,lineEnded_nil]
  have hy : y ∈ e.children := by simp [hs]
  rcases hk y hy with hsp | ho
  · have hl : lastLayout none (init ++ [y]) = some "span" := by
      simp [lastLayout,transition,(form?_span hsp).1]
    rw [hl,changeStrokes,if_pos ⟨rfl,hly⟩]
    exact LineEnded.after (@lineEnded_single (k,.feed "1") trivial) (cons_ne_nil _ _) _
  · refine LineEnded.append ?_ (lineEnded_change _ c k)
    rw [childStrokes_append,childStrokes,childStrokes,append_nil]
    exact lineEnded_framed (he y hy) (by simp [hs]) ho _

lemma spans_below : ∀ e, Throughout IsMarkdown e → form? e = some .span →
  ∀ x ∈ e :: e.descendants, form? x = some .span := by
  refine Element.byChildren fun e ih he hs x hx => ?_
  rcases mem_cons.mp hx with rfl | hx
  · exact hs
  obtain ⟨⟨-,f,hf,ha⟩,hk⟩ := throughout_iff.mp he
  obtain rfl : f = .span := Option.some.inj (hf.symm.trans hs)
  rw [descendants_eq] at hx
  obtain ⟨c,hc,hx⟩ := mem_flatMap.mp hx
  exact ih c hc (hk c hc) (ha.2.2 c hc) x hx

lemma block_above (hc : Throughout IsMarkdown c) (hx : x ∈ c :: c.descendants) (hfr : IsForm x)
  (hk : form? c = some .span ∨ form? c = some .code ∨ IsBlockElement c) : IsBlockElement c := by
  rcases hk with hsp | hcd | hb
  · have hs := spans_below c hc hsp x hx
    rcases hfr with hfr | hfr <;> cases hfr.symm.trans hs
  · obtain ⟨⟨-,f,hf,ha⟩,-⟩ := throughout_iff.mp hc
    obtain rfl : f = .code := Option.some.inj (hf.symm.trans hcd)
    rw [descendants_of_leaf ha.2.2.2.2.2.2] at hx
    obtain rfl := mem_singleton.mp hx
    rcases hfr with hfr | hfr <;> cases hfr.symm.trans hcd
  · exact hb

lemma strokes_placed : ∀ e, Throughout IsMarkdown e → ∀ k, ∀ x ∈ e :: e.descendants,
  ∃ k' before after, strokes w k e = before ++ strokes w k' x ++ after ∧
    (IsForm x → LineEnded before ∧ LineStopped after) := by
  refine Element.byChildren fun e ih he k x hx => ?_
  rcases mem_cons.mp hx with rfl | hx
  · exact ⟨k,[],[],by simp,fun _ => ⟨lineEnded_nil,by simp [LineStopped]⟩⟩
  obtain ⟨hh,hk⟩ := throughout_iff.mp he
  rw [descendants_eq] at hx
  obtain ⟨c,hc,hx⟩ := mem_flatMap.mp hx
  obtain ⟨pre,post,hs⟩ := append_of_mem hc
  obtain ⟨k',before,after,hi,hbl⟩ := ih c hc (hk c hc) (inner k (orderOf e)) x hx
  have hcn : countToLast e.children = e.children.length :=
    countToLast_eq fun c hc => (throughout_iff.mp (hk c hc)).1.counted
  have hch := childStrokes_append w k (orderOf e) e.children.length 0 none pre (c :: post)
  rw [← hs,Nat.zero_add,childStrokes,hi,framed] at hch
  refine ⟨k',(ownStrokes e).map (k,·) ++ (childStrokes w k (orderOf e) e.children.length 0 none pre ++
      ((markStrokes w (orderOf e) pre.length).map (k,·) ++
        (changeStrokes (lastLayout none pre) c).map (inner k (orderOf e),·))) ++ before,
    after ++ (((if (orderOf e).isSome then [Stroke.leave] else []) ++
      endStrokes e.children.length pre.length c).map
        (k,·) ++ (childStrokes w k (orderOf e) e.children.length (pre.length + 1)
          (transition .final (lastLayout none pre) c).1 post ++ (wrapStrokes e).map (k,·))),?_,fun hfr => ?_⟩
  · rw [strokes_eq,hcn,hch]
    simp only [append_assoc]
  obtain ⟨hbf,ha⟩ := hbl hfr
  have hb := block_above (hk c hc) hx hfr (hh.kinds hc)
  refine ⟨LineEnded.append ?_ hbf,LineStopped.append ha ?_⟩
  · rcases hh.children hc hb with ⟨ord,ho⟩ | ⟨ho,hon,-,hkn⟩
    · rw [ho,← append_assoc]
      refine LineEnded.after ?_ (by simp [markStrokes]) _
      exact LineEnded.append (@lineEnded_single (k,.mark _) trivial) (lineEnded_change _ c _)
    · rw [ho,hon]
      obtain ⟨f,hf,-⟩ := (throughout_iff.mp (hk c hc)).1.allowed
      exact lineEnded_before (fun y hy => (throughout_iff.mp (hk y hy)).1) hkn hs
        (form?_other hf (hb.other hf)).1
  · rcases hh.children hc hb with ⟨ord,ho⟩ | ⟨ho,-,hw,-⟩
    · rw [ho]
      rintro y ⟨⟩
      trivial
    · rw [ho,if_neg (by simp),nil_append,endStrokes]
      cases post with
      | nil =>
        rw [if_neg (by simp [hs]),childStrokes,wrapStrokes,hw]
        rintro y ⟨⟩
      | cons p post =>
        obtain ⟨-,n,hn,-⟩ := hb
        rw [if_pos (by simp [hs]),Option.mem_def.mp hn]
        rintro y ⟨⟩
        trivial

end

section

variable {p : Page} {ss : List (Nat × Stroke)} {s s' : Stand}

def Stroke.isFeed : Stroke → Bool
  | .feed _ => true
  | _ => false

def firstLine (ss : List (Nat × Stroke)) : List (Nat × Stroke) := ss.takeWhile fun x => !x.2.isFeed

lemma row_kept {r : Row} (h : .row r ∈ p.lines) (ss : List (Nat × Stroke)) :
    r ∈ (ss.foldl Page.write p).rows := by
  induction ss generalizing p with
  | nil => exact mem_append_left _ (mem_filterMap.mpr ⟨_,h,rfl⟩)
  | cons x ss ih =>
    obtain ⟨k,stroke⟩ := x
    refine ih ?_
    cases stroke <;> simp [Page.write,h]

lemma row_written (p : Page) (ss : List (Nat × Stroke)) :
    { start := p.row.start, marks := p.row.marks ++ (firstLine ss).flatMap markedOf,
      contents := p.row.contents ++ (firstLine ss).flatMap saidOf } ∈ (ss.foldl Page.write p).rows := by
  induction ss generalizing p with
  | nil => exact mem_append_right _ (mem_singleton.mpr (by simp [firstLine]))
  | cons x ss ih =>
    obtain ⟨k,stroke⟩ := x
    have hr := ih (p.write (k,stroke))
    cases stroke with
    | feed n =>
      rw [foldl_cons]
      refine row_kept ?_ ss
      simp [Page.write,firstLine,Stroke.isFeed]
    | text | mark | leave | code =>
      simpa [firstLine,Stroke.isFeed,Page.write,saidOf,markedOf] using hr

lemma LineStopped.silent (hc : Course s ss s') (hl : s.depth ≤ s.level)
    (h : LineStopped ss ∨ s.depth < s.level) :
  (firstLine ss).flatMap markedOf = [] ∧ (firstLine ss).flatMap saidOf = [] := by
  induction ss generalizing s with
  | nil => exact ⟨rfl,rfl⟩
  | cons x ss ih =>
    obtain ⟨k,stroke⟩ := x
    obtain ⟨s1,hs,hr⟩ := Option.bind_eq_some_iff.mp hc
    have hdp (hn : ¬ stroke.StopsLine) : s.depth < s.level := h.resolve_left fun h => hn (h _ rfl)
    cases stroke with
    | text t =>
      obtain ⟨⟨hd,hl⟩,-⟩ : (s.depth = k ∧ s.level = k) ∧ _ := by simpa [Stand.step?] using hs
      have := hdp id
      omega
    | mark m =>
      obtain ⟨rfl,-⟩ : s = .fresh k ∧ _ := by simpa [Stand.step?] using hs
      exact absurd (hdp id) (lt_irrefl k)
    | code t =>
      obtain ⟨rfl,-⟩ : s = .fresh k ∧ s = s1 := by simpa [Stand.step?] using hs
      exact absurd (hdp id) (lt_irrefl k)
    | feed n => exact ⟨by simp [firstLine,Stroke.isFeed],by simp [firstLine,Stroke.isFeed]⟩
    | leave =>
      obtain ⟨hd,rfl⟩ : s.depth = k + 1 ∧ { s with depth := k } = s1 := by simpa [Stand.step?] using hs
      exact ih hr (show k ≤ s.level by omega) (.inr (show k < s.level by omega))

lemma LineEnded.fresh (h : LineEnded ss) (hc : Course (.fresh 0) ss s) : s.begun = false := by
  rcases eq_nil_or_concat' ss with rfl | ⟨init,x,rfl⟩
  · cases hc
    rfl
  obtain ⟨s1,-,hl⟩ := hc.before
  obtain ⟨s2,hs,hen⟩ := Option.bind_eq_some_iff.mp hl
  obtain rfl : s2 = s := Option.some.inj hen
  obtain ⟨k,stroke⟩ := x
  have he : stroke.EndsLine := h (k,stroke) (by simp)
  cases stroke with
  | text | leave => cases he
  | mark m =>
    obtain ⟨-,rfl⟩ : s1 = .fresh k ∧ .fresh (k + 1) = s2 := by simpa [Stand.step?] using hs
    rfl
  | feed n =>
    obtain ⟨-,rfl⟩ : (s1.depth = k ∧ 0 < feeds n) ∧ .fresh k = s2 := by simpa [Stand.step?] using hs
    rfl
  | code t =>
    obtain ⟨rfl,rfl⟩ : s1 = .fresh k ∧ s1 = s2 := by simpa [Stand.step?] using hs
    rfl

lemma flatMap_firstLine {β : Type} {f : Nat × Stroke → List β} {ss' : List (Nat × Stroke)}
  (h : (firstLine ss').flatMap f = []) : (firstLine (ss ++ ss')).flatMap f = (firstLine ss).flatMap f := by
  rw [firstLine,takeWhile_append]
  split
  · next ha =>
    rw [flatMap_append,← firstLine,h,append_nil,firstLine,( takeWhile_prefix _).eq_of_length ha]
  · rfl

lemma row_of_stretch (ht : Throughout IsMarkdown tree) (hfr : form? tree = some .prose) (hcd : ¬ CodeInList tree)
  {pre after : List (Nat × Stroke)} (hsp : strokes w 0 tree = pre ++ ss ++ after) (hst : LineStopped after) :
  ∃ s s', Course (.fresh 0) pre s ∧ Course s ss s' ∧ (s.begun = false → ∃ r ∈ (pageOf w tree).rows, ∃ outer,
    r.start + outer.length = s.level ∧ r.marks = outer ++ (firstLine ss).flatMap markedOf ∧
      r.contents = (firstLine ss).flatMap saidOf) := by
  obtain ⟨last,hcr,-,hfl,-⟩ := course_tree w ht hfr
  have hc := hfl hcd
  rw [hsp] at hcr hc
  obtain ⟨s',hf,hbc⟩ := hcr.before
  obtain ⟨s,hp,hin⟩ := hf.before
  obtain ⟨hc,-⟩ := forall_mem_append.mp hc
  obtain ⟨l,-,hs⟩ := sits_run (sits_start .final w) hp (forall_mem_append.mp hc).1
  obtain ⟨l',-,hs'⟩ := sits_run (sits_start .final w) hf hc
  refine ⟨s,s',hp,hin,fun hb => ?_⟩
  obtain ⟨hm,hsd⟩ := LineStopped.silent hbc hs'.below (.inl hst)
  refine ⟨⟨(pre.foldl Page.write {}).row.start,(pre.foldl Page.write {}).row.marks ++
    (firstLine ss).flatMap markedOf,(firstLine ss).flatMap saidOf⟩,?_,_,hs.level,rfl,rfl⟩
  have hr := row_written (pre.foldl Page.write {}) (ss ++ after)
  rw [flatMap_firstLine hm,flatMap_firstLine hsd,hs.empty hb,nil_append,← foldl_append,
    ← append_assoc,← hsp] at hr
  exact hr

lemma lines_of_tree (ht : Throughout IsMarkdown tree) (hfr : form? tree = some .prose) (hc : ¬ CodeInList tree) :
  ∃ made, (pieces .final w tree).toExcept = .ok made ∧
    (logicalLines .final (.ofList made)).toExcept = .ok ((pageOf w tree).elements .final w) := by
  obtain ⟨s,hcr,-,hf,hp⟩ := course_tree w ht hfr
  obtain ⟨laid,hl,hs⟩ := sits_run (sits_start .final w) hcr (hf hc)
  refine ⟨written .final w (strokes w 0 tree),by rw [hp]; rfl,?_⟩
  rw [logicalLines,Stream.ofList,toExcept_layOutFrom,hl,pageOf,← hs.close]
  rfl

end

end Docweave.Tree
