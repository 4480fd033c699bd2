import Docweave.Proofs.Layout.TreeStrokes

namespace Docweave.Tree

open Element Text List

inductive Form
  | span
  | code
  | prose
  | list
  deriving DecidableEq

def form? (e : Element) : Option Form :=
  if e.attribute? "layout" = some "span" ∧ e.has "verbatim" = false ∧ orderOf e = none then some .span
  else if e.attribute? "layout" = none then
    if e.has "verbatim" then some .code else if (orderOf e).isSome then some .list else some .prose
  else none

def feeds (n : String) : Nat := ((whole n).toOption.getD 0).toNat

def IsBlockElement (e : Element) : Prop :=
  (form? e = some .prose ∨ form? e = some .list) ∧ ∃ n ∈ e.attribute? "newlines", 0 < feeds n

def Form.Allows (e : Element) : Form → Prop
  | .span => e.attribute? "level" = none ∧ e.attribute? "newlines" = none ∧
    ∀ c ∈ e.children, form? c = some .span
  | .code => e.attribute? "verbatim" = some "block" ∧ e.attribute? "wrap" = none ∧ e.attribute? "level" = none ∧
      e.attribute? "newlines" = none ∧ orderOf e = none ∧ e.text.isSome = true ∧ e.children = []
  | .list => e.attribute? "wrap" = none ∧ e.attribute? "level" = none ∧ e.text = none ∧
    ∀ c ∈ e.children, IsBlockElement c
  | .prose => e.attribute? "wrap" = none ∧ (∀ s ∈ e.attribute? "level", (whole? s).isSome = true) ∧
      (∀ c ∈ e.children, form? c = some .span ∨ form? c = some .code ∨ IsBlockElement c) ∧
      (ownStrokes e = [] ∨ ∀ c ∈ e.children, form? c = some .span)

structure IsMarkdown (e : Element) : Prop where
  counted : e.tag ≠ "doc"
  allowed : ∃ f ∈ form? e, f.Allows e

instance : DecidablePred IsBlockElement := fun _ => inferInstanceAs (Decidable (_ ∧ _))

instance (e : Element) : (f : Form) → Decidable (f.Allows e)
  | .span | .list => inferInstanceAs (Decidable (_ ∧ _))
  | .code | .prose => inferInstanceAs (Decidable (_ ∧ _))

instance : DecidablePred IsMarkdown := fun _ =>
  decidable_of_iff (_ ∧ _) ⟨fun h => ⟨h.1,h.2⟩,fun h => ⟨h.counted,h.allowed⟩⟩

structure Stand where
  depth : Nat
  level : Nat
  begun : Bool
  deriving DecidableEq

def Stand.fresh (k : Nat) : Stand := ⟨k,k,false⟩

def Stand.step? (s : Stand) : Nat × Stroke → Option Stand
  | (k,.text _) => if s.depth = k ∧ s.level = k then some ⟨k,k,true⟩ else none
  | (k,.mark _) => if s = .fresh k then some (.fresh (k + 1)) else none
  | (k,.leave) => if s.depth = k + 1 then some { s with depth := k } else none
  | (k,.feed n) => if s.depth = k ∧ 0 < feeds n then some (.fresh k) else none
  | (k,.code _) => if s = .fresh k then some s else none

def Course (s : Stand) (ss : List (Nat × Stroke)) (s' : Stand) : Prop := ss.foldlM Stand.step? s = some s'

section

variable {s s₁ s' : Stand} {ss ss' : List (Nat × Stroke)} {w : Int} {k : Nat} {e c : Element}

lemma Course.append (h : Course s ss s₁) (h' : Course s₁ ss' s') : Course s (ss ++ ss') s' := by
  rw [Course,foldlM_append,show ss.foldlM Stand.step? s = some s₁ from h]
  exact h'

lemma Course.before (h : Course s (ss ++ ss') s') : ∃ s₁, Course s ss s₁ ∧ Course s₁ ss' s' := by
  rw [Course,foldlM_append] at h
  exact Option.bind_eq_some_iff.mp h

lemma Course.cons {x : Nat × Stroke} (h : s.step? x = some s₁) (h' : Course s₁ ss s') :
    Course s (x :: ss) s' := by
  rw [Course,foldlM_cons,h]
  exact h'

lemma course_nil (s : Stand) : Course s [] s := rfl

lemma course_texts (k : Nat) (b : Bool) (texts : List String) :
  Course ⟨k,k,b⟩ ((texts.map Stroke.text).map (k,·)) ⟨k,k,b || !texts.isEmpty⟩ := by
  induction texts generalizing b with
  | nil => simpa using course_nil ⟨k,k,b⟩
  | cons t texts ih => simpa using Course.cons (by simp [Stand.step?]) (ih true)

lemma course_feed {n : String} (h : 0 < feeds n) (hd : s.depth = k) : Course s [(k,.feed n)] (.fresh k) :=
  Course.cons (by simp [Stand.step?,h,hd]) (course_nil _)

def Walks (w : Int) (f : Form) (e : Element) : Prop :=
  ∀ k b, f = .span ∨ b = false → ∃ s', Course ⟨k,k,b⟩ (strokes w k e) s' ∧ s'.depth = k ∧ k ≤ s'.level ∧
    (f = .span → s'.level = k) ∧ (f = .code → s' = .fresh k)

lemma frame_item {f : Form} {order : Option Bool} {count idx : Nat} {last : Option String} {b : Bool}
  (hw : Walks w f c) (hly : c.attribute? "layout" = none) (he : (∃ n ∈ c.attribute? "newlines", 0 < feeds n) ∨
    f = .code ∧ order = none ∧ c.attribute? "newlines" = none)
  (hs : b = false ∧ (order.isSome → last = none) ∨ order = none ∧ last = some "span") :
  ∃ s', Course ⟨k,k,b⟩ (framed w k order count idx last c (strokes w (inner k order) c)) s' ∧ s'.depth = k ∧
    k ≤ s'.level ∧ (idx + 1 < count → s' = .fresh k) := by
  have ho : Course ⟨k,k,b⟩ ((markStrokes w order idx).map (k,·) ++
      (changeStrokes last c).map (inner k order,·)) (.fresh (inner k order)) := by
    rcases hs with ⟨rfl,hls⟩ | ⟨rfl,rfl⟩
    · cases order with
      | none =>
        rw [changeStrokes]
        split
        · exact course_feed (by decide +kernel) rfl
        · exact course_nil _
      | some ord =>
        rw [hls rfl]
        exact Course.cons (by simp [Stand.step?,Stand.fresh,inner]) (course_nil _)
    · rw [changeStrokes,if_pos ⟨rfl,hly⟩]
      exact course_feed (by decide +kernel) rfl
  obtain ⟨s₁,hi,hd,hl,-,hc⟩ := hw (inner k order) false (.inr rfl)
  have hlv : Course s₁ ((if order.isSome then [Stroke.leave] else []).map (k,·)) { s₁ with depth := k } := by
    cases order with
    | none =>
      obtain ⟨depth,level,begun⟩ := s₁
      obtain rfl : depth = k := hd
      exact course_nil _
    | some ord => exact Course.cons (by simp [Stand.step?,hd,inner]) (course_nil _)
  have hl' : k ≤ s₁.level := le_trans (by rw [inner]; split <;> omega) hl
  have hp := (ho.append hi).append hlv
  rw [framed,map_append,← append_assoc,endStrokes]
  by_cases hm : idx + 1 < count
  · rw [if_pos hm]
    rcases he with ⟨n,hn,hf⟩ | ⟨rfl,rfl,hnn⟩
    · rw [hn]
      exact ⟨_,hp.append (course_feed hf rfl),rfl,le_rfl,fun _ => rfl⟩
    · rw [hnn]
      refine ⟨_,hp.append (course_nil _),rfl,hl',fun _ => ?_⟩
      rw [hc rfl]
      rfl
  · rw [if_neg hm]
    exact ⟨_,hp.append (course_nil _),rfl,hl',fun h => absurd h hm⟩

lemma form?_span (h : form? e = some .span) :
  e.attribute? "layout" = some "span" ∧ e.has "verbatim" = false ∧ orderOf e = none := by
  rw [form?] at h
  split at h
  · assumption
  split at h
  · split at h
    · cases h
    · split at h <;> cases h
  · cases h

lemma form?_other {f : Form} (h : form? e = some f) (hf : f ≠ .span) : e.attribute? "layout" = none ∧
  (e.has "verbatim" ↔ f = .code) ∧ (f ≠ .code → ((orderOf e).isSome ↔ f = .list)) := by
  rw [form?] at h
  split at h
  · exact absurd (Option.some.inj h).symm hf
  split at h
  · next hl =>
      split at h
      · next hv =>
          cases h
          exact ⟨hl,by simp [hv],fun hne => absurd rfl hne⟩
      · next hv => split at h <;> (next ho => obtain rfl := Option.some.inj h; simp [hl,hv,ho])
  · cases h

lemma frame_span {count idx : Nat} {last : Option String} (hw : Walks w .span c)
  (hf : form? c = some .span) (he : c.attribute? "newlines" = none) (b : Bool) :
  ∃ b', Course ⟨k,k,b⟩ (framed w k none count idx last c (strokes w (inner k none) c)) ⟨k,k,b'⟩ := by
  obtain ⟨⟨depth,level,b'⟩,hc,rfl,-,hl,-⟩ := hw k b (.inl rfl)
  obtain rfl : level = depth := hl rfl
  refine ⟨b',?_⟩
  rw [framed,changeStrokes,if_neg (by simp [(form?_span hf).1]),endStrokes,he]
  simpa [markStrokes,inner] using hc

lemma course_children {es : List Element} {count idx : Nat} {last : Option String} {b : Bool}
  (hes : ∀ c ∈ es, IsMarkdown c ∧ (form? c = some .span ∨ form? c = some .code ∨ IsBlockElement c) ∧
    ∀ f ∈ form? c, Walks w f c) (hcn : idx + es.length = count)
  (hst : b = false ∨ last = some "span" ∨ ∀ c ∈ es, form? c = some .span) :
  ∃ s', Course ⟨k,k,b⟩ (childStrokes w k none count idx last es) s' ∧ s'.depth = k ∧ k ≤ s'.level ∧
    ((∀ c ∈ es, form? c = some .span) → s'.level = k) := by
  induction es generalizing idx last b with
  | nil => exact ⟨_,by rw [childStrokes]; exact course_nil _,rfl,le_rfl,fun _ => rfl⟩
  | cons c es ih =>
    obtain ⟨⟨hc,hfm,hw⟩,hes⟩ := forall_mem_cons.mp hes
    have hr : idx + 1 + es.length = count := by rw [← hcn,length_cons]; omega
    obtain ⟨f,hf,ha⟩ := hc.allowed
    rw [childStrokes]
    by_cases hsp : f = .span
    · subst hsp
      obtain ⟨b',hfr⟩ := frame_span (hw _ hf) hf ha.2.1 b
      have hls : (transition .final last c).1 = some "span" := by
        simp [transition,(form?_span hf).1]
      obtain ⟨s',hcr,hd,hl,hs⟩ := ih hes hr (.inr (.inl hls))
      exact ⟨s',hfr.append hcr,hd,hl,fun h => hs (forall_mem_cons.mp h).2⟩
    obtain ⟨hly,-,-⟩ := form?_other hf hsp
    have ho : form? c ≠ some .span := fun h => hsp (Option.some.inj (hf.symm.trans h))
    have he : (∃ n ∈ c.attribute? "newlines", 0 < feeds n) ∨
        f = .code ∧ (none : Option Bool) = none ∧ c.attribute? "newlines" = none := by
      rcases hfm with hfm | hfm | hb
      · exact absurd hfm ho
      · cases hf.symm.trans hfm
        exact .inr ⟨rfl,rfl,ha.2.2.2.1⟩
      · exact .inl hb.2
    obtain ⟨s₁,hfr,hd1,hl1,hfs⟩ := @frame_item w k c f none count idx last b (hw f hf) hly he (by
        rcases hst with rfl | hls | hs
        · exact .inl ⟨rfl,fun hsm => by cases hsm⟩
        · exact .inr ⟨rfl,hls⟩
        · exact absurd (hs c mem_cons_self) ho)
    cases es with
    | nil =>
      rw [childStrokes,append_nil]
      exact ⟨s₁,hfr,hd1,hl1,fun h => absurd (h c mem_cons_self) ho⟩
    | cons c' es =>
      obtain ⟨s',hcr,hd,hl,-⟩ := @ih (idx + 1) (transition .final last c).1 false hes hr (.inl rfl)
      rw [hfs (by simp at hr; omega)] at hfr
      exact ⟨s',hfr.append hcr,hd,hl,fun h => absurd (h c mem_cons_self) ho⟩

lemma IsBlockElement.other {f : Form} (h : IsBlockElement c) (hf : form? c = some f) : f ≠ .span := by
  rintro rfl
  rcases h.1 with hfr | hfr <;> cases hf.symm.trans hfr

lemma course_members {es : List Element} {ord : Bool} {count idx : Nat}
  (hes : ∀ c ∈ es, IsBlockElement c ∧ ∃ f ∈ form? c, Walks w f c) (hc : idx + es.length = count) :
  ∃ s', Course (.fresh k) (childStrokes w k (some ord) count idx none es) s' ∧ s'.depth = k ∧ k ≤ s'.level := by
  induction es generalizing idx with
  | nil => exact ⟨_,by rw [childStrokes]; exact course_nil _,rfl,le_rfl⟩
  | cons c es ih =>
    obtain ⟨⟨hb,f,hf,hw⟩,hes⟩ := forall_mem_cons.mp hes
    have hr : idx + 1 + es.length = count := by rw [← hc,length_cons]; omega
    obtain ⟨hly,-,-⟩ := form?_other hf (hb.other hf)
    obtain ⟨s₁,hfr,hd1,hl1,hfs⟩ := @frame_item w k c f (some ord) count idx none false hw
      hly (.inl hb.2) (.inl ⟨rfl,fun _ => rfl⟩)
    rw [childStrokes]
    cases es with
    | nil =>
      rw [childStrokes,append_nil]
      exact ⟨s₁,hfr,hd1,hl1⟩
    | cons c' es =>
      have hls : (transition .final none c).1 = none := by simp [transition,hly]
      obtain ⟨s',hcr,hd,hl⟩ := ih hes hr
      rw [hfs (by simp at hr; omega)] at hfr
      rw [hls]
      exact ⟨s',hfr.append hcr,hd,hl⟩

lemma walks_of_markdown : ∀ e, Throughout IsMarkdown e → ∀ f ∈ form? e, Walks w f e := by
  refine Element.byChildren fun e ih he f hf => ?_
  obtain ⟨hh,hk⟩ := throughout_iff.mp he
  obtain ⟨f',hf',ha⟩ := hh.allowed
  cases hf.symm.trans hf'
  have hcn : countToLast e.children = e.children.length :=
    countToLast_eq fun c hc => (throughout_iff.mp (hk c hc)).1.counted
  intro k b hb
  rw [strokes_eq,hcn]
  cases f with
  | code =>
    obtain rfl : b = false := hb.resolve_left (by decide)
    obtain ⟨-,hw,hl,-,-,ht,hlf⟩ := ha
    refine ⟨.fresh k,?_,rfl,le_rfl,fun h => (by cases h),fun _ => rfl⟩
    rw [hlf,ownStrokes,wrapStrokes,hw,hashes,hl]
    obtain ⟨t,ht⟩ := Option.isSome_iff_exists.mp ht
    rw [ht,(form?_other hf (by decide)).2.1.mpr rfl]
    exact Course.cons (by simp [Stand.step?,Stand.fresh]) (course_nil _)
  | span =>
    obtain ⟨-,hs,ho⟩ := form?_span hf
    obtain ⟨⟨depth,level,b'⟩,hcr,rfl,-,hl⟩ := @course_children w k e.children _ 0 none _
      (fun c hc => ⟨(throughout_iff.mp (hk c hc)).1,.inl (ha.2.2 c hc),ih c hc (hk c hc)⟩)
      (Nat.zero_add _) (.inr (.inr ha.2.2))
    obtain rfl : level = depth := hl ha.2.2
    rw [ownStrokes_shown hs,ho]
    exact ⟨_,((course_texts level b _).append hcr).append (course_texts level b' _),rfl,le_rfl,fun _ => rfl,
      fun h => (by cases h)⟩
  | list =>
    obtain rfl : b = false := hb.resolve_left (by decide)
    obtain ⟨hw,hl,ht,hbl⟩ := ha
    obtain ⟨ord,ho⟩ := Option.isSome_iff_exists.mp (((form?_other hf (by decide)).2.2 (by decide)).mpr rfl)
    obtain ⟨s',hcr,hd,hl'⟩ := @course_members w k e.children ord _ 0 (fun c hc => ⟨hbl c hc,by
        obtain ⟨f,hf,-⟩ := (throughout_iff.mp (hk c hc)).1.allowed
        exact ⟨f,hf,ih c hc (hk c hc) f hf⟩⟩) (Nat.zero_add _)
    rw [ownStrokes,wrapStrokes,hw,hashes,hl,ht,ho]
    exact ⟨s',hcr.append (course_nil s'),hd,hl',fun h => (by cases h),fun h => (by cases h)⟩
  | prose =>
    obtain rfl : b = false := hb.resolve_left (by decide)
    obtain ⟨hw,-,hkn,hon⟩ := ha
    obtain ⟨-,hv,ho⟩ := form?_other hf (by decide)
    have hs : e.has "verbatim" = false := by simpa using hv
    have hu : orderOf e = none := by simpa using ho (by decide)
    rw [ownStrokes_shown hs] at hon ⊢
    generalize (e.attribute? "wrap").toList ++ hashes e ++ e.text.toList.map collapse = texts at hon ⊢
    have hst : (false || !texts.isEmpty) = false ∨ (none : Option String) = some "span" ∨
        ∀ c ∈ e.children, form? c = some .span := by
      rcases hon with hon | hsp
      · rw [map_eq_nil_iff.mp hon]
        exact .inl rfl
      · exact .inr (.inr hsp)
    obtain ⟨s',hcr,hd,hl,-⟩ := course_children
      (fun c hc => ⟨(throughout_iff.mp (hk c hc)).1,hkn c hc,ih c hc (hk c hc)⟩) (Nat.zero_add _) hst
    rw [hu,wrapStrokes,hw]
    refine ⟨s',?_,hd,hl,fun h => (by cases h),fun h => (by cases h)⟩
    simpa using (course_texts k false texts).append hcr

end

structure Row where
  start : Nat
  marks : List String := []
  contents : List (Nat × String) := []

namespace Row

def level (r : Row) : Nat := r.start + r.marks.length

def lead (w : Nat) (r : Row) : String := spaces (w * r.start) ++ String.join r.marks

def text (w : Nat) (r : Row) : String := r.lead w ++ String.join (r.contents.map Prod.snd)

def texts (w : Nat) (r : Row) : List String :=
  (if 0 < w * r.start then [spaces (w * r.start)] else []) ++ r.marks ++ r.contents.map Prod.snd

lemma join_texts (w : Nat) (r : Row) : String.join (r.texts w) = r.text w := by
  rw [texts,text,lead,String.join_append]
  split
  · simp [String.join_cons]
  · next hn => rw [Nat.eq_zero_of_not_pos hn]; rfl

def line (d : Edition) (w : Nat) (r : Row) : Element :=
  { tag := d.pieceTag, attributes := [("hanging",.text (toString (w * r.level : Int)))],
    text := some (r.text w) }

end Row

inductive Line
  | row (r : Row)
  | code (s : String)

def Line.elements (d : Edition) (w : Nat) : Line → List Element
  | .row r => [r.line d w]
  | .code s => (displayLines s.toList).map (verbatimLine w d.pieceTag (Stroke.piece d w (.code s)))

def Line.row? : Line → Option Row
  | .row r => some r
  | .code _ => none

structure Page where
  lines : List Line := []
  row : Row := { start := 0 }

def Page.rows (p : Page) : List Row := p.lines.filterMap Line.row? ++ [p.row]

def Page.write (p : Page) : Nat × Stroke → Page
  | (k,.text s) => { p with row := { p.row with contents := p.row.contents ++ [(k,s)] } }
  | (_,.mark s) => { p with row := { p.row with marks := p.row.marks ++ [s] } }
  | (_,.leave) => p
  | (k,.feed n) =>
    { lines := p.lines ++ .row p.row :: replicate (feeds n - 1) (.row { start := k }), row := { start := k } }
  | (_,.code s) => { p with lines := p.lines ++ [.code s] }

section

variable {d : Edition} {w : Nat} {s s' : Stand} {p : Page} {l : Layout}

structure Sits (d : Edition) (w : Nat) (s : Stand) (p : Page) (l : Layout) : Prop where
  done : l.done = p.lines.flatMap (Line.elements d w)
  texts : l.texts = p.row.texts w
  indent : l.indent = w * s.depth
  hanging : l.hanging = w * s.level
  split : l.split = none
  tag : l.tag.getD d.pieceTag = d.pieceTag
  started : l.tag = none → l.texts = []
  level : p.row.level = s.level
  below : s.depth ≤ s.level
  empty : s.begun = false → p.row.contents = []
  said : ∀ r ∈ p.rows, ∀ c ∈ r.contents, c.1 = r.level

lemma add_text (d : Edition) (l : Layout) (t : String) : l.add d (piece d (some t) []) =
    .ok { l with tag := some (l.tag.getD d.pieceTag), texts := l.texts ++ [t] } := rfl

lemma add_indent (d : Edition) (l : Layout) (text : Option String) (n : Int) :
    l.add d (piece d text [("indent",toString n)]) = .ok { l with
      tag := some (l.tag.getD d.pieceTag), indent := l.indent + n, hanging := max l.hanging (l.indent + n)
      texts := l.texts ++ text.toList } := by
  rw [add_eq,Layout.indented,show (piece d text [("indent",toString n)]).attribute? "indent" =
    some (toString n) from rfl]
  dsimp only
  rw [whole_toString_int]
  cases text with
  | none => rw [show (none : Option String).toList = [] from rfl,append_nil]; rfl
  | some s => rfl

lemma add_feed (d : Edition) (l : Layout) {n : String} {m : Int} (hn : whole n = .ok m) :
    l.add d (piece d none [("newlines",n)]) = .ok (Layout.newlines (l.tag.getD d.pieceTag) m.toNat
      { l with tag := some (l.tag.getD d.pieceTag) }) := by
  have he : ∀ l', Layout.ended (l.tag.getD d.pieceTag) (piece d none [("newlines",n)]) l' =
      .ok (l'.newlines (l.tag.getD d.pieceTag) m.toNat) := fun l' => by
    rw [Layout.ended,show (piece d none [("newlines",n)]).attribute? "newlines" = some n from rfl]
    dsimp only
    rw [hn]
    rfl
  exact he _

lemma sits_newline (h : Sits d w s p l) (ht : l.tag = some d.pieceTag) :
    Sits d w (.fresh s.depth) ⟨p.lines ++ [.row p.row],{ start := s.depth }⟩ (l.newline d.pieceTag) := by
  obtain ⟨hd,htx,hi,hh,hs,-,-,hl,-,-,hsd⟩ := h
  refine ⟨?_,?_,hi,hi,rfl,by rw [Layout.newline,ht]; rfl,fun hn => ?_,rfl,le_rfl,fun _ => rfl,?_⟩
  · rw [flatMap_append,← hd]
    simp [Layout.newline,hs,Line.elements,Row.line,htx,Row.join_texts,hh,hl]
  · have hp : l.indent > 0 ↔ 0 < w * s.depth := by rw [hi]; exact_mod_cast Iff.rfl
    have hsp : spacesInt l.indent = spaces (w * s.depth) := by rw [hi]; rfl
    simp only [Layout.newline,Row.texts,hp,hsp,append_nil,map_nil]
  · cases ht.symm.trans hn
  · rw [Page.rows,filterMap_append,forall_mem_append,forall_mem_singleton]
    exact ⟨hsd,forall_mem_nil _⟩

lemma sits_newlines {k n : Nat} (h : Sits d w (.fresh k) p l) (ht : l.tag = some d.pieceTag)
    (hrw : p.row = { start := k }) :
    Sits d w (.fresh k) { p with lines := p.lines ++ replicate n (.row { start := k }) }
      (l.newlines d.pieceTag n) := by
  induction n generalizing l p with
  | zero => simpa [Layout.newlines] using h
  | succ n ih =>
    have hn := sits_newline h ht
    have hr := ih hn ht rfl
    rw [Layout.newlines,replicate_succ]
    simpa [hrw,Stand.fresh] using hr

lemma filled_code (d : Edition) (w : Int) (tag t : String) (he : l.texts = []) :
    Layout.filled d tag (Stroke.piece d w (.code t)) l =
      .ok { l with
        done := l.done ++
          (displayLines t.toList).map (verbatimLine w tag (Stroke.piece d w (.code t))) } := by
  have hw : (Stroke.piece d w (.code t)).attribute? "indentFixed" = some (toString w) := rfl
  show Layout.verbatim d l tag t (Stroke.piece d w (.code t)) = _
  unfold Layout.verbatim
  rw [if_neg (by simp [he]),hw]
  dsimp only
  rw [whole_toString_int]
  show Except.ok _ = _
  rw [map_map]
  rfl

lemma add_code_eq (d : Edition) (w : Int) (l : Layout) (t : String) : l.add d (Stroke.piece d w (.code t)) = (do
    let l2 ← Layout.filled d (l.tag.getD d.pieceTag) (Stroke.piece d w (.code t))
      { l with tag := some (l.tag.getD d.pieceTag) }
    Layout.ended (l.tag.getD d.pieceTag) (Stroke.piece d w (.code t)) l2) := add_eq d l _

lemma add_code (d : Edition) (w : Int) (t : String) (he : l.texts = []) :
    l.add d (Stroke.piece d w (.code t)) = .ok { l with
      tag := some (l.tag.getD d.pieceTag)
      done := l.done ++ (displayLines t.toList).map
        (verbatimLine w (l.tag.getD d.pieceTag) (Stroke.piece d w (.code t))) } := by
  rw [add_code_eq,@filled_code { l with tag := some (l.tag.getD d.pieceTag) } d w _ t he]
  rfl

lemma sits_step {x : Nat × Stroke} (h : Sits d w s p l) (hst : s.step? x = some s')
  (hcd : ∀ t, x.2 = .code t → x.1 = 0) : ∃ l', l.add d (x.2.piece d w) = .ok l' ∧
  Sits d w s' (p.write x) l' := by
  obtain ⟨k,stroke⟩ := x
  obtain ⟨hd,ht,hi,hh,hs,htg,hstd,hl,hb,he,hsd⟩ := h
  obtain ⟨hfn,hsy⟩ := forall_mem_append.mp hsd
  rw [forall_mem_singleton] at hsy
  cases stroke with
  | text t =>
    obtain ⟨⟨rfl,hsm⟩,rfl⟩ : (s.depth = k ∧ s.level = k) ∧ ⟨k,k,true⟩ = s' := by
      simpa [Stand.step?] using hst
    rw [hsm] at hh hl
    refine ⟨_,add_text d l t,hd,?_,hi,hh,hs,htg,fun h => (by cases h),hl,le_rfl,
      fun h => (by cases h),forall_mem_append.mpr ⟨hfn,forall_mem_singleton.mpr ?_⟩⟩
    · simp [Row.texts,Page.write,ht]
    · exact forall_mem_append.mpr ⟨hsy,forall_mem_singleton.mpr hl.symm⟩
  | mark m =>
    obtain ⟨rfl,rfl⟩ : s = .fresh k ∧ .fresh (k + 1) = s' := by simpa [Stand.step?] using hst
    have hdp : l.indent + w = w * (k + 1 : Nat) := by rw [hi,Nat.cast_succ,mul_add,mul_one]; rfl
    refine ⟨_,add_indent d l (some m) w,hd,?_,hdp,?_,hs,htg,fun h => (by cases h),?_,le_rfl,
      fun _ => he rfl,forall_mem_append.mpr ⟨hfn,forall_mem_singleton.mpr ?_⟩⟩
    · simp [Row.texts,Page.write,ht,he rfl]
    · dsimp only
      rw [hdp,hh]
      exact max_eq_right (by exact_mod_cast Nat.mul_le_mul_left w (Nat.le_succ k))
    · show p.row.start + (p.row.marks ++ [m]).length = k + 1
      rw [length_append]
      exact congrArg (· + 1) hl
    · rw [show (p.write (k,.mark m)).row.contents = [] from he rfl]
      exact forall_mem_nil _
  | leave =>
    obtain ⟨hdt,rfl⟩ : s.depth = k + 1 ∧ { s with depth := k } = s' := by simpa [Stand.step?] using hst
    have hlw : l.indent + (0 - w) = w * (k : Nat) := by rw [hi,hdt,Nat.cast_succ]; ring
    refine ⟨_,add_indent d l none (0 - w),hd,?_,hlw,?_,hs,htg,fun h => (by cases h),hl,?_,he,hsd⟩
    · simpa [Page.write] using ht
    · dsimp only
      rw [hlw,hh]
      exact max_eq_left (by exact_mod_cast Nat.mul_le_mul_left w (by omega))
    · show k ≤ s.level
      omega
  | feed n =>
    obtain ⟨⟨rfl,hf⟩,rfl⟩ : (s.depth = k ∧ 0 < feeds n) ∧ .fresh k = s' := by simpa [Stand.step?] using hst
    obtain ⟨m,hm⟩ : ∃ m, whole n = .ok m := by
      rw [feeds] at hf
      cases hn : whole n with
      | error fault => rw [hn] at hf; cases hf
      | ok m => exact ⟨m,rfl⟩
    have hc : m.toNat = feeds n - 1 + 1 := by
      rw [Nat.sub_add_cancel hf,feeds,hm]
      rfl
    have hfr := @sits_newline d w s p { l with tag := some d.pieceTag } ⟨hd,ht,hi,hh,hs,rfl,
      fun h => (by cases h),hl,hb,he,hsd⟩ rfl
    refine ⟨_,add_feed d l hm,?_⟩
    rw [hc,htg]
    simpa [Page.write,Layout.newlines] using @sits_newlines d w _ _ _ (feeds n - 1) hfr rfl rfl
  | code t =>
    obtain ⟨rfl,rfl⟩ : s = .fresh k ∧ s = s' := by simpa [Stand.step?] using hst
    obtain rfl : k = 0 := hcd t rfl
    have hnn : l.texts = [] := by
      obtain ⟨hsr,hmr⟩ := Nat.add_eq_zero_iff.mp hl
      rw [ht,Row.texts,hsr,length_eq_zero_iff.mp hmr,he rfl]
      rfl
    refine ⟨_,add_code d w t hnn,?_,ht,hi,hh,hs,htg,fun _ => hnn,hl,le_rfl,he,?_⟩
    · rw [Page.write,flatMap_append,← hd,htg]
      simp [Line.elements]
    · rw [Page.write,Page.rows,filterMap_append,show [Line.code t].filterMap Line.row? = [] from rfl,append_nil]
      exact hsd

lemma sits_run {ss : List (Nat × Stroke)} (h : Sits d w s p l) (hc : Course s ss s')
  (hcd : ∀ x ∈ ss, ∀ t, x.2 = .code t → x.1 = 0) :
  ∃ l', (written d w ss).foldlM (Layout.add d) l = .ok l' ∧ Sits d w s' (ss.foldl Page.write p) l' := by
  induction ss generalizing s p l with
  | nil =>
    cases hc
    exact ⟨l,rfl,h⟩
  | cons x ss ih =>
    obtain ⟨hx,hss⟩ := forall_mem_cons.mp hcd
    obtain ⟨s₁,hst,hr⟩ := Option.bind_eq_some_iff.mp hc
    obtain ⟨l1,ha,hs⟩ := sits_step h hst hx
    obtain ⟨l',hrn,hs'⟩ := ih hs hr hss
    refine ⟨l',?_,hs'⟩
    rw [written,map_cons,foldlM_cons,ha]
    exact hrn

def Page.elements (d : Edition) (w : Nat) (p : Page) : List Element :=
  p.lines.flatMap (Line.elements d w) ++
    if (p.row.texts w).isEmpty then [] else [(p.row.line d w).set "bareLine" (isTrue true)]

lemma Sits.close (h : Sits d w s p l) : l.close = p.elements d w := by
  obtain ⟨hd,ht,-,hh,-,htg,hs,hlv,-,-,-⟩ := h
  rw [Layout.close,Page.elements,← hd,← ht]
  cases hl : l.tag with
  | none => rw [hs hl]; simp
  | some tag =>
    rw [hl] at htg
    obtain rfl : tag = d.pieceTag := htg
    dsimp only
    split
    · simp
    · rw [hh,ht,Row.join_texts,← hlv]
      rfl

end

section

variable {d : Edition} {w : Nat} {tree e : Element}

def pageOf (w : Nat) (tree : Element) : Page := (strokes w 0 tree).foldl Page.write {}

def saidOf : Nat × Stroke → List (Nat × String)
  | (k,.text s) => [(k,s)]
  | _ => []

def markedOf : Nat × Stroke → List String
  | (_,.mark m) => [m]
  | _ => []

lemma rows_write (p : Page) (x : Nat × Stroke) :
  (p.write x).rows.flatMap Row.contents = p.rows.flatMap Row.contents ++ saidOf x ∧
    (p.write x).rows.flatMap Row.marks = p.rows.flatMap Row.marks ++ markedOf x := by
  obtain ⟨k,stroke⟩ := x
  cases stroke <;> simp [Page.write,Page.rows,saidOf,markedOf,Line.row?]

lemma rows_pageOf (p : Page) (ss : List (Nat × Stroke)) :
  (ss.foldl Page.write p).rows.flatMap Row.contents = p.rows.flatMap Row.contents ++ ss.flatMap saidOf ∧
    (ss.foldl Page.write p).rows.flatMap Row.marks = p.rows.flatMap Row.marks ++ ss.flatMap markedOf := by
  induction ss generalizing p with
  | nil => simp
  | cons x ss ih =>
    obtain ⟨hc,hm⟩ := rows_write p x
    rw [foldl_cons,(ih _).1,(ih _).2,hc,hm]
    simp

lemma IsMarkdown.readable (h : IsMarkdown e) : Readable e := by
  obtain ⟨-,f,hf,ha⟩ := h
  cases f with
  | span =>
    obtain ⟨hl,-,-⟩ := ha
    refine ⟨fun s hs => (by cases hl.symm.trans hs),fun hv => ?_⟩
    rw [(form?_span hf).2.1] at hv
    cases hv
  | code => exact ⟨fun s hs => (by cases ha.2.2.1.symm.trans hs),fun _ => ha.1⟩
  | list =>
    refine ⟨fun s hs => (by cases ha.2.1.symm.trans hs),fun hv => ?_⟩
    cases (form?_other hf (by decide)).2.1.mp hv
  | prose =>
    refine ⟨fun s hs => ?_,fun hv => ?_⟩
    · have hw := ha.2.1 s hs
      rw [whole]
      cases hs : whole? s with
      | none => rw [hs] at hw; cases hw
      | some n => exact ⟨n,rfl⟩
    · cases (form?_other hf (by decide)).2.1.mp hv

def CodeInList (tree : Element) : Prop :=
  ∃ l ∈ tree :: tree.descendants, (orderOf l).isSome = true ∧ ∃ x ∈ l :: l.descendants, x.has "verbatim" = true

instance (tree : Element) : Decidable (CodeInList tree) := inferInstanceAs (Decidable (∃ _ ∈ _, _))

lemma CodeInList.child {c : Element} (hc : c ∈ e.children) (h : CodeInList c) : CodeInList e := by
  obtain ⟨l,hl,hi⟩ := h
  refine ⟨l,mem_cons_of_mem _ ?_,hi⟩
  rw [descendants_eq]
  exact mem_flatMap.mpr ⟨c,hc,hl⟩

section

variable {w : Int} {k k' : Nat} {t : String}

lemma verbatim_of_code (h : (k',.code t) ∈ strokes w k e) : ∃ x ∈ e :: e.descendants, x.has "verbatim" := by
  by_contra hn
  have ha : Throughout (fun x => x.has "verbatim" = false) e := fun x hx => by
    simpa using fun hv => hn ⟨x,hx,hv⟩
  refine forall_strokes (P := fun s => s ≠ .code t) ⟨fun x hx s hs => ?_,?_,?_,?_,?_⟩ k ha _ h rfl
  · rw [ownStrokes_shown hx] at hs
    obtain ⟨s,-,rfl⟩ := mem_map.mp hs
    simp
  all_goals simp

lemma strokes_subset_childStrokes {order : Option Bool} {count idx : Nat} {last : Option String}
    {es : List Element}
  {c : Element} (hc : c ∈ es) :
  strokes w (inner k order) c ⊆ childStrokes w k order count idx last es := by
  induction es generalizing idx last with
  | nil => cases hc
  | cons c' es ih =>
    intro x hx
    rw [childStrokes,mem_append]
    rcases mem_cons.mp hc with rfl | hc
    · exact .inl (mem_append_left _ (mem_append_right _ hx))
    · exact .inr (ih hc hx)

lemma code_of_childStrokes {order : Option Bool} {count idx : Nat} {last : Option String}
    {es : List Element}
  (h : (k',.code t) ∈ childStrokes w k order count idx last es) :
  ∃ c ∈ es, (k',.code t) ∈ strokes w (inner k order) c := by
  induction es generalizing idx last with
  | nil => simp [childStrokes] at h
  | cons c es ih =>
    rw [childStrokes,mem_append] at h
    rcases h with h | h
    · refine ⟨c,mem_cons_self,?_⟩
      simp only [framed,map_append,mem_append] at h
      rcases h with ((h | h) | h) | h | h
      · simp [markStrokes] at h
      · rw [changeStrokes] at h
        split at h <;> simp at h
      · exact h
      · split at h <;> simp at h
      · rw [endStrokes] at h
        split at h <;> simp at h
    · obtain ⟨c',hc',h⟩ := ih h
      exact ⟨c',mem_cons_of_mem _ hc',h⟩

lemma depth_of_code : ∀ e k, (k',.code t) ∈ strokes w k e → k' = k ∨ CodeInList e := by
  refine Element.byChildren fun e ih k h => ?_
  rw [strokes_eq,mem_append,mem_append] at h
  rcases h with (h | h) | h
  · obtain ⟨s,-,hs⟩ := mem_map.mp h
    exact .inl (Prod.mk.inj hs).1.symm
  · obtain ⟨c,hc,h⟩ := code_of_childStrokes h
    cases ho : orderOf e with
    | none =>
      rw [ho] at h
      exact (ih c hc k h).imp_right (CodeInList.child hc)
    | some ord =>
      obtain ⟨x,hx,hv⟩ := verbatim_of_code h
      refine .inr ⟨e,mem_cons_self,by rw [ho]; rfl,x,mem_cons_of_mem _ ?_,hv⟩
      rw [descendants_eq]
      exact mem_flatMap.mpr ⟨c,hc,hx⟩
  · obtain ⟨s,-,hs⟩ := mem_map.mp h
    exact .inl (Prod.mk.inj hs).1.symm

end

lemma sits_start (d : Edition) (w : Nat) : Sits d w (.fresh 0) {} {} := by
  refine ⟨rfl,by simp [Row.texts],(mul_zero _).symm,(mul_zero _).symm,rfl,rfl,fun _ => rfl,rfl,le_rfl,fun _ => rfl,
    forall_mem_singleton.mpr (forall_mem_nil _)⟩

lemma toExcept_layOutFrom (l : Layout) (es : List Element) :
  (layOutFrom d l es none).toExcept = (es.foldlM (Layout.add d) l).map Layout.close := by
  induction es generalizing l with
  | nil => rfl
  | cons e es ih =>
    rw [layOutFrom,foldlM_cons]
    cases l.add d e with
    | error fault => rfl
    | ok l1 => exact ih l1

lemma length_paddedMark {ord : Bool} {i : Nat} (hw : 1 < w) (hi : ord → i + 1 < 10 ^ (w - 1)) :
  (paddedMark w ord i).length = w := by
  have hm := length_markText_le hw hi
  rw [paddedMark,String.length_append,spacesInt,spaces,String.length_ofList,length_replicate]
  omega

lemma Row.length_lead {r : Row} (h : ∀ m ∈ r.marks, m.length = w) : (r.lead w).length = w * r.level := by
  have hj : (String.join r.marks).length = w * r.marks.length := by
    generalize r.marks = ms at h
    induction ms with
    | nil => rfl
    | cons m ms ih =>
      obtain ⟨hm,hmr⟩ := forall_mem_cons.mp h
      rw [String.join_cons,String.length_append,hm,ih hmr,length_cons,Nat.mul_succ,Nat.add_comm]
  rw [lead,level,String.length_append,hj,Nat.mul_add,spaces,String.length_ofList,length_replicate]

def ShortLists (w : Nat) (e : Element) : Prop := orderOf e = some true → e.children.length < 10 ^ (w - 1)

instance (w : Nat) : DecidablePred (ShortLists w) := fun _ => inferInstanceAs (Decidable (_ → _))

lemma forall_marks {Q : Element → Prop} {P : String → Prop} (h : ∀ e, Q e → ∀ ord i, orderOf e = some ord →
  i < e.children.length → P (paddedMark w ord i)) (hl : Throughout Q tree) :
  ∀ r ∈ (pageOf w tree).rows, ∀ m ∈ r.marks, P m := by
  have hg : Supplies w Q fun s => ∀ m, s = .mark m → P m := by
    refine ⟨fun e _ s hs m hm => ?_,fun e he ord i ho hi m hm => ?_,by simp,by simp,by simp⟩
    · subst hm
      simp only [ownStrokes,wrapStrokes,mem_append,mem_map] at hs
      obtain (⟨_,-,hs⟩ | ⟨_,-,hs⟩) | ⟨_,-,hs⟩ := hs
      · cases hs
      · cases hs
      · split at hs <;> cases hs
    · obtain rfl := Stroke.mark.inj hm
      exact h e he ord i ho hi
  intro r hr m hm
  have hmm : m ∈ (pageOf w tree).rows.flatMap Row.marks := mem_flatMap.mpr ⟨r,hr,hm⟩
  rw [pageOf,(rows_pageOf {} (strokes w 0 tree)).2] at hmm
  obtain ⟨⟨k,stroke⟩,hx,hm⟩ := mem_flatMap.mp hmm
  cases stroke with
  | mark m' =>
    obtain rfl := mem_singleton.mp hm
    exact forall_strokes hg 0 hl _ hx m rfl
  | text | leave | feed | code => cases hm

lemma course_tree (w : Nat) (htr : Throughout IsMarkdown tree) (hf : form? tree = some .prose) :
  ∃ s, Course (.fresh 0) (strokes w 0 tree) s ∧ s.depth = 0 ∧
    (¬ CodeInList tree → ∀ x ∈ strokes w 0 tree, ∀ t, x.2 = .code t → x.1 = 0) ∧
    pieces .final w tree = .ofList (written .final w (strokes w 0 tree)) := by
  obtain ⟨s,hcr,hd,-⟩ := @walks_of_markdown w tree htr .prose hf 0 false (.inr rfl)
  refine ⟨s,hcr,hd,fun hc x hx t ht => ?_,
    pieces_strokes .final w (Int.natCast_nonneg w) 0 fun x hx => (htr x hx).readable⟩
  exact (@depth_of_code w x.1 t tree 0 (by rw [← ht]; exact hx)).resolve_right hc

theorem lines_hang_at_list_depth (hw : 1 < w) (htree : Throughout IsMarkdown tree)
    (hform : form? tree = some .prose)
    (hlists : Throughout (ShortLists w) tree) (hcode : ¬ CodeInList tree) :
    ∃ made laid, (pieces .final w tree).toExcept = .ok made ∧
      (logicalLines .final (.ofList made)).toExcept = .ok ((pageOf w tree).elements .final w) ∧
      (pageOf w tree).rows.flatMap Row.contents = (strokes w 0 tree).flatMap saidOf ∧
      (∀ r ∈ (pageOf w tree).rows, (r.lead w).length = w * r.level ∧
        (∀ c ∈ r.contents, c.1 = r.level) ∧
        ∀ m ∈ r.marks, ∃ ordered i, m = paddedMark w ordered i) ∧
      (∀ front, front <+: made → ∃ l, front.foldlM (Layout.add .final) {} = .ok l ∧ 0 ≤ l.indent) ∧
      made.foldlM (Layout.add .final) {} = .ok laid ∧ laid.indent = 0 := by
  obtain ⟨s, hcourse, hdepth, hflat, hpieces⟩ := course_tree w htree hform
  obtain ⟨laid, hlaid, hsits⟩ := sits_run (sits_start .final w) hcourse (hflat hcode)
  refine ⟨written .final w (strokes w 0 tree), laid,
    by rw [hpieces]; rfl, ?_, (rows_pageOf {} (strokes w 0 tree)).1, fun r hr => ?_,
    fun front hfront => ?_, hlaid, ?_⟩
  · rw [logicalLines, Stream.ofList, toExcept_layOutFrom, hlaid, pageOf, ← hsits.close]
    rfl
  · have hmark : ∀ m ∈ r.marks, m.length = w ∧ ∃ ordered i, m = paddedMark w ordered i :=
      forall_marks (fun e he ordered i ho hi =>
        ⟨length_paddedMark hw fun h => lt_of_le_of_lt hi (he (h ▸ ho)), ordered, i,
        rfl⟩) hlists r hr
    exact ⟨Row.length_lead fun m hm => (hmark m hm).1, hsits.said r hr, fun m hm => (hmark m hm).2⟩
  · obtain ⟨before, hpre, rfl⟩ := prefix_map_iff.mp hfront
    obtain ⟨after, hstrokes⟩ := hpre
    replace hflat := hflat hcode
    rw [← hstrokes] at hcourse hflat
    obtain ⟨s₁, hcourse₁, -⟩ := hcourse.before
    obtain ⟨l, hl, hsits₁⟩ := sits_run (sits_start .final w) hcourse₁ (forall_mem_append.mp hflat).1
    refine ⟨l, hl, ?_⟩
    rw [hsits₁.indent]
    positivity
  · rw [hsits.indent, hdepth]
    simp

def depthsTree : Element :=
  blockOf "markdown" [] [blockOf "header" [("level","1"),("newlines","1")] [spanOf "Depths"],
    { blockOf "block_code" [("verbatim","block")] [] with text := some "deep()" },
    blockOf "list" [("newlines","2"),("ordered","True")]
      [blockOf "list_item" [("newlines","1")] [spanOf "one",blockOf "list" [("newlines","2"),("ordered","False")]
          [blockOf "list_item" [("newlines","2")] [blockOf "paragraph" [("newlines","2")] [spanOf "two"]],
            blockOf "list_item" [("newlines","2")] [spanOf "too"]]],
        blockOf "list_item" [("newlines","1")] [blockOf "list" [("newlines","2"),("ordered","False")]
          [blockOf "list_item" [("newlines","1")] []]]]]

lemma depthsTree_markdown : Throughout IsMarkdown depthsTree := fun x => by
  revert x
  decide +kernel

lemma depthsTree_short : Throughout (ShortLists 4) depthsTree := fun x => by
  revert x
  decide +kernel

lemma depthsTree_free : ¬ CodeInList depthsTree := by decide +kernel

theorem lines_hang_at_depths :
    (Throughout IsMarkdown depthsTree ∧ Throughout (ShortLists 4) depthsTree ∧
      ¬ CodeInList depthsTree) ∧
      (∃ made, (pieces .final 4 depthsTree).toExcept = .ok made ∧
        (logicalLines .final (.ofList made)).toExcept =
          .ok ((pageOf 4 depthsTree).elements .final 4)) ∧
      (pageOf 4 depthsTree).rows.map (fun r => (r.level, r.text 4)) =
        [(0, "# Depths"), (1, "1.  one"), (2, "    -   two"), (1, "    "), (2, "    -   too"),
          (2, "2.  -   ")] := by
  obtain ⟨made, -, hmade, hlines, -⟩ := lines_hang_at_list_depth (by decide) depthsTree_markdown
    (by decide +kernel)
    depthsTree_short depthsTree_free
  exact ⟨⟨depthsTree_markdown, depthsTree_short, depthsTree_free⟩, ⟨made, hmade, hlines⟩, by decide +kernel⟩

end

end Docweave.Tree
