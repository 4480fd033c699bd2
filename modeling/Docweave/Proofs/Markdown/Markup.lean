import Docweave.Proofs.Base.Places
import Docweave.Proofs.Jobs.Runs
import Docweave.Proofs.Markdown.CommandWords

namespace Docweave

open List

namespace Act

variable {σ τ α β : Type} {Q : α → Prop}

def Agree (I : σ → Prop) (a b : Act σ α) (Q : α → Prop) : Prop :=
  ∀ s, I s → b.perform s = a.perform s ∧ ∀ x s', a.perform s = (.ok x,s') → I s' ∧ Q x

abbrev Yields (a : Act σ α) (Q : α → Prop) : Prop := Agree (fun _ => True) a a Q

variable {I : σ → Prop}

lemma agree_pure {x : α} (h : Q x) : Agree I (pure x) (pure x) Q := by
  refine fun s hs => ⟨rfl,fun y s' hy => ?_⟩
  obtain ⟨rfl,rfl⟩ := pure_ok hy
  exact ⟨hs,h⟩

lemma agree_fail (err : Fault) : Agree I (fail err) (fail err) Q :=
  fun _ _ => ⟨rfl,fun _ _ h => by cases h⟩

lemma Agree.bind {a b : Act σ α} {f g : α → Act σ β} {P : α → Prop} {Q : β → Prop} (ha : Agree I a b P)
  (hf : ∀ x, P x → Agree I (f x) (g x) Q) : Agree I (a >>= f) (b >>= g) Q := by
  intro s hs
  obtain ⟨he,ha⟩ := ha s hs
  rw [perform_bind_eq,perform_bind_eq,he]
  rcases hp : a.perform s with ⟨x | x,s1⟩
  · exact ⟨rfl,fun _ _ h => by cases h⟩
  · obtain ⟨hs,hx⟩ := ha x s1 hp
    exact hf x hx s1 hs

lemma agree_ofExcept {a : Except Fault α} (h : ∀ x, a = .ok x → Q x) : Agree I (ofExcept a) (ofExcept a) Q := by
  cases a with
  | error err => exact agree_fail err
  | ok x => exact agree_pure (h x rfl)

lemma Agree.within {K : τ → Prop} {get : τ → σ} {set : σ → τ → τ} {a b : Act σ α} (h : Agree I a b Q)
  (hg : ∀ t, K t → I (get t)) (hs : ∀ t s, K t → I s → K (set s t)) :
  Agree K (a.within get set) (b.within get set) Q := by
  intro t ht
  obtain ⟨he,ha⟩ := h _ (hg t ht)
  have hr (c : Act σ α) : (c.within get set).perform t =
    ((c.perform (get t)).1,set (c.perform (get t)).2 t) := rfl
  rw [hr,hr,he]
  refine ⟨rfl,fun x t' hx => ?_⟩
  obtain ⟨hx,rfl⟩ := Prod.ext_iff.mp hx
  obtain ⟨hI,hQ⟩ := ha x _ (Prod.ext hx rfl)
  exact ⟨hs t _ ht hI,hQ⟩

end Act

namespace Markup

open Act

variable {ρ α : Type} {T : Token → Prop} {P : α → Prop}

def All (P : α → Prop) (xs : List α) : Prop := ∀ x ∈ xs, P x

lemma All.append {xs ys : List α} (hx : All P xs) (hy : All P ys) : All P (xs ++ ys) := by
  intro z hz
  rcases mem_append.mp hz with hz | hz
  · exact hx z hz
  · exact hy z hz

lemma all_nil : All P ([] : List α) := by
  intro x hx
  cases hx

def On (T : Token → Prop) (J : ρ → Prop) (s : Session ρ) : Prop := All T s.reader.todo ∧ J s.env

variable {J : ρ → Prop}

section

lemma agree_hook {a b : Act ρ (List α)} {R : List α → Prop} (h : Agree J a b R) :
    Agree (On T J) (hook a) (hook b) R :=
  h.within (fun _ hs => hs.2) fun _ _ hs he => ⟨hs.1,he⟩

lemma agree_getReader : Agree (On T J) getReader getReader fun _ => True := by
  refine fun s hs => ⟨rfl,fun x s' h => ?_⟩
  obtain rfl : s = s' := (Prod.mk.inj h).2
  exact ⟨hs,trivial⟩

lemma agree_changeReader {f : Reader → Reader} (hf : ∀ r, All T r.todo → All T (f r).todo) :
  Agree (On T J) (changeReader f) (changeReader f) fun _ => True := by
  refine fun s hs => ⟨rfl,fun x s' h => ?_⟩
  obtain rfl : { s with reader := f s.reader } = s' := (Prod.mk.inj h).2
  exact ⟨⟨hf _ hs.1,hs.2⟩,trivial⟩

lemma agree_takeFootnote (key : String) : Agree (On T J) (takeFootnote key)
    (takeFootnote key) fun _ => True := by
  refine agree_getReader.bind fun reader _ => ?_
  split
  · exact (agree_changeReader (by exact fun _ h => h)).bind fun _ _ => agree_pure trivial
  · exact agree_pure trivial

lemma agree_pop? : Agree (On T J) pop? pop? fun out => ∀ t, out = some t → T t := by
  refine fun s hs => ⟨rfl,fun x s' h => ?_⟩
  obtain ⟨reader,s1,hrd,h⟩ := Act.bind_ok h
  obtain ⟨rfl,rfl⟩ : s.reader = reader ∧ s = s1 :=
    ⟨Except.ok.inj (Prod.mk.inj hrd).1,(Prod.mk.inj hrd).2⟩
  obtain ⟨ht,hj⟩ := hs
  cases htd : s.reader.todo with
  | nil =>
    rw [htd] at h
    obtain ⟨rfl,rfl⟩ := pure_ok h
    exact ⟨⟨ht,hj⟩,by simp⟩
  | cons t ts =>
    rw [htd] at h
    obtain ⟨u,s2,hc,h⟩ := Act.bind_ok h
    obtain ⟨rfl,rfl⟩ := pure_ok h
    obtain rfl : { s with reader := { s.reader with todo := ts } } = s2 := (Prod.mk.inj hc).2
    rw [htd] at ht
    obtain ⟨ht,hts⟩ := forall_mem_cons.mp ht
    exact ⟨⟨hts,hj⟩,fun t' ht' => Option.some.inj ht' ▸ ht⟩

lemma agree_pop : Agree (On T J) pop pop T := by
  refine agree_pop?.bind fun out ho => ?_
  cases out with
  | none => exact agree_fail _
  | some t => exact agree_pure (ho t rfl)

lemma agree_gatherText (fuel : Nat) (s : String) :
  Agree (On T J) (gatherText fuel s) (gatherText fuel s) fun _ => True := by
  induction fuel generalizing s with
  | zero => exact agree_pure trivial
  | succ fuel ih =>
    refine agree_getReader.bind fun reader _ => ?_
    split
    · exact agree_fail _
    · exact agree_pop.bind fun _ _ => ih _
    · exact agree_pure trivial

end

structure Renderer.KeepsSpans (r r' : Renderer ρ α) (J : ρ → Prop) (P : α → Prop) : Prop where
  stray : ∀ c, r'.stray c = r.stray c ∧ P (r.stray c)
  reference : ∀ f, Agree J (r.reference f) (r'.reference f) (All P)
  autolink : ∀ link mail, Agree J (r.autolink link mail) (r'.autolink link mail) (All P)
  codeSpan : ∀ text, Agree J (r.codeSpan text) (r'.codeSpan text) (All P)
  strong : ∀ body, All P body → Agree J (r.strong body) (r'.strong body) (All P)
  emphasis : ∀ body, All P body → Agree J (r.emphasis body) (r'.emphasis body) (All P)
  text : ∀ text, Agree J (r.text text) (r'.text text) (All P)
  html : ∀ text, Agree J (r.html text) (r'.html text) (All P)

structure Renderer.Preserves (r r' : Renderer ρ α) (J : ρ → Prop) (T : Token → Prop) (P : α → Prop) : Prop
    extends r.KeepsSpans r' J P where
  blockCode : ∀ text language, T (.code text language) →
    Agree J (r.blockCode text language) (r'.blockCode text language) (All P)
  header : ∀ body level text, All P body → Agree J (r.header body level text) (r'.header body level text) (All P)
  list : ∀ body ordered, All P body → Agree J (r.list body ordered) (r'.list body ordered) (All P)
  member : ∀ body, All P body → Agree J (r.member body) (r'.member body) (All P)
  paragraph : ∀ body, All P body → Agree J (r.paragraph body) (r'.paragraph body) (All P)
  newline : Agree J r.newline r'.newline (All P)

section

variable {r r' : Renderer ρ α} (hr : r.KeepsSpans r' J P) {inner inner' : List Char → Act (Session ρ) (List α)}

include hr

lemma strays (s : String) : s.toList.map r'.stray = s.toList.map r.stray ∧ All P (s.toList.map r.stray) :=
  ⟨map_congr_left fun c _ => (hr.stray c).1,forall_mem_map.mpr fun c _ => (hr.stray c).2⟩

lemma agree_applyRule (hi : ∀ cs, Agree (On T J) (inner cs) (inner' cs) (All P))
    (rule : InlineRule) (f : Found) :
  Agree (On T J) (applyRule r inner rule f) (applyRule r' inner' rule f) fun out => ∀ xs,
    out = some xs → All P xs := by
  have hs {a b : Act (Session ρ) (List α)} (ha : Agree (On T J) a b (All P)) :
      Agree (On T J) (some <$> a) (some <$> b) fun out => ∀ xs, out = some xs → All P xs :=
    ha.bind fun xs hxs => agree_pure fun ys hys => Option.some.inj hys ▸ hxs
  have hst (s : String) : Agree (On T J) (pure (some (s.toList.map r.stray)))
    (pure (some (s.toList.map r'.stray)))
      fun out => ∀ xs, out = some xs → All P xs := by
    obtain ⟨he,ha⟩ := strays hr s
    rw [he]
    exact agree_pure fun ys hys => Option.some.inj hys ▸ ha
  have hn : Agree (On T J) (pure none) (pure none) fun out => ∀ xs, out = some xs → All P xs :=
    agree_pure fun _ h => nomatch h
  have hrf : Agree (On T J) (refuseLink inner f) (refuseLink inner' f) (All P) := by
    rw [refuseLink,refuseLink]
    split
    · exact agree_fail _
    · exact (agree_changeReader (by exact fun _ h => h)).bind fun _ _ => (hi _).bind fun _ _ =>
        (agree_changeReader (by exact fun _ h => h)).bind fun _ _ => agree_fail _
  cases rule with
  | escaped => exact hst _
  | reference => exact hs (agree_hook (hr.reference f))
  | html => exact hs (agree_hook (hr.html _))
  | autolink => exact hs (agree_hook (hr.autolink _ _))
  | url =>
    refine agree_getReader.bind fun reader _ => ?_
    split
    · exact hs (agree_hook (hr.text _))
    · exact hs (agree_hook (hr.autolink _ _))
  | footnote =>
    refine (agree_takeFootnote _).bind fun index _ => ?_
    cases index with
    | none => exact hn
    | some index => exact hst _
  | link => exact hs hrf
  | referenceLink =>
    refine agree_getReader.bind fun reader _ => ?_
    split
    · exact hs hrf
    · exact hn
  | shortLink =>
    refine agree_getReader.bind fun reader _ => ?_
    split
    · exact hs hrf
    · exact hn
  | strong => exact (hi _).bind fun body hb => hs (agree_hook (hr.strong body hb))
  | emphasis => exact (hi _).bind fun body hb => hs (agree_hook (hr.emphasis body hb))
  | code => exact hs (agree_hook (hr.codeSpan _))
  | hardBreak => exact agree_fail _
  | strikethrough => exact (hi _).bind fun _ _ => agree_fail _
  | text => exact hs (agree_hook (hr.text _))

lemma agree_firstRule (hi : ∀ cs, Agree (On T J) (inner cs) (inner' cs) (All P)) (cs : List Char)
  (rules : List InlineRule) : Agree (On T J) (firstRule r inner cs rules)
  (firstRule r' inner' cs rules) fun out => ∀ p, out = some p → All P p.1 := by
  induction rules with
  | nil => exact agree_pure fun _ h => nomatch h
  | cons rule rules ih =>
    rw [firstRule,firstRule]
    split
    · exact ih
    · refine (agree_applyRule hr hi rule _).bind fun out ho => ?_
      cases out with
      | none => exact ih
      | some xs => exact agree_pure fun p hp => Option.some.inj hp ▸ ho xs rfl

lemma agree_spansFrom (fuel : Nat) (rules : List InlineRule) (cs : List Char) :
  Agree (On T J) (spansFrom r fuel rules cs) (spansFrom r' fuel rules cs) (All P) := by
  induction fuel generalizing rules cs with
  | zero => exact agree_pure all_nil
  | succ fuel ih =>
    cases cs with
    | nil => exact agree_pure all_nil
    | cons c cs =>
      rw [spansFrom]
      · refine (agree_firstRule hr (fun cs' => ?_) _ rules).bind fun out ho => ?_
        · exact agree_getReader.bind fun _ _ => ih _ _
        cases out with
        | none => exact agree_pure all_nil
        | some p =>
          exact (ih rules p.2).bind fun rest hrs =>
            agree_pure ((ho p rfl).append hrs)
      · simp

lemma agree_spans (s : String) : Agree (On T J) (spans r s) (spans r' s) (All P) :=
  agree_getReader.bind fun _ _ => agree_spansFrom hr _ _ _

lemma agree_textSpans (s : String) : Agree (On T J) (textSpans r s) (textSpans r' s) (All P) :=
  agree_getReader.bind fun _ _ => (agree_gatherText _ _).bind fun _ _ => agree_spans hr _

end

section

variable {r r' : Renderer ρ α} (hr : r.Preserves r' J T P)

include hr

mutual

lemma agree_renderToken : ∀ (fuel : Nat) (t : Token), T t → Agree (On T J) (renderToken r fuel t)
    (renderToken r' fuel t) (All P)
  | 0, _, _ => agree_pure all_nil
  | fuel + 1, t, ht => by
    have hs (s : String) := @agree_spans _ _ T _ _ _ _ hr.toKeepsSpans s
    cases t with
    | newline =>
      exact agree_hook hr.newline
    | rule => exact agree_fail _
    | code text language =>
      exact agree_hook (hr.blockCode text language ht)
    | heading lvl text =>
      exact (hs text).bind fun body hb => agree_hook (hr.header body lvl text hb)
    | table header => exact (hs _).bind fun _ _ => agree_fail _
    | html => exact agree_fail _
    | paragraph text =>
      exact (hs text).bind fun body hb => agree_hook (hr.paragraph body hb)
    | text text =>
      exact (agree_textSpans hr.toKeepsSpans text).bind fun body hb => agree_hook (hr.paragraph body hb)
    | listStart ord =>
      exact (agree_renderUntil .listEnd false fuel).bind fun body hb =>
        agree_hook (hr.list body ord hb)
    | memberStart =>
      exact (agree_renderUntil .memberEnd true fuel).bind fun body hb =>
        agree_hook (hr.member body hb)
    | looseStart =>
      exact (agree_renderUntil .memberEnd false fuel).bind fun body hb =>
        agree_hook (hr.member body hb)
    | quoteStart => exact (agree_renderUntil .quoteEnd false fuel).bind fun _ _ => agree_fail _
    | footnoteStart key =>
      exact (agree_changeReader (by exact fun _ h => h)).bind fun _ _ =>
        (agree_renderUntil .footnoteEnd false fuel).bind fun _ _ =>
          (agree_changeReader (by exact fun _ h => h)).bind fun _ _ => agree_pure all_nil
    | listEnd => exact agree_fail _
    | memberEnd => exact agree_fail _
    | quoteEnd => exact agree_fail _
    | footnoteEnd => exact agree_fail _

lemma agree_renderUntil (stop : Token) (tight : Bool) : ∀ fuel : Nat,
    Agree (On T J) (renderUntil r stop tight fuel) (renderUntil r' stop tight fuel) (All P)
  | 0 => agree_pure all_nil
  | fuel + 1 => by
    refine agree_pop.bind fun t ht => ?_
    split
    · exact agree_pure all_nil
    have hrs (out : List α) (ho : All P out) :
      Agree (On T J) (do return out ++ (← renderUntil r stop tight fuel))
        (do return out ++ (← renderUntil r' stop tight fuel)) (All P) :=
      (agree_renderUntil stop tight fuel).bind fun rest hrs => agree_pure (ho.append hrs)
    split
    · exact (agree_textSpans hr.toKeepsSpans _).bind hrs
    · exact (agree_renderToken fuel t ht).bind hrs

end

end

section

variable {r r' : Renderer ρ α}

lemma agree_renderAll (htk : ∀ fuel t, T t → Agree (On T J) (renderToken r fuel t)
    (renderToken r' fuel t) (All P)) (fuel : Nat) :
  Agree (On T J) (renderAll r fuel) (renderAll r' fuel) (All P) := by
  induction fuel with
  | zero => exact agree_pure all_nil
  | succ fuel ih =>
    refine agree_pop?.bind fun t ht => ?_
    cases t with
    | none => exact agree_pure all_nil
    | some t =>
      exact (htk _ t (ht t rfl)).bind fun out ho =>
        ih.bind fun rest hrs => agree_pure (ho.append hrs)

lemma agree_refuseNotes (keys : List (String × Nat)) :
  Agree (On T J) (refuseNotes keys) (refuseNotes keys) fun _ => True := by
  refine agree_getReader.bind fun reader _ => ?_
  dsimp only
  split
  · exact agree_pure trivial
  · exact (agree_changeReader (by exact fun _ h => h)).bind fun _ _ => agree_fail _

lemma agree_render (htk : ∀ fuel t, T t → Agree (On T J) (renderToken r fuel t)
    (renderToken r' fuel t) (All P)) {s : String}
  (hs : ∀ links footnotes, All T (Lexed.add { links, footnotes } (prepare s)).tokens) :
  Agree (On T J) (render r s) (render r' s) (All P) := by
  refine (agree_changeReader fun reader hrd => ?_).bind fun _ _ =>
    agree_getReader.bind fun _ _ => (agree_renderAll htk _).bind fun _ ho =>
      agree_getReader.bind fun _ _ => (agree_changeReader (by exact fun _ h => h)).bind fun _ _ =>
        (agree_refuseNotes _).bind fun _ _ => agree_pure ho
  refine All.append (fun t ht => hrd t (mem_reverse.mp ht)) (hs _ _)

end

end Markup

namespace Element

variable {e : Element} {Q : Element → Prop}

def Throughout (Q : Element → Prop) (e : Element) : Prop := ∀ x ∈ e :: e.descendants, Q x

lemma throughout_iff : Throughout Q e ↔ Q e ∧ ∀ c ∈ e.children, Throughout Q c := by
  rw [Throughout,forall_mem_cons,descendants_eq]
  refine and_congr_right fun _ => ⟨fun h c hc x hx => ?_,fun h x hx => ?_⟩
  · exact h x (mem_flatMap.mpr ⟨c,hc,hx⟩)
  · obtain ⟨c,hc,hx⟩ := mem_flatMap.mp hx
    exact h c hc x hx

lemma forall_forest {es : List Element} {addr : Address} {i : Nat} (h : ∀ c ∈ es, Throughout Q c) :
  ∀ p ∈ forest addr i es, Q p.2 := by
  intro p hp
  have hm : p.2 ∈ (forest addr i es).map Prod.snd := mem_map_of_mem hp
  rw [map_snd_forest] at hm
  obtain ⟨c,hc,hx⟩ := mem_flatMap.mp hm
  exact h c hc _ hx

lemma throughout_leaf (h : Q e) (hl : e.children = []) : Throughout Q e := by
  rw [throughout_iff,hl]
  exact ⟨h,by simp⟩

def Fresh (e : Element) : Prop :=
  e.tag = "doc_uri" → e.value? "resolved" = some (.text (isTrue false)) ∧ e.children = []

lemma fresh_of_tag (tag : String) (he : e.tag = tag) (h : tag ≠ "doc_uri" := by decide) : Fresh e :=
  fun ht => absurd (he.symm.trans ht) h

section

variable {f : Element → Except Fault Element} {P Q : Element → Prop}

lemma throughout_mapHeads
    (hQ : ∀ e e' es, P e → f e = .ok e' → (e.children = [] → es = []) → Q { e' with children := es })
    {e e' : Element} (h : mapHeads f e = .ok e') (hP : Throughout P e) : Throughout Q e' := by
  induction e using byChildren generalizing e' with
  | step e ih =>
    obtain ⟨head,es,hh,hes,rfl⟩ := mapHeads_ok_iff.mp h
    rw [mapHeadsEach_ok_iff] at hes
    rw [throughout_iff] at hP
    refine throughout_iff.mpr ⟨hQ e head es hP.1 hh fun hn => ?_,fun c' hc' => ?_⟩
    · rw [hn] at hes
      exact forall₂_nil_left_iff.mp hes
    · obtain ⟨c,hc,hm⟩ := forall₂_mem_right hes hc'
      exact ih c hc hm (hP.2 c hc)

lemma throughout_mapHeadsEach
    (hQ : ∀ e e' es, P e → f e = .ok e' → (e.children = [] → es = []) → Q { e' with children := es })
    {es es' : List Element} (h : mapHeadsEach f es = .ok es') (hP : ∀ e ∈ es, Throughout P e) :
    ∀ e ∈ es', Throughout Q e := by
  intro e' he'
  obtain ⟨e,he,hm⟩ := forall₂_mem_right (mapHeadsEach_ok_iff.mp h) he'
  exact throughout_mapHeads hQ hm (hP e he)

end

end Element

namespace Markup

open Act Element

variable {e : Element}

inductive Sprout (T : Token → Prop) : Element → Prop
  | reference (transcript uri : String) :
      Sprout T (make "doc_uri" [("transcript",transcript),("uri",uri),("resolved",isTrue false)])
  | code (text : String) (language : Option String) (h : T (.code text language)) :
      Sprout T (make "block_code" [("verbatim","block")] (some text))
  | header (level : Nat) (children : List Element) :
      Sprout T (make "header" [("level",toString level),("newlines","1")] none children)
  | list (ordered : Bool) (children : List Element) :
      Sprout T (make "list" [("ordered",isTrue ordered),("newlines","2")] none children)
  | member (children : List Element) :
      Sprout T (make "list_item" [("setNewlines","paragraph")] none children)
  | paragraph (children : List Element) :
      Sprout T (make "paragraph" [("newlines","2")] none children)
  | span (tag wrap : String) (htag : tag ∈ ["codespan","double_emphasis","emphasis"])
      (children : List Element) :
      Sprout T (make tag [("wrap",wrap),("layout","span")] none children)
  | text (text : String) : Sprout T (make "text" [("layout","span")] (some text))
  | cut {e : Element} (h : IsCut e) : Sprout T e
  | command {e : Element} (h : IsCut e) :
      Sprout T { e.set "splitter" (isTrue true) with tag := "text" }

lemma Sprout.fresh {T : Token → Prop} (h : Sprout T e) : Fresh e := by
  cases h with
  | reference => exact fun _ => ⟨rfl,rfl⟩
  | span tag wrap ht =>
    rintro rfl
    exact absurd ht (by decide)
  | cut h =>
    rcases h.tag with ht | ht
    · exact fresh_of_tag "text" ht
    · exact fresh_of_tag "at_command" ht
  | _ =>
    intro ht
    simp [make] at ht

def Shoot.Has (Q : Element → Prop) : Shoot → Prop
  | .element e => Throughout Q e
  | .stray _ => True

section

variable {Q : Element → Prop} {shoots : List Shoot} {es : List Element} {e : Element}

lemma forall_elements {P : Element → Prop} (h : Shoot.elements shoots = .ok es)
  (ha : ∀ e, Shoot.element e ∈ shoots → P e) : ∀ e ∈ es, P e := by
  induction shoots generalizing es with
  | nil =>
    cases h
    simp
  | cons shoot shoots ih =>
    cases shoot with
    | stray c => cases h
    | element e =>
      obtain ⟨rest,hrs,rfl⟩ := map_ok h
      rw [forall_mem_cons]
      exact ⟨ha e mem_cons_self,ih hrs fun x hx => ha x (mem_cons_of_mem _ hx)⟩

lemma throughout_elements (h : Shoot.elements shoots = .ok es) (ha : All (Shoot.Has Q) shoots) :
  ∀ e ∈ es, Throughout Q e :=
  forall_elements h fun _ he => ha _ he

lemma all_singleton (h : Throughout Q e) : All (Shoot.Has Q) [.element e] := by
  intro x hx
  obtain rfl := mem_singleton.mp hx
  exact h

lemma wrapShoots_yields {tag : String} {attrs : List (String × String)}
  (hQ : ∀ children, Q (make tag attrs none children)) {body : List Shoot}
  (hb : All (Shoot.Has Q) body) : (wrapShoots tag attrs body).Yields (All (Shoot.Has Q)) := by
  refine (agree_ofExcept fun es hes => throughout_elements hes hb).bind fun children hk => ?_
  exact agree_pure (all_singleton (throughout_iff.mpr ⟨hQ children,hk⟩))

lemma leaf_yields (hl : e.children = []) (h : Q e) :
  (pure [.element e] : Act Unit (List Shoot)).Yields (All (Shoot.Has Q)) :=
  agree_pure (all_singleton (throughout_leaf h hl))

end

variable {T : Token → Prop}

lemma elementRenderer_keeps :
    elementRenderer.Preserves elementRenderer (fun _ => True) T (Shoot.Has (Sprout T)) where
  stray _ := ⟨rfl,trivial⟩
  reference _ := leaf_yields rfl (.reference _ _)
  blockCode text language h := leaf_yields rfl (.code text language h)
  header _ lvl _ hb := wrapShoots_yields (.header lvl) hb
  list _ ord hb := wrapShoots_yields (.list ord) hb
  member _ hb := wrapShoots_yields .member hb
  paragraph _ hb := wrapShoots_yields .paragraph hb
  newline := agree_pure all_nil
  autolink _ _ := agree_fail _
  codeSpan text := by
    refine agree_pure (all_singleton (throughout_iff.mpr ⟨.span "codespan" "`" (by simp) _,?_⟩))
    intro c hc
    obtain rfl := mem_singleton.mp hc
    exact throughout_leaf (.text text) rfl
  strong _ hb := wrapShoots_yields (.span "double_emphasis" "**" (by simp)) hb
  emphasis _ hb := wrapShoots_yields (.span "emphasis" "*" (by simp)) hb
  text s := by
    refine (agree_ofExcept fun es hes => isCut_cut hes).bind fun es hes => agree_pure ?_
    intro x hx
    obtain ⟨e,he,rfl⟩ := mem_map.mp hx
    exact throughout_leaf (.cut (hes e he)) (hes e he).leaf
  html _ := agree_fail _

lemma sprout_markSplitter {es : List Element} (h : Sprout T e) (hes : e.children = [] → es = []) :
    Sprout T { markSplitter e with children := es } := by
  cases h with
  | header lvl => exact .header lvl es
  | list ord => exact .list ord es
  | member => exact .member es
  | paragraph => exact .paragraph es
  | span tag wrap ht =>
    have hne : tag ≠ "at_command" := by
      rintro rfl
      exact absurd ht (by decide)
    have hs (children : List Element) : markSplitter (make tag [("wrap",wrap),("layout","span")] none
        children) = make tag [("wrap",wrap),("layout","span")] none children := if_neg hne
    rw [hs]
    exact .span tag wrap ht es
  | reference transcript uri =>
    obtain rfl := hes rfl
    exact .reference transcript uri
  | code text language h =>
    obtain rfl := hes rfl
    exact .code text language h
  | text text =>
    obtain rfl := hes rfl
    exact .text text
  | cut h =>
    obtain rfl := hes h.leaf
    rw [markSplitter,← h.leaf]
    split
    · exact .command h
    · exact .cut ⟨h.tag,h.leaf,h.layout,h.attributes⟩
  | command h =>
    obtain rfl := hes h.leaf
    rw [← h.leaf]
    exact .command h

lemma sprout_readElement {tag text : String} {reader' : Reader}
    (ht : ∀ links footnotes, All T (Lexed.add { links, footnotes } (prepare text)).tokens)
    (h : (readElement tag text).perform {} = (.ok e,reader')) :
    ∃ es, e = { tag, children := es } ∧ ∀ c ∈ es, Throughout (Sprout T) c := by
  obtain ⟨shoots,reader1,hsh,h⟩ := Act.bind_ok h
  obtain ⟨s,hs⟩ := within_ok hsh
  obtain ⟨-,ha⟩ := (agree_render (agree_renderToken elementRenderer_keeps) ht _ ⟨all_nil,trivial⟩).2 _ _ hs
  obtain ⟨es,reader2,hes,h⟩ := Act.bind_ok h
  obtain ⟨es',reader3,hes',h⟩ := Act.bind_ok h
  obtain ⟨rfl,-⟩ := pure_ok h
  refine ⟨es',rfl,throughout_mapHeadsEach (fun x x' xs hx hx' hxs => ?_) (ofExcept_ok hes')
    (throughout_elements (ofExcept_ok hes) ha)⟩
  cases hx'
  exact sprout_markSplitter hx hxs

end Markup

namespace Tree

open Element

variable {e e' : Element} {tag text : String}

lemma sprout_readMarkdown {T : Markup.Token → Prop}
    (ht : ∀ links footnotes, Markup.All T (Markup.Lexed.add { links, footnotes } (Markup.prepare text)).tokens)
    (h : readMarkdown tag text = .ok e) :
    ∃ es, e = { tag, children := es } ∧ ∀ c ∈ es, Throughout (Markup.Sprout T) c :=
  Markup.sprout_readElement ht (Prod.ext h rfl)

lemma fresh_readMarkdown (h : readMarkdown tag text = .ok e) : ∀ c ∈ e.children, Throughout Fresh c := by
  obtain ⟨es,rfl,hes⟩ := sprout_readMarkdown (T := fun _ => True) (fun _ _ _ _ => trivial) h
  exact fun c hc x hx => (hes c hc x hx).fresh

lemma fresh_setSource {src : Value} (h : setSource src e = .ok e')
  (hf : ∀ c ∈ e.children, Throughout Fresh c) : ∀ c ∈ e'.children, Throughout Fresh c := by
  obtain ⟨mapped,hm,rfl⟩ := map_ok h
  refine throughout_mapHeadsEach (fun x x' xs hx hx' hxs ht => ?_) hm hf
  cases hx'
  by_cases hrf : x.tag = "doc_uri"
  · obtain ⟨hrs,hl⟩ := hx hrf
    refine ⟨?_,hxs hl⟩
    rw [if_pos hrf]
    exact (value?_setValue_ne x (by decide) src).trans hrs
  · rw [if_neg hrf] at ht
    exact absurd ht hrf

lemma attribute?_source_of_setSource {path : String} (h : setSource (.text path) e = .ok e') :
  ∀ x ∈ e'.descendants, x.tag = "doc_uri" → x.attribute? "source" = some path := by
  obtain ⟨mapped,hm,rfl⟩ := map_ok h
  intro x hx
  rw [descendants_eq] at hx
  obtain ⟨c,hc,hxc⟩ := mem_flatMap.mp hx
  refine throughout_mapHeadsEach
    (P := fun _ => True) (Q := fun x => x.tag = "doc_uri" → x.attribute? "source" = some path)
    (fun y y' es _ hy _ ht => ?_) hm (fun _ _ _ _ => trivial) c hc x hxc
  cases hy
  by_cases hrf : y.tag = "doc_uri"
  · rw [if_pos hrf]
    exact attribute?_set y "source" path
  · rw [if_neg hrf] at ht
    exact absurd ht hrf

end Tree

end Docweave
