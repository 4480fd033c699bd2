import Docweave.Proofs.Markdown.Markup
import Docweave.Proofs.Sections.Shelves
import Mathlib.Data.List.Perm.Subperm
import Mathlib.Logic.Relation

namespace Docweave.Tree

open Element Files List

variable {d : Edition} {fs : Store} {e : Element}

lemma awaits_of_sameHead {e' : Element} (h : SameHead e e') : Awaits d e' ↔ Awaits d e := by
  rw [Awaits,Awaits,h.tag,h.value?]

lemma nodup_waiting (d : Edition) (e : Element) : (waiting d e).Nodup := by
  rw [waiting_eq]
  refine Pairwise.imp (fun h => ?_) ((ordered_forest [] 0 e.children).sublist (filter_sublist.map _))
  rintro rfl
  exact h prefix_rfl

section

variable {sh' sh : Shelf}

def IsText (store : Store) (s : Section) (marked : Element) : Prop :=
  ∃ path inner, store.relative s.path "." = .ok path ∧
    readMarkdown "markdown" (String.join s.lines) = .ok inner ∧
    setSource (.text path) inner = .ok marked

def answered (s : Section) (e : Element) : Element :=
  ((e.set "contentLines" (toString s.lines.length)).set "content" (String.join s.lines)).set
    "resolved" (isTrue true)

lemma not_awaits_answered (d : Edition) (s : Section) (e : Element) (es : List Element) :
    ¬ Awaits d { answered s e with children := es } := by
  rintro ⟨-,h⟩
  have hv : ({ answered s e with children := es } : Element).value? "resolved" =
      some (.text (isTrue true)) := value?_set _ _ _
  rw [hv] at h
  exact absurd h (by decide)

lemma resolveReference_ok_iff {e e' : Element} : (resolveReference fs e).perform sh = (.ok e',sh') ↔
      ∃ s marked, (Shelf.find fs (e.attribute? "uri") (e.attribute? "source")).perform sh =
          (.ok s,sh') ∧ IsText fs s marked ∧
        e' = { answered s e with children := e.children ++ marked.children } := by
  have hc (s : Section) : (((e.set "contentLines" (toString s.lines.length)).set "content"
      (String.join s.lines)).attribute? "content").getD "" = String.join s.lines := by
    rw [attribute?_set,Option.getD_some]
  constructor
  · intro h
    obtain ⟨⟨path,found⟩,s1,hrs,hi⟩ := Act.bind_ok h
    obtain ⟨s,s2,hf,hrl⟩ := Act.bind_ok hrs
    obtain ⟨path',hre,hp⟩ := Act.ofExcept_bind_ok hrl
    obtain ⟨hsm,rfl⟩ := Act.pure_ok hp
    obtain ⟨rfl,rfl⟩ := Prod.mk.inj hsm
    obtain ⟨inner,hr,hm⟩ := Act.ofExcept_bind_ok hi
    obtain ⟨marked,hs,hl⟩ := Act.ofExcept_bind_ok hm
    cases hl
    rw [hc s] at hr
    have ht : IsText fs s marked := ⟨path',inner,hre,hr,hs⟩
    exact ⟨s,marked,hf,ht,rfl⟩
  · rintro ⟨s,marked,hf,⟨path,inner,hre,hr,hs⟩,rfl⟩
    have hrs : (Shelf.resolve fs e).perform sh =
        (.ok (path,(e.set "contentLines" (toString s.lines.length)).set "content"
          (String.join s.lines)),sh') := by
      rw [Shelf.resolve,Act.perform_bind hf,Act.perform_ofExcept_bind hre]
      rfl
    rw [resolveReference,Act.perform_bind hrs,Act.perform_ofExcept_bind (by rw [hc]; exact hr),
      Act.perform_ofExcept_bind hs]
    rfl

lemma resolveAt_run {t m m' : Element} {addr : Address} (hat : t.at? addr = some m)
  (h : (resolveReference fs m).perform sh = (.ok m',sh')) :
  (resolveAt fs t addr).perform sh = (.ok (t.modifyAt (fun _ => m') addr),sh') := by
  rw [resolveAt,hat]
  exact Act.perform_bind h _

end

section

variable {α : Type} {i : Nat} {m m' e' t : Element} {addr : Address}

inductive Moment (d : Edition) (store : Store) (e : Element) (shelf : Shelf) :
    Element → List Address → Shelf → Prop
  | start : Moment d store e shelf e (waiting d e) shelf
  | step {t t' : Element} {address : Address} {todo : List Address} {σ σ' : Shelf} :
      Moment d store e shelf t (address :: todo) σ →
      (resolveAt store t address).perform σ = (.ok t',σ') → Moment d store e shelf t' todo σ'
  | round {t : Element} {σ : Shelf} :
      Moment d store e shelf t [] σ → Moment d store e shelf t (waiting d t) σ

def Finds (d : Edition) (store : Store) (e : Element) (shelf : Shelf) (uri base : Option String)
    (s : Section) : Prop :=
  ∃ t todo σ σ', Moment d store e shelf t todo σ ∧
    (Shelf.find store uri base).perform σ = (.ok s,σ')

def Link (d : Edition) (store : Store) (e : Element) (shelf : Shelf) (a b : Section) : Prop :=
  ∃ marked m, IsText store a marked ∧ m ∈ marked.descendants ∧ Awaits d m ∧
    Finds d store e shelf (m.attribute? "uri") (m.attribute? "source") b

inductive Settled (d : Edition) (store : Store)
    (finds : Option String → Option String → Section → Prop) : Element → Element → Prop
  | keep {e e' : Element} : ¬ Awaits d e → SameHead e e' →
      Forall₂ (Settled d store finds) e.children e'.children → Settled d store finds e e'
  | answer {e e' marked : Element} {s : Section} : Awaits d e →
      finds (e.attribute? "uri") (e.attribute? "source") s → IsText store s marked →
      SameHead (answered s e) e' →
      Forall₂ (Settled d store finds) (e.children ++ marked.children) e'.children →
      Settled d store finds e e'

variable {finds : Option String → Option String → Section → Prop}

lemma forall₂_modify {R : α → α → Prop} {f : α → α} {xs ys : List α} {x : α} (hx : xs[i]? = some x)
  (hf : ∀ y, R (f x) y → R x y) (h : Forall₂ R (xs.modify i f) ys) : Forall₂ R xs ys := by
  induction xs generalizing i ys with
  | nil => cases hx
  | cons a xs ih =>
    cases i with
    | zero =>
      cases hx
      obtain ⟨y,ys',hy,hys,rfl⟩ := forall₂_cons_left_iff.mp h
      exact .cons (hf y hy) hys
    | succ i =>
      obtain ⟨y,ys',hy,hys,rfl⟩ := forall₂_cons_left_iff.mp h
      exact .cons hy (ih hx hys)

lemma settled_modifyAt (hat : t.at? addr = some m) (hm : ∀ x, Settled d fs finds m' x → Settled d fs finds m x)
  (h : Settled d fs finds (t.modifyAt (fun _ => m') addr) e') : Settled d fs finds t e' := by
  induction addr generalizing t e' with
  | nil =>
    cases hat
    exact hm e' h
  | cons i addr ih =>
    obtain ⟨c,hc,hat⟩ := at?_cons_iff.mp hat
    have hch (x : Element) (hx : Settled d fs finds (c.modifyAt (fun _ => m') addr) x) :
        Settled d fs finds c x := ih hat hx
    cases h with
    | keep ha hh hk =>
      exact .keep ha ⟨hh.tag,hh.attributes,hh.text,hh.tail⟩ (forall₂_modify hc hch hk)
    | answer ha hf ht hh hk =>
      obtain ⟨xs,ys,hxy,hx,hy⟩ := forall₂_split hk
      exact .answer ha hf ht ⟨hh.tag,hh.attributes,hh.text,hh.tail⟩
        (hxy ▸ rel_append (forall₂_modify hc hch hx) hy)

lemma settled_answer {marked x : Element} {s : Section} (haw : Awaits d m)
    (hf : finds (m.attribute? "uri") (m.attribute? "source") s) (ht : IsText fs s marked)
    (h : Settled d fs finds { answered s m with children := m.children ++ marked.children } x) :
    Settled d fs finds m x := by
  cases h with
  | keep _ hh hk =>
    exact .answer haw hf ht ⟨hh.tag,hh.attributes,hh.text,hh.tail⟩ hk
  | answer ha => exact absurd ha (not_awaits_answered d s m _)

lemma settled_self {e : Element} (h : ∀ x ∈ e :: e.descendants, ¬ Awaits d x) : Settled d fs finds e e := by
  induction e using byChildren with
  | step e ih =>
    rw [forall_mem_cons,descendants_eq] at h
    refine .keep h.1 (.refl _) (forall₂_same.mpr fun c hc => ih c hc fun x hx => h.2 x ?_)
    exact mem_flatMap.mpr ⟨c,hc,hx⟩

def Settles (d : Edition) (store : Store) (finds : Option String → Option String → Section → Prop)
    (e e' : Element) : Prop :=
  SameHead e e' ∧ Forall₂ (Settled d store finds) e.children e'.children

lemma settles_modifyAt (hne : addr ≠ []) (hat : t.at? addr = some m)
  (hm : ∀ x, Settled d fs finds m' x → Settled d fs finds m x)
  (h : Settles d fs finds (t.modifyAt (fun _ => m') addr) e') : Settles d fs finds t e' := by
  cases addr with
  | nil => exact absurd rfl hne
  | cons i addr =>
    obtain ⟨hh,hk⟩ := h
    obtain ⟨c,hc,hat⟩ := at?_cons_iff.mp hat
    exact ⟨⟨hh.tag,hh.attributes,hh.text,hh.tail⟩,forall₂_modify hc (fun x hx => settled_modifyAt hat hm hx) hk⟩

end

section

variable {e : Element} {sh : Shelf}

lemma Moment.grown {t : Element} {todo : List Address} {σ : Shelf}
  (h : Moment d fs e sh t todo σ) : ∃ loaded, Shelf.Grown fs sh σ loaded := by
  induction h with
  | start => exact ⟨[],.refl fs sh⟩
  | @step t t' addr todo σ σ' _ hs ih =>
    obtain ⟨loaded,hg⟩ := ih
    cases hat : t.at? addr with
    | none =>
      rw [resolveAt,hat] at hs
      obtain ⟨-,rfl⟩ := Act.pure_ok hs
      exact ⟨loaded,hg⟩
    | some m =>
      rw [resolveAt,hat] at hs
      obtain ⟨m',σ1,hr,-,rfl⟩ := Act.map_ok hs
      obtain ⟨s,marked,hf,-,-⟩ := resolveReference_ok_iff.mp hr
      exact hg.find hf
  | round _ ih => exact ih

def Level (d : Edition) (store : Store) (e : Element) (shelf σ : Shelf) (n : Nat) (m : Element) :
    Prop :=
  ∃ chain : List Section, chain.length = n ∧
    chain.IsChain (fun b a => Link d store e shelf a b) ∧ (∀ s ∈ chain, s ∈ σ.sections) ∧
    ∀ s ∈ chain.head?, ∃ marked m0, IsText store s marked ∧ m0 ∈ marked.descendants ∧ SameHead m0 m

variable {σ σ' : Shelf} {n : Nat} {m : Element}

lemma Level.mono (h : Level d fs e sh σ n m) (hσ : σ.sections <:+ σ'.sections) {m' : Element}
  (hm : SameHead m m') : Level d fs e sh σ' n m' := by
  obtain ⟨chain,hl,hc,hmm,hh⟩ := h
  refine ⟨chain,hl,hc,fun s hs => hσ.subset (hmm s hs),fun s hs => ?_⟩
  obtain ⟨marked,m0,ht,hm0,hsm⟩ := hh s hs
  exact ⟨marked,m0,ht,hm0,hsm.trans hm⟩

lemma Level.le (ha : ∀ s, ¬ Relation.TransGen (Link d fs e sh) s s)
  (h : Level d fs e sh σ n m) : n ≤ σ.sections.length := by
  obtain ⟨chain,rfl,hc,hm,-⟩ := h
  let R (b a : Section) : Prop := Relation.TransGen (Link d fs e sh) a b
  have hR : chain.IsChain R := hc.imp fun _ _ hl => Relation.TransGen.single hl
  have hn : chain.Nodup := (isChain_iff_pairwise.mp hR).imp fun {b a} hba hs => by
    subst hs
    exact ha b hba
  exact (hn.subperm hm).length_le

lemma Level.next {t : Element} {todo : List Address} (hmm : Moment d fs e sh t todo σ)
  (h : Level d fs e sh σ n m) (haw : Awaits d m) {s : Section} {marked m1 : Element}
  (hf : (Shelf.find fs (m.attribute? "uri") (m.attribute? "source")).perform σ =
    (.ok s,σ')) (ht : IsText fs s marked) (hm1 : m1 ∈ marked.descendants) :
  Level d fs e sh σ' (n + 1) m1 := by
  obtain ⟨chain,rfl,hc,hme,hh⟩ := h
  obtain ⟨_,hg⟩ := (Shelf.Grown.refl fs σ).find hf
  refine ⟨s :: chain,rfl,?_,?_,?_⟩
  · rw [isChain_cons]
    refine ⟨fun a ha => ?_,hc⟩
    obtain ⟨marked0,m0,ht0,hm0,hs⟩ := hh a ha
    refine ⟨marked0,m0,ht0,hm0,(awaits_of_sameHead hs).mp haw,t,todo,σ,σ',hmm,?_⟩
    rw [← hs.attribute?,← hs.attribute?]
    exact hf
  · rw [forall_mem_cons]
    exact ⟨Shelf.find_mem hf,fun a ha => hg.sections.subset (hme a ha)⟩
  · intro a ha
    cases ha
    exact ⟨marked,m1,ht,hm1,.refl m1⟩

structure Underway (d : Edition) (store : Store) (e : Element) (shelf : Shelf) (n : Nat)
    (t : Element) (todo : List Address) (σ : Shelf) : Prop where
  moment : Moment d store e shelf t todo σ
  nodup : todo.Nodup
  waits : ∀ address ∈ todo, address ∈ waiting d t
  level : ∀ address m, t.at? address = some m → address ∈ waiting d t →
    Level d store e shelf σ (if address ∈ todo then n else n + 1) m

def Answerable (d : Edition) (store : Store) (e : Element) (shelf : Shelf) : Prop :=
  ∀ t address todo σ m, Moment d store e shelf t (address :: todo) σ → t.at? address = some m →
    ∃ s marked σ', (Shelf.find store (m.attribute? "uri") (m.attribute? "source")).perform σ =
      (.ok s,σ') ∧ IsText store s marked

variable {t : Element} {addr : Address} {todo : List Address}

lemma Underway.step (ha : Answerable d fs e sh) (h : Underway d fs e sh n t (addr :: todo) σ) :
  ∃ t' σ', (resolveAt fs t addr).perform σ = (.ok t',σ') ∧ Underway d fs e sh n t' todo σ' ∧
    ∀ e', Settles d fs (Finds d fs e sh) t' e' → Settles d fs (Finds d fs e sh) t e' := by
  obtain ⟨hne,m,hat,haw⟩ := mem_waiting_iff.mp (h.waits addr mem_cons_self)
  obtain ⟨s,marked,σ',hf,ht⟩ := ha t addr todo σ m h.moment hat
  obtain ⟨hfr,hn⟩ := nodup_cons.mp h.nodup
  obtain ⟨_,hg⟩ := (Shelf.Grown.refl fs σ).find hf
  have hlv : Level d fs e sh σ n m := by
    have hl := h.level addr m hat (h.waits addr mem_cons_self)
    rwa [if_pos mem_cons_self] at hl
  let m' : Element := { answered s m with children := m.children ++ marked.children }
  have hgr : m'.children = m.children ++ marked.children := rfl
  have hst : (resolveAt fs t addr).perform σ =
      (.ok (t.modifyAt (fun _ => m') addr),σ') :=
    resolveAt_run hat (resolveReference_ok_iff.mpr ⟨s,marked,hf,ht,rfl⟩)
  have hol {other : Address} (ho : other ≠ addr) :
      (other ∈ addr :: todo ↔ other ∈ todo) := by
    simp [ho]
  refine ⟨_,σ',hst,⟨.step h.moment hst,hn,?_,?_⟩,?_⟩
  · intro other ho
    have hne' : other ≠ addr := fun heq => hfr (heq ▸ ho)
    obtain ⟨hne0,x,hx,hxw⟩ := mem_waiting_iff.mp (h.waits other (mem_cons_of_mem _ ho))
    rw [mem_waiting_iff]
    by_cases hb : addr <+: other
    · obtain ⟨rest,rfl⟩ := hb
      cases rest with
      | nil => exact absurd (append_nil addr) hne'
      | cons i rest =>
        rw [at?_append,hat] at hx
        refine ⟨hne0,x,?_,hxw⟩
        rw [at?_modifyAt_below hat]
        exact at?_of_more hgr hx
    · obtain ⟨x',hx',hs⟩ := at?_modifyAt_stays (f := fun _ => m') hb hx
      exact ⟨hne0,x',hx',(awaits_of_sameHead hs).mpr hxw⟩
  · intro other x hx hw
    obtain ⟨hne0,y,hy,hyw⟩ := mem_waiting_iff.mp hw
    obtain rfl : x = y := Option.some.inj (hx.symm.trans hy)
    -- A place that was there before keeps its level; a new one is below the reference answered.
    have hk {z : Element} (hz : t.at? other = some z) (hs : SameHead z x)
        (ho : other ≠ addr) :
        Level d fs e sh σ' (if other ∈ todo then n else n + 1) x := by
      have hw0 : other ∈ waiting d t :=
        mem_waiting_iff.mpr ⟨hne0,z,hz,(awaits_of_sameHead hs).mp hyw⟩
      have hl := h.level other z hz hw0
      simp only [hol ho] at hl
      exact hl.mono hg.sections hs
    by_cases hb : addr <+: other
    · obtain ⟨rest,rfl⟩ := hb
      rw [at?_modifyAt_below hat] at hx
      cases rest with
      | nil =>
        cases hx
        exact absurd hyw (not_awaits_answered d s m _)
      | cons i rest =>
        have ho : addr ++ i :: rest ≠ addr := by simp
        rcases at?_more_cases hgr hx with hx0 | ⟨hnn,j,c,hc,hcx⟩
        · exact hk (by rw [at?_append,hat]; exact hx0) (.refl x) ho
        have hnw : addr ++ i :: rest ∉ todo := by
          intro htd
          obtain ⟨-,z,hz,-⟩ := mem_waiting_iff.mp (h.waits _ (mem_cons_of_mem _ htd))
          rw [at?_append,hat,Option.bind_some,hnn] at hz
          cases hz
        rw [if_neg hnw]
        exact hlv.next h.moment haw hf ht (mem_descendants_iff.mpr
          ⟨j :: rest,cons_ne_nil _ _,at?_cons_iff.mpr ⟨c,hc,hcx⟩⟩)
    · obtain ⟨z,hz,hs⟩ := at?_modifyAt_apart hb hx
      exact hk hz hs fun heq => hb (heq ▸ prefix_rfl)
  · intro e' he'
    exact settles_modifyAt hne hat
      (fun x hx => settled_answer haw ⟨t,_,σ,σ',h.moment,hf⟩ ht hx) he'

lemma Underway.round (ha : Answerable d fs e sh) (h : Underway d fs e sh n t todo σ) :
  ∃ t' σ', (todo.foldlM (resolveAt fs) t).perform σ = (.ok t',σ') ∧ Underway d fs e sh n t' [] σ' ∧
    ∀ e', Settles d fs (Finds d fs e sh) t' e' → Settles d fs (Finds d fs e sh) t e' := by
  induction todo generalizing t σ with
  | nil => exact ⟨t,σ,rfl,h,fun _ he' => he'⟩
  | cons addr todo ih =>
    obtain ⟨t1,σ1,hs,h1,hb1⟩ := h.step ha
    obtain ⟨t2,σ2,hr,h2,hb2⟩ := ih h1
    refine ⟨t2,σ2,?_,h2,fun e' he' => hb1 e' (hb2 e' he')⟩
    rw [foldlM_cons,Act.perform_bind hs]
    exact hr

lemma Underway.next (h : Underway d fs e sh n t [] σ) : Underway d fs e sh (n + 1) t (waiting d t) σ := by
  refine ⟨.round h.moment,nodup_waiting d t,fun _ ha => ha,fun a m hat hw => ?_⟩
  rw [if_pos hw]
  simpa using h.level a m hat hw

lemma Underway.start (d : Edition) (fs : Store) (e : Element) (sh : Shelf) :
  Underway d fs e sh 0 e (waiting d e) sh := by
  refine ⟨.start,nodup_waiting d e,fun _ ha => ha,fun a m _ hw => ?_⟩
  rw [if_pos hw]
  exact ⟨[],rfl,.nil,by simp,by simp⟩

lemma not_awaits_of_waiting (h : waiting d t = []) : ∀ x ∈ t.descendants, ¬ Awaits d x := by
  intro x hm ha
  obtain ⟨addr,hne,hat⟩ := mem_descendants_iff.mp hm
  have hw : addr ∈ waiting d t := mem_waiting_iff.mpr ⟨hne,x,hat,ha⟩
  rw [h] at hw
  cases hw

lemma settles_of_waiting (h : waiting d t = [])
  (finds : Option String → Option String → Section → Prop) : Settles d fs finds t t := by
  refine ⟨.refl t,forall₂_same.mpr fun c hc => settled_self fun x hx => not_awaits_of_waiting h x ?_⟩
  rw [descendants_eq]
  exact mem_flatMap.mpr ⟨c,hc,hx⟩

lemma Underway.bound (hac : ∀ s, ¬ Relation.TransGen (Link d fs e sh) s s)
  (h : Underway d fs e sh n t (waiting d t) σ) (hne : waiting d t ≠ []) :
  n ≤ 2 * fs.size + sh.sections.length := by
  obtain ⟨addr,ha⟩ := exists_mem_of_ne_nil _ hne
  obtain ⟨-,m,hat,-⟩ := mem_waiting_iff.mp ha
  have hl := h.level addr m hat ha
  rw [if_pos ha] at hl
  obtain ⟨_,hg⟩ := h.moment.grown
  exact (hl.le hac).trans hg.length_le

lemma resolveRounds_run (han : Answerable d fs e sh)
    (ha : ∀ s, ¬ Relation.TransGen (Link d fs e sh) s s) {fuel : Nat}
  (hf : 2 * fs.size + sh.sections.length < n + fuel) (h : Underway d fs e sh n t (waiting d t) σ) :
  ∃ e' sh', (resolveRounds d fs fuel t).perform σ = (.ok e',sh') ∧
    waiting d e' = [] ∧ Settles d fs (Finds d fs e sh) t e' := by
  induction fuel generalizing n t σ with
  | zero =>
    have hd : waiting d t = [] := by
      by_contra hne
      have hbn := h.bound ha hne
      omega
    exact ⟨t,σ,rfl,hd,settles_of_waiting hd _⟩
  | succ fuel ih =>
    by_cases hd : waiting d t = []
    · refine ⟨t,σ,?_,hd,settles_of_waiting hd _⟩
      rw [resolveRounds,hd]
      rfl
    obtain ⟨t1,σ1,hr,h1,hb⟩ := h.round han
    obtain ⟨e',sh',hrs,hen,hs⟩ := ih (by omega) h1.next
    refine ⟨e',sh',?_,hen,hb e' hs⟩
    have he : (waiting d t).isEmpty = false := by simpa using hd
    rw [resolveRounds]
    simp only [he]
    exact (Act.perform_bind hr _).trans hrs

end

section

variable {e e' t : Element} {sh sh' σ : Shelf} {fuel : Nat} {todo : List Address}

lemma round_of_run (h : (resolveRounds d fs fuel t).perform σ = (.ok e',sh')) (hd : waiting d e' = []) :
  ∃ k t1 σ1, ((waiting d t).foldlM (resolveAt fs) t).perform σ = (.ok t1,σ1) ∧
    (resolveRounds d fs k t1).perform σ1 = (.ok e',sh') := by
  have hs (hp : (pure t : Act Shelf Element).perform σ = (.ok e',sh')) :
      ∃ k t1 σ1, ((waiting d t).foldlM (resolveAt fs) t).perform σ = (.ok t1,σ1) ∧
        (resolveRounds d fs k t1).perform σ1 = (.ok e',sh') := by
    obtain ⟨rfl,rfl⟩ := Act.pure_ok hp
    rw [hd]
    exact ⟨0,t,σ,rfl,rfl⟩
  cases fuel with
  | zero => exact hs h
  | succ fuel =>
    rw [resolveRounds] at h
    split at h
    · exact hs h
    · obtain ⟨t1,σ1,hr,hrs⟩ := Act.bind_ok h
      exact ⟨fuel,t1,σ1,hr,hrs⟩

lemma Moment.ends (h : Moment d fs e sh t todo σ) (hrn : (resolveRounds d fs fuel e).perform sh = (.ok e',sh'))
  (hd : waiting d e' = []) : ∃ k t1 σ1, (todo.foldlM (resolveAt fs) t).perform σ = (.ok t1,σ1) ∧
    (resolveRounds d fs k t1).perform σ1 = (.ok e',sh') := by
  induction h with
  | start => exact round_of_run hrn hd
  | step _ hs ih =>
    obtain ⟨k,t1,σ1,hr,hrs⟩ := ih
    rw [foldlM_cons,Act.perform_bind hs] at hr
    exact ⟨k,t1,σ1,hr,hrs⟩
  | round _ ih =>
    obtain ⟨k,t1,σ1,hr,hrs⟩ := ih
    cases hr
    exact round_of_run hrs hd

lemma answerable_of_run (hrn : (resolveRounds d fs fuel e).perform sh = (.ok e',sh'))
  (hd : waiting d e' = []) : Answerable d fs e sh := by
  intro t addr todo σ m hm hat
  obtain ⟨k,t1,σ1,hr,-⟩ := hm.ends hrn hd
  obtain ⟨t2,σ2,hs,-⟩ := Act.bind_ok hr
  rw [resolveAt,hat] at hs
  obtain ⟨m',σ3,hrs,-⟩ := Act.bind_ok hs
  obtain ⟨s,marked,hf,ht,-⟩ := resolveReference_ok_iff.mp hrs
  exact ⟨s,marked,σ3,hf,ht⟩

end

section

variable {finds : Option String → Option String → Section → Prop} {s : Section} {marked e e' : Element}
  {store : Store}

def Filled (store : Store) (finds : Option String → Option String → Section → Prop) (x : Element) :
    Prop :=
  ∃ s marked path, finds (x.attribute? "uri") (x.attribute? "source") s ∧
    x.attribute? "content" = some (String.join s.lines) ∧ IsText store s marked ∧
    Forall₂ (Settled .final store finds) marked.children x.children ∧
    store.relative s.path "." = .ok path ∧
    ∀ m ∈ marked.descendants, m.tag = "doc_uri" → m.attribute? "source" = some path

lemma fresh_of_isText (h : IsText fs s marked) : ∀ c ∈ marked.children, Throughout Fresh c := by
  obtain ⟨path,inner,-,hr,hs⟩ := h
  exact fresh_setSource hs (fresh_readMarkdown hr)

lemma attribute?_answered {name : String} (hl : name ≠ "contentLines") (hc : name ≠ "content")
  (hr : name ≠ "resolved") : (answered s e).attribute? name = e.attribute? name := by
  rw [answered,attribute?_set_ne _ hr,attribute?_set_ne _ hc,attribute?_set_ne _ hl]

lemma filled_of_answer (hl : e.children = []) (hf : finds (e.attribute? "uri") (e.attribute? "source") s)
  (ht : IsText fs s marked) (hh : SameHead (answered s e) e')
  (hk : Forall₂ (Settled .final fs finds) (e.children ++ marked.children) e'.children) : Filled fs finds e' := by
  have ⟨path,inner,hr,_,hs⟩ := ht
  refine ⟨s,marked,path,?_,?_,ht,?_,hr,attribute?_source_of_setSource hs⟩
  · rw [hh.attribute?,hh.attribute?,attribute?_answered (by decide) (by decide) (by decide),
      attribute?_answered (by decide) (by decide) (by decide)]
    exact hf
  · rw [hh.attribute?,answered,attribute?_set_ne _ (by decide),attribute?_set]
  · rwa [hl] at hk

lemma filled_of_settled (h : Settled .final fs finds e e') (hf : Throughout Fresh e) :
  Throughout (fun x => x.tag = "doc_uri" → Filled fs finds x) e' := by
  induction e' using byChildren generalizing e with
  | step e' ih =>
    obtain ⟨hs,hb⟩ := throughout_iff.mp hf
    have hi {es : List Element} (hes : Forall₂ (Settled .final fs finds) es e'.children)
        (hf : ∀ c ∈ es, Throughout Fresh c) :
        ∀ c ∈ e'.children, Throughout (fun x => x.tag = "doc_uri" → Filled fs finds x) c := by
      intro c' hc'
      obtain ⟨c,hc,hst⟩ := forall₂_mem_right hes hc'
      exact ih c' hc' hst (hf c hc)
    rw [throughout_iff]
    cases h with
    | keep ha hh hk =>
      refine ⟨fun ht => ?_,hi hk hb⟩
      have hr := (hs (hh.tag.symm.trans ht)).1
      exact absurd ⟨nofun,hr⟩ ha
    | answer ha hfn htx hh hk =>
      refine ⟨fun ht => ?_,hi hk (forall_mem_append.mpr ⟨hb,fresh_of_isText htx⟩)⟩
      exact filled_of_answer (hs (hh.tag.symm.trans ht)).2 hfn htx hh hk

theorem resolveAll_fills_references {e : Element} {shelf : Shelf}
    (hfresh : ∀ x ∈ e.descendants, Fresh x) (hanswer : Answerable .final store e shelf)
    (hacyclic : ∀ s, ¬ Relation.TransGen (Link .final store e shelf) s s) :
    ∃ e' shelf', (resolveAll .final store e).perform shelf = (.ok e', shelf') ∧
      (∀ x ∈ e'.descendants, x.value? "resolved" ≠ some (.text (isTrue false))) ∧
      (∀ x ∈ e'.descendants, x.tag = "doc_uri" → Filled store (Finds .final store e shelf) x) ∧
      Settles .final store (Finds .final store e shelf) e e' := by
  have hfuel : 2 * store.size + shelf.sections.length <
      0 + (2 * store.size + shelf.sections.length + 2) := by omega
  obtain ⟨e', shelf', hrun, hdone, hsettles⟩ :=
    resolveRounds_run hanswer hacyclic hfuel (Underway.start .final store e shelf)
  refine ⟨e', shelf', ?_, ?_, ?_, hsettles⟩
  · rw [resolveAll, Act.perform_get_bind]
    exact hrun
  · exact fun x hx hresult => not_awaits_of_waiting hdone x hx ⟨nofun, hresult⟩
  · intro x hx htag
    rw [descendants_eq] at hx
    obtain ⟨c, hc, hxc⟩ := mem_flatMap.mp hx
    obtain ⟨c₀, hc₀, hsettled⟩ := forall₂_mem_right hsettles.2 hc
    refine filled_of_settled hsettled (fun y hy => hfresh y ?_) x hxc htag
    rw [descendants_eq]
    exact mem_flatMap.mpr ⟨c₀, hc₀, hy⟩

end

section

def outgoing (store : Store) (s : Section) : Except Fault (List (Option String × Option String)) := do
  let path ← store.relative s.path "."
  let inner ← readMarkdown "markdown" (String.join s.lines)
  let marked ← setSource (.text path) inner
  return (marked.descendants.filter (Awaits .final ·)).map fun m =>
    (m.attribute? "uri",m.attribute? "source")

lemma mem_outgoing {s : Section} {marked m : Element} (ht : IsText fs s marked)
  (hm : m ∈ marked.descendants) (ha : Awaits .final m) : ∃ references, outgoing fs s = .ok references ∧
    (m.attribute? "uri",m.attribute? "source") ∈ references := by
  obtain ⟨path,inner,hr,hrd,hs⟩ := ht
  have hrn : outgoing fs s = .ok ((marked.descendants.filter (Awaits .final ·)).map fun m =>
      (m.attribute? "uri",m.attribute? "source")) := by
    rw [outgoing,hr,ok_bind,hrd,ok_bind,hs]
    rfl
  exact ⟨_,hrn,mem_map.mpr ⟨m,mem_filter.mpr ⟨hm,decide_eq_true ha⟩,rfl⟩⟩

def outerSection : Section := ⟨"/a/x.md","x",["See [doc://#y] and\n","more.\n"]⟩

def innerSection : Section := ⟨"/b/y.md","y",["yes\n"]⟩

def nestedShelf : Shelf := ⟨[innerSection,outerSection],["/a/x.md","/b/y.md"]⟩

def nestedStore : Store := .empty ["w"]

def nestedTree : Element :=
  { tag := "comment",
    children := [Markup.make "text" [] (some "Here: "),
      Markup.make "doc_uri" [("uri","doc://#x"),("resolved",isTrue false),("source","c.h")]] }

lemma outgoing_outer : (outgoing nestedStore outerSection).toOption =
    some [(some "doc://#y",some "../a/x.md")] := by decide +kernel

lemma outgoing_inner : (outgoing nestedStore innerSection).toOption = some [] := by decide +kernel

lemma inner_fragment : (Uri.parse (Shelf.slashed "doc://#y")).toOption.map (·.fragment) =
    some "y" := by decide +kernel

lemma nestedTree_run : (((resolveRounds .final nestedStore 2 nestedTree).perform
    nestedShelf).1.toOption.map (waiting .final)) = some [] := by decide +kernel

lemma sections_grown {σ : Shelf} {loaded : List String}
  (h : Shelf.Grown nestedStore nestedShelf σ loaded) : σ.sections = nestedShelf.sections :=
  (h.sections.eq_of_length_le (h.length_le.trans_eq (Nat.zero_add _))).symm

lemma nested_answerable : Answerable .final nestedStore nestedTree nestedShelf := by
  obtain ⟨e',he',hd⟩ := Option.map_eq_some_iff.mp nestedTree_run
  have hok := ok_of_toOption he'
  generalize hr : (resolveRounds .final nestedStore 2 nestedTree).perform nestedShelf = r at hok
  exact answerable_of_run (hr.trans (Prod.ext hok rfl)) hd

lemma nested_link {a b : Section} (h : Link .final nestedStore nestedTree nestedShelf a b) :
  b ∈ nestedShelf.sections ∧ (a ∈ nestedShelf.sections → a = outerSection ∧ b = innerSection) := by
  obtain ⟨marked,m,ht,hm,haw,t,todo,σ,σ',hmn,hfn⟩ := h
  obtain ⟨_,hg⟩ := hmn.grown
  obtain ⟨_,hg'⟩ := hg.find hfn
  obtain ⟨references,ho,hmm⟩ := mem_outgoing ht hm haw
  have hf := Shelf.find_mem hfn
  rw [sections_grown hg'] at hf
  refine ⟨hf,fun ha => ?_⟩
  rcases mem_pair.mp ha with rfl | rfl
  · have hnn : references = [] := by
      have hs := ok_of_toOption outgoing_inner
      exact Except.ok.inj (ho.symm.trans hs)
    rw [hnn] at hmm
    cases hmm
  have hon : references = [(some "doc://#y",some "../a/x.md")] := by
    have hs := ok_of_toOption outgoing_outer
    exact Except.ok.inj (ho.symm.trans hs)
  rw [hon] at hmm
  obtain ⟨hur,-⟩ := Prod.mk.inj (mem_singleton.mp hmm)
  obtain ⟨u,parts,file,hu,hpr,hfl,-,hl⟩ := Shelf.find_ok_iff.mp hfn
  cases hur.symm.trans hu
  refine ⟨rfl,?_⟩
  have hfr : parts.fragment = "y" := by
    obtain ⟨p,hp,hy⟩ := Option.map_eq_some_iff.mp inner_fragment
    rw [Except.ok.inj (hpr.symm.trans (ok_of_toOption hp))]
    exact hy
  have hn : b.name = parts.fragment := by
    have hft := of_mem_filter (mem_of_getLast? hl)
    rw [Shelf.fits,Bool.and_eq_true,beq_iff_eq] at hft
    exact hft.1
  rw [hfr] at hn
  rcases mem_pair.mp hf with rfl | rfl
  · rfl
  · exact absurd hn (by decide)

lemma nested_acyclic (s : Section) :
    ¬ Relation.TransGen (Link .final nestedStore nestedTree nestedShelf) s s := by
  intro h
  have hs : s ∈ nestedShelf.sections := by
    obtain ⟨b,-,hb⟩ := Relation.TransGen.tail'_iff.mp h
    exact (nested_link hb).1
  obtain ⟨b,hl,hr⟩ := Relation.TransGen.head'_iff.mp h
  obtain ⟨rfl,rfl⟩ := (nested_link hl).2 hs
  rcases Relation.ReflTransGen.cases_head hr with hsm | ⟨c,hn,-⟩
  · exact absurd hsm (by decide)
  · exact absurd ((nested_link hn).2 (nested_link hl).1).1 (by decide)

lemma nested_fresh : ∀ x ∈ nestedTree.descendants, Fresh x := by
  intro x hx
  rcases mem_pair.mp hx with rfl | rfl
  · exact fresh_of_tag "text" rfl
  · exact fun _ => ⟨rfl,rfl⟩

theorem resolveAll_fills_references_at_nested : (∀ x ∈ nestedTree.descendants, Fresh x) ∧
      Answerable .final nestedStore nestedTree nestedShelf ∧
      (∀ s, ¬ Relation.TransGen (Link .final nestedStore nestedTree nestedShelf) s s) ∧
      ∃ e' shelf', (resolveAll .final nestedStore nestedTree).perform nestedShelf =
        (.ok e', shelf') ∧
        (∀ x ∈ e'.descendants, x.value? "resolved" ≠ some (.text (isTrue false))) ∧
        (∀ x ∈ e'.descendants, x.tag = "doc_uri" →
          Filled nestedStore (Finds .final nestedStore nestedTree nestedShelf) x) ∧
        Settles .final nestedStore (Finds .final nestedStore nestedTree nestedShelf) nestedTree
          e' :=
  ⟨nested_fresh, nested_answerable, nested_acyclic,
    resolveAll_fills_references nested_fresh nested_answerable nested_acyclic⟩

end

end Docweave.Tree
