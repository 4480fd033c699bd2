import Docweave.Proofs.Layout.Regrouping
import Docweave.Proofs.Sections.Histories

namespace Docweave.Node

open List Act Markup Files
open String (join)

abbrev Look : Type := Store → Option String → Option String → Act Shelf Section

def soughtBy (look : Look) (groups : List (String × Option String)) : Act Desk Section := do
  let group := firstGroup groups "doc"
  Desk.tell (.ok s!"DocRenderer doc_uri {groupsQuoted groups} {orNone (group.map (·.1))}")
  let d ← get
  (look d.store (group.map (·.2)) d.source).within Desk.shelf fun shelf d => { d with shelf }

def graft (inner : String → Act Desk (List Node)) (found : Section) : Act Desk (List Node) := do
  let content := join found.lines
  if content.isEmpty then return []
  let ns ← inner content
  let contents ← if found.lines.length = 1 then Act.ofExcept (unwrap ns) else pure (.nodes ns)
  return [.item (some .included) none .none contents]

def rendererBy (look : Look) (inner : String → Act Desk (List Node)) : Renderer Desk Node :=
  { renderer inner with reference f := soughtBy look (Markup.reference.groups f) >>= graft inner }

def readBy (look : Look) : Nat → String → Act Desk (List Node)
  | 0, _ => return []
  | depth + 1, s =>
      (render (rendererBy look (readBy look depth)) s).within (fun d => ⟨{},{ d with verbose := false }⟩)
        fun session d => { session.env with verbose := d.verbose }

lemma inclusion_eq (inner : String → Act Desk (List Node)) (groups : List (String × Option String)) :
  inclusion inner groups = soughtBy Shelf.find groups >>= graft inner := by
  rw [soughtBy,bind_assoc]
  rfl

lemma readBy_find (depth : Nat) : readBy Shelf.find depth = readInner depth := by
  induction depth with
  | zero => rfl
  | succ depth ih =>
    funext s
    have hr : rendererBy Shelf.find (readInner depth) = renderer (readInner depth) := by
      rw [rendererBy,renderer]
      simp only [inclusion_eq]
    rw [readBy,ih,hr]
    rfl

section

variable {d d₁ d₂ : Desk} {s : Section} {groups : List (String × Option String)} {n : Node} {ns : List Node}
  {contents : Contents} {depth : Nat}

lemma readInner_empty (depth : Nat) (d : Desk) : (readInner depth "").perform d = (.ok [],d) := by
  cases depth with
  | zero => rfl
  | succ depth =>
    have ht : takeText "" {} = {} := by decide +kernel
    have hc : (changeReader (takeText "")).perform (⟨{},{ d with verbose := false }⟩ : Session Desk) =
        (.ok (),⟨{},{ d with verbose := false }⟩) := by rw [← ht]; rfl
    have hr : (render (renderer (readInner depth)) "").perform ⟨{},{ d with verbose := false }⟩ =
        (.ok [],⟨{},{ d with verbose := false }⟩) := perform_bind hc _
    exact congrArg (fun p : _ × Session Desk => (p.1,{ p.2.env with verbose := d.verbose })) hr

def IsParagraph (n : Node) (contents : Contents) : Prop :=
  n.kind? = .ok (some (.block .paragraph)) ∧ ∃ block span trait, n = .item block span trait contents

lemma unwrap_ok_iff : unwrap ns = .ok contents ↔ ∃ n rest, ns = n :: rest ∧ IsParagraph n contents := by
  rcases ns with _ | ⟨n,rest⟩
  · constructor
    · intro h
      cases h
    · rintro ⟨_,_,h,-⟩
      cases h
  constructor
  · intro h
    obtain ⟨kind,hk,h⟩ := bind_ok h
    split at h
    · cases h
      exact ⟨_,rest,rfl,hk,_,_,_,rfl⟩
    · cases h
  · rintro ⟨_,_,h,hk,b,span,trait,rfl⟩
    cases h
    exact (congrArg (· >>= _) hk :)

def opened (ns : List Node) : List Node := (ns.flatMap strands).map Strand.node

def Carries (out ns : List Node) : Prop :=
  opened out = ns ∨ ∃ n contents, ns = [n] ∧ IsParagraph n contents ∧ opened out = membersOf contents

lemma opened_included (contents : Contents) :
  opened [.item (some .included) none .none contents] = membersOf contents := by
  simp [opened,strands,Function.comp_def]

lemma not_carries_unwrapped {rest : List Node} (h : IsParagraph n contents) (hr : rest ≠ []) :
  ¬ Carries [.item (some .included) none .none contents] (n :: rest) := by
  obtain ⟨-,b,span,trait,rfl⟩ := h
  rintro (h | ⟨_,_,h,-⟩)
  · rw [opened_included] at h
    cases contents with
    | text s =>
      cases hs : s.toList <;> simp [membersOf,hs] at h
    | nodes ms =>
      have := congrArg sizeOf h
      simp [membersOf] at this
      omega
  · exact hr (cons.inj h).2

lemma graft_ok_iff {inner : String → Act Desk (List Node)} {out : List Node} (hc : join s.lines ≠ "")
    (hp : (inner (join s.lines)).perform d = (.ok ns,d₁)) : (graft inner s).perform d = (.ok out,d₁) ↔
      ∃ contents, (if s.lines.length = 1 then unwrap ns else .ok (.nodes ns)) = .ok contents ∧
        out = [.item (some .included) none .none contents] := by
  have he : (join s.lines).isEmpty = false := by simpa using hc
  rw [graft]
  simp only [he,Bool.false_eq_true,if_false]
  rw [perform_bind hp]
  have hu (a : Except Fault Contents) :
      (Act.ofExcept a >>= fun c => pure [.item (some .included) none .none c]).perform d₁ = (.ok out,d₁) ↔
        ∃ c, a = .ok c ∧ out = [.item (some .included) none .none c] := by
    constructor
    · intro h
      obtain ⟨c,ha,h⟩ := ofExcept_bind_ok h
      cases h
      exact ⟨c,ha,rfl⟩
    · rintro ⟨c,ha,rfl⟩
      exact perform_ofExcept_bind ha _
  split
  · exact hu (unwrap ns)
  · exact hu (.ok (.nodes ns))

lemma graft_keeps_text_iff (hp : (readInner depth (join s.lines)).perform d₁ = (.ok ns,d₂)) :
  (∃ out, (graft (readInner depth) s).perform d₁ = (.ok out,d₂) ∧ Carries out ns) ↔
    (s.lines.length = 1 → join s.lines = "" ∨ ∃ n contents, ns = [n] ∧ IsParagraph n contents) := by
  by_cases hc : join s.lines = ""
  · rw [hc,readInner_empty] at hp
    cases hp
    have hf : (graft (readInner depth) s).perform d₁ = (.ok [],d₁) := by rw [graft,hc]; rfl
    exact ⟨fun _ _ => .inl hc,fun _ => ⟨[],hf,.inl rfl⟩⟩
  simp only [graft_ok_iff hc hp,hc,false_or]
  by_cases hl : s.lines.length = 1
  · simp only [hl,if_true,unwrap_ok_iff,forall_const]
    constructor
    · rintro ⟨out,⟨contents,⟨n,rest,rfl,hn⟩,rfl⟩,hk⟩
      by_cases hr : rest = []
      · exact ⟨n,contents,by rw [hr],hn⟩
      · exact absurd hk (not_carries_unwrapped hn hr)
    · rintro ⟨n,contents,rfl,hn⟩
      exact ⟨_,⟨contents,⟨n,[],rfl,hn⟩,rfl⟩,.inr ⟨n,contents,rfl,hn,opened_included contents⟩⟩
  · simp only [hl,if_false,false_implies,iff_true]
    exact ⟨_,⟨_,rfl,rfl⟩,.inl (opened_included _)⟩

def parsed (depth : Nat) (groups : List (String × Option String)) : Act Desk (Section × List Node) := do
  let s ← soughtBy Shelf.find groups
  return (s,← readInner depth (join s.lines))

lemma parsed_ok (h : (parsed depth groups).perform d = (.ok (s,ns),d₂)) : ∃ d₁,
  (soughtBy Shelf.find groups).perform d = (.ok s,d₁) ∧
    (readInner depth (join s.lines)).perform d₁ = (.ok ns,d₂) := by
  obtain ⟨s',d₁,hs,h⟩ := Act.bind_ok h
  obtain ⟨ns',d3,hp,he⟩ := Act.bind_ok h
  cases he
  exact ⟨d₁,hs,hp⟩

theorem inclusion_keeps_text_iff (h : (parsed depth groups).perform d = (.ok (s, ns), d₂)) :
    (∃ out, (inclusion (readInner depth) groups).perform d = (.ok out, d₂) ∧ Carries out ns) ↔
      (s.lines.length = 1 → String.join s.lines = "" ∨ ∃ n contents, ns = [n] ∧
        IsParagraph n contents) := by
  obtain ⟨d₁,hs,hp⟩ := parsed_ok h
  rw [inclusion_eq,perform_bind hs,graft_keeps_text_iff hp]

section

def chained : Desk where
  store := ((Store.empty ["w"]).provide "a.md" (.text "# one\n[doc://./b.md#two]")).provide "b.md"
    (.text "# two\na\n\nb\n")
  source := some "s.h"

def named (uri : String) : List (String × Option String) := [("docBare",some uri),("docBrackets",none)]

lemma exists_perform {σ α β : Type} {a : Act σ α} {t : σ} {f : α → β} {y : β}
  (h : (a.perform t).1.toOption.map f = some y) : ∃ x t', a.perform t = (.ok x,t') ∧ f x = y := by
  obtain ⟨x,hx,rfl⟩ := Option.map_eq_some_iff.mp h
  exact ⟨x,_,perform_of_toOption hx,rfl⟩

lemma parsed_chained {uri : String} {s : Section} {n : Nat}
  (h : ((parsed chained.depth (named uri)).perform chained).1.toOption.map
    (fun p => (p.1,p.2.length)) = some (s,n)) :
  ∃ ns d, (parsed chained.depth (named uri)).perform chained = (.ok (s,ns),d) ∧ ns.length = n := by
  obtain ⟨⟨s',ns⟩,d,hp,he⟩ := exists_perform h
  obtain ⟨rfl,rfl⟩ := Prod.mk.inj he
  exact ⟨ns,d,hp,rfl⟩

end

theorem several_lines_keep_text : ∃ s ns d out,
    (parsed chained.depth (named "doc://./b.md#two")).perform chained = (.ok (s, ns), d) ∧
    ns.length = 2 ∧
    (inclusion (readInner chained.depth) (named "doc://./b.md#two")).perform chained =
      (.ok out, d) ∧
    Carries out ns := by
  obtain ⟨ns,d,hp,hl⟩ := @parsed_chained "doc://./b.md#two" ⟨"/w/b.md","two",["a\n","\n","b\n"]⟩ 2
    (by decide +kernel)
  obtain ⟨out,ho,hc⟩ := (inclusion_keeps_text_iff hp).mpr fun h => absurd h (by simp)
  exact ⟨_,ns,d,out,hp,hl,ho,hc⟩

theorem line_with_marker_loses_text : ∃ s ns d,
    (parsed chained.depth (named "doc://./a.md#one")).perform chained = (.ok (s, ns), d) ∧
    s.lines.length = 1 ∧ ns.length = 2 ∧
    ¬ ∃ out, (inclusion (readInner chained.depth) (named "doc://./a.md#one")).perform chained =
      (.ok out, d) ∧
      Carries out ns := by
  obtain ⟨ns,d,hp,hl⟩ := @parsed_chained "doc://./a.md#one" ⟨"/w/a.md","one",
    ["[doc://./b.md#two]"]⟩ 2 (by decide +kernel)
  refine ⟨_,ns,d,hp,rfl,hl,?_⟩
  obtain ⟨d₁,hs,hf⟩ := parsed_ok hp
  rw [inclusion_eq,perform_bind hs,graft_keeps_text_iff hf]
  intro h
  rcases h rfl with he | ⟨n,contents,rfl,-⟩
  · exact absurd he (by decide)
  · cases hl

end

section

variable {src : Option String} {fs : Store} {look look' : Look} {inner inner' : String → Act Desk (List Node)}
  {d d₁ : Desk} {s : Section} {groups : List (String × Option String)} {uri base : Option String} {depth : Nat}

def At (source : Option String) (store : Store) (d : Desk) : Prop := d.source = source ∧ d.store = store

lemma agree_tell (line : Except Fault String) : Agree (At src fs) (Desk.tell line)
    (Desk.tell line) fun _ => True := by
  refine fun d hd => ⟨rfl,fun _ d' h => ⟨?_,trivial⟩⟩
  have h := get_bind_ok h
  split at h
  · obtain ⟨_,-,h⟩ := ofExcept_bind_ok h
    cases h
    exact hd
  · cases h
    exact hd

lemma agree_told (line : Except Fault String) (a : Except Fault (List Node)) :
  Agree (At src fs) (Desk.tell line >>= fun _ => Act.ofExcept a) (Desk.tell line >>= fun _ => Act.ofExcept a)
    (All fun _ => True) :=
  (agree_tell line).bind fun _ _ => agree_ofExcept fun _ _ _ _ => trivial

lemma agree_sought (hl : ∀ uri, look' fs uri src = look fs uri src) (groups : List (String × Option String)) :
  Agree (At src fs) (soughtBy look groups) (soughtBy look' groups) fun _ => True := by
  refine (agree_tell _).bind fun _ _ => ?_
  rintro d ⟨rfl,rfl⟩
  refine ⟨?_,fun s d' h => ?_⟩
  · rw [perform_get_bind,perform_get_bind,hl]
  · obtain ⟨-,rfl⟩ := Prod.ext_iff.mp h
    exact ⟨⟨rfl,rfl⟩,trivial⟩

lemma agree_graft (hi : ∀ text, Agree (At src fs) (inner text) (inner' text) (All fun _ => True)) (s : Section) :
  Agree (At src fs) (graft inner s) (graft inner' s) (All fun _ => True) := by
  rw [graft,graft]
  dsimp only
  split
  · exact agree_pure all_nil
  refine (hi _).bind fun ns _ => ?_
  split
  · exact (agree_ofExcept fun _ _ => trivial).bind fun _ _ => agree_pure fun _ _ => trivial
  · exact agree_pure fun _ _ => trivial

lemma rendererBy_keeps (hl : ∀ uri, look' fs uri src = look fs uri src)
    (hi : ∀ text, Agree (At src fs) (inner text) (inner' text) (All fun _ => True)) :
    (rendererBy look inner).Preserves (rendererBy look' inner') (At src fs) (fun _ => True) fun _ => True where
  stray _ := ⟨rfl,trivial⟩
  reference _ := (agree_sought hl _).bind fun s _ => agree_graft hi s
  autolink _ _ := agree_told _ (.ok _)
  codeSpan _ := agree_told _ (.ok _)
  strong _ _ := agree_told _ (.ok _)
  emphasis _ _ := agree_told _ (.ok _)
  text _ := agree_told _ (.ok _)
  html _ := agree_told _ (.ok _)
  blockCode _ _ _ := agree_told _ (.ok _)
  header _ _ _ _ := agree_told _ _
  list _ _ _ := agree_told _ _
  member _ _ := agree_told _ _
  paragraph _ _ := (agree_ofExcept fun _ _ => trivial).bind fun _ _ =>
    (agree_ofExcept fun _ _ => trivial).bind fun _ _ => agree_told _ (.ok _)
  newline := agree_told _ (.ok _)

lemma agree_readBy (hl : ∀ uri, look' fs uri src = look fs uri src) (depth : Nat) (text : String) :
  Agree (At src fs) (readBy look depth text) (readBy look' depth text) (All fun _ => True) := by
  induction depth generalizing text with
  | zero => exact agree_pure all_nil
  | succ depth ih =>
    exact (agree_render (agree_renderToken (rendererBy_keeps hl ih)) fun _ _ _ _ => trivial).within
      (fun _ hd => ⟨all_nil,hd⟩) fun _ _ _ hs => hs.2

def Asks (depth : Nat) (text : String) (d : Desk) (uri base : Option String) : Prop :=
  ∃ look : Look, (∀ store u b, (u,b) ≠ (uri,base) → look store u b = Shelf.find store u b) ∧
    (readBy look depth text).perform d ≠ (readInner depth text).perform d

lemma base_of_asks {text : String} (h : Asks depth text d uri base) : base = d.source := by
  obtain ⟨look,hl,hne⟩ := h
  by_contra hb
  rw [← readBy_find] at hne
  refine hne ((agree_readBy (fun u => hl d.store u d.source ?_) depth text) d ⟨rfl,rfl⟩).1
  exact fun he => hb (Prod.mk.inj he).2.symm

def LeadsTo (store : Store) (parts : Uri) (base : Option String) (place : List String) : Prop :=
  ∃ root, Path.IsRoot root ∧ Shelf.fileOf store parts base = .ok (some (Path.spell root place))

lemma proper_destination (fs : Store) (file : String) (parts : Uri) :
  ∀ n ∈ Shelf.destination fs file parts, Path.Proper n := by
  obtain ⟨root,names,hr,hn,hb⟩ := Path.absolute_spelled fs.isAbsolute_cwd file
  have hf : ∀ n ∈ (Path.namesOf (fs.absolute file)).dropLast, Path.Proper n := by
    rw [show fs.absolute file = Path.spell root names from hb,Path.namesOf_spell hr hn]
    exact fun n h => hn n (dropLast_subset _ h)
  intro n h
  refine Path.proper_walk _ (fun n h => ?_) n (mem_reverse.mp h)
  have h := mem_reverse.mp h
  split at h
  · exact hf n (dropLast_subset _ h)
  · exact hf n h

lemma leadsTo_destination_iff {parts : Uri} (hd : parts.authority = "." ∨ parts.authority = "..")
  (hp : Uri.Rooted parts.path.toList) (base : Option String) (file : String) :
  LeadsTo fs parts base (Shelf.destination fs file parts) ↔
    ∃ outer, base = some outer ∧ Shelf.destination fs outer parts = Shelf.destination fs file parts := by
  cases base with
  | none =>
    have hne : parts.authority ≠ "" := by rcases hd with h | h <;> rw [h] <;> decide
    constructor
    · rintro ⟨_,-,h⟩
      rw [Shelf.fileOf,if_neg hne,if_pos hd] at h
      cases h
    · rintro ⟨_,h,-⟩
      cases h
  | some outer =>
    obtain ⟨root,hr,hf⟩ := @Shelf.fileOf_dotted fs parts hd hp outer
    constructor
    · rintro ⟨root',hr',hf'⟩
      refine ⟨outer,rfl,?_⟩
      have he := congrArg Path.namesOf (Option.some.inj (Except.ok.inj (hf.symm.trans hf')))
      rwa [Path.namesOf_spell hr (proper_destination _ _ _),
        Path.namesOf_spell hr' (proper_destination _ _ _)] at he
    · rintro ⟨_,ho,he⟩
      cases ho
      exact ⟨root,hr,he ▸ hf⟩

theorem included_marker_leads_iff {uri : String} {parts : Uri}
    (hs : (soughtBy Shelf.find groups).perform d = (.ok s, d₁))
    (ha : Asks depth (String.join s.lines) d₁ (some uri) base)
    (hp : Uri.parse (Shelf.slashed uri) = .ok parts)
    (hd : parts.authority = "." ∨ parts.authority = "..") :
    base = d.source ∧ ∀ file, LeadsTo d.store parts base (Shelf.destination d.store file parts) ↔
      ∃ outer, d.source = some outer ∧
        Shelf.destination d.store outer parts = Shelf.destination d.store file parts := by
  obtain ⟨⟨hsource,-⟩,-⟩ := (@agree_sought _ _ Shelf.find _ (fun _ => rfl) groups d ⟨rfl,rfl⟩).2 s d₁ hs
  have hb : base = d.source := (base_of_asks ha).trans hsource
  have hne : parts.authority ≠ "" := by rcases hd with h | h <;> rw [h] <;> decide
  refine ⟨hb,fun file => ?_⟩
  rw [leadsTo_destination_iff hd (Uri.rooted_path hp hne),hb]

section

def roaming (source : String) : Desk where
  store := (((Store.empty ["w"]).provide "docs/a.md"
    (.text "# one\nx\n\n[doc://./b.md#two]\n")).provide "docs/b.md"
    (.text "# two\nb\n")).provide "src/b.md" (.text "# two\nwrong\n")
  source := some source

def sectionOne : Section := ⟨"/w/docs/a.md","one",["x\n","\n","[doc://./b.md#two]\n"]⟩

def markerOfB : Uri := { scheme := "doc", authority := ".", path := "/b.md", fragment := "two" }

lemma parse_markerOfB : Uri.parse (Shelf.slashed "doc://./b.md#two") = .ok markerOfB :=
  ok_of_toOption (by with_unfolding_all rfl)

def refuseB (base : String) : Look := fun store u b =>
  if (u,b) = (some "doc://./b.md#two",some base) then Act.fail (.missing "section") else Shelf.find store u b

lemma asks_refuseB {base text : String} {d : Desk}
  (h : ((readBy (refuseB base) depth text).perform d).1.toOption.isSome ≠
    ((readInner depth text).perform d).1.toOption.isSome) :
  Asks depth text d (some "doc://./b.md#two") (some base) :=
  ⟨refuseB base,fun _ _ _ hn => if_neg hn,fun he => h (congrArg (·.1.toOption.isSome) he)⟩

end

theorem included_marker_leads_from_same_folder : ∃ d₁,
    (soughtBy Shelf.find (named "doc://../docs/a.md#one")).perform (roaming "docs/x.h") =
      (.ok sectionOne, d₁) ∧
    Asks 2 (String.join sectionOne.lines) d₁ (some "doc://./b.md#two") (some "docs/x.h") ∧
    LeadsTo (roaming "docs/x.h").store markerOfB (some "docs/x.h")
      (Shelf.destination (roaming "docs/x.h").store sectionOne.path markerOfB) := by
  have hs : (soughtBy Shelf.find (named "doc://../docs/a.md#one")).perform (roaming "docs/x.h") =
      (.ok sectionOne, _) := Prod.ext (ok_of_toOption (by decide +kernel)) rfl
  have ha := @asks_refuseB 2 "docs/x.h" (String.join sectionOne.lines)
    ((soughtBy Shelf.find (named "doc://../docs/a.md#one")).perform (roaming "docs/x.h")).2 (by decide +kernel)
  refine ⟨_,hs,ha,?_⟩
  exact ((included_marker_leads_iff hs ha parse_markerOfB (.inl rfl)).2 _).mpr ⟨"docs/x.h",rfl,by decide +kernel⟩

theorem included_marker_strays : ∃ d₁ base ns d₂,
    (soughtBy Shelf.find (named "doc://../docs/a.md#one")).perform (roaming "src/source.h") =
      (.ok sectionOne, d₁) ∧
    Asks 2 (String.join sectionOne.lines) d₁ (some "doc://./b.md#two") base ∧
    ¬ LeadsTo (roaming "src/source.h").store markerOfB base
      (Shelf.destination (roaming "src/source.h").store sectionOne.path markerOfB) ∧
    (readInner 2 (String.join sectionOne.lines)).perform d₁ = (.ok ns, d₂) ∧
    (listQuoted ns).toOption = some "[('PARAGRAPH', ('TEXT', 'x')), ('PARAGRAPH', ('TEXT', 'wrong'))]" := by
  have hs : (soughtBy Shelf.find (named "doc://../docs/a.md#one")).perform (roaming "src/source.h") =
      (.ok sectionOne, _) := Prod.ext (ok_of_toOption (by decide +kernel)) rfl
  have ha := @asks_refuseB 2 "src/source.h" (String.join sectionOne.lines)
    ((soughtBy Shelf.find (named "doc://../docs/a.md#one")).perform (roaming "src/source.h")).2
      (by decide +kernel)
  have hr : (((readInner 2 (String.join sectionOne.lines)).perform ((soughtBy Shelf.find
      (named "doc://../docs/a.md#one")).perform (roaming "src/source.h")).2).1.toOption.map
        fun ns => (listQuoted ns).toOption) =
      some (some "[('PARAGRAPH', ('TEXT', 'x')), ('PARAGRAPH', ('TEXT', 'wrong'))]") := by decide +kernel
  obtain ⟨ns,d₂,hr,hq⟩ := exists_perform hr
  refine ⟨_,_,ns,d₂,hs,ha,?_,hr,hq⟩
  rw [leadsTo_destination_iff (.inl rfl) (Uri.rooted_path parse_markerOfB (by decide))]
  rintro ⟨_,ho,he⟩
  cases ho
  exact absurd he (by decide +kernel)

example : (["docs/x.h", "src/x.h"].map fun file => Shelf.destination (Store.empty ["w"]) file
    { authority := ".", path := "/b.md" }) = [["w", "docs", "b.md"], ["w", "src", "b.md"]] := by
  decide +kernel

end

end Docweave.Node
