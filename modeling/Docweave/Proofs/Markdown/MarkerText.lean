import Docweave.Proofs.Markdown.Preparing
import Docweave.Proofs.Sections.Lookups

namespace Docweave

open List
open String (ofList)

lemma Act.perform_within {σ τ α : Type} {get : τ → σ} {set : σ → τ → τ} {a : Act σ α} {t : τ}
    {res : Except Fault α}
  {s : σ} (h : a.perform (get t) = (res,s)) : (a.within get set).perform t = (res,set s t) := by
  have hr : (a.within get set).perform t = ((a.perform (get t)).1,set (a.perform (get t)).2 t) := rfl
  rw [hr,h]

namespace Pattern

open Cursor (Reaches)

lemma meet_none {p : Pattern} {c : Cursor} {next : Following}
  (h : ∀ d, Reaches c d → next d = none) : p.meet c next = none := by
  cases hm : p.meet c next with
  | none => rfl
  | some c' =>
    obtain ⟨d,hd,hn⟩ := reaches_meet p hm
    rw [h d hd] at hn
    cases hn

lemma meet_absent {xs cs : List Char} (h : ¬ xs <:+: cs) (p : Pattern) (next : Following) :
  p.meet (Cursor.start cs) (fun c => (c.take? xs).bind next) = none := by
  refine meet_none fun d hd => ?_
  obtain ⟨skipped,hr,-,-⟩ := hd
  have ht : d.take? xs = none := by
    refine Cursor.take?_eq_none xs d fun hp => h ?_
    obtain ⟨after,ha⟩ := hp
    have hcs : cs = skipped ++ d.rest := hr
    exact ⟨skipped,after,by rw [append_assoc,ha,← hcs]⟩
  rw [ht]
  rfl

end Pattern

namespace Markup

open Pattern

def Tight (cs : List Char) : Prop :=
  ∀ c ∈ cs, Text.isBlank c = false ∧ c ≠ ']' ∧ c.toNat ≠ 9252

def bracketed (body : List Char) : List Char := '[' :: 'd' :: 'o' :: 'c' :: ':' :: '/' :: '/' :: (body ++ [']'])

def bracketedFound (body : List Char) : Found := ⟨[],bracketed body,[],[("docBrackets",⟨1,7 + body.length⟩)]⟩

def wholeLine (cs : List Char) : Found := ⟨[],cs,[],[("text",⟨0,cs.length⟩)]⟩

def docUri (uri : String) : Element :=
  make "doc_uri" [("transcript","groups:docBrackets"),("uri",uri),
    ("resolved",Element.isTrue false)]

def markerBlock (body : List Char) : Element :=
  make "paragraph" [("newlines","2")] none [docUri ("doc://" ++ ofList body)]

lemma matchStart_none {p : Pattern} {cs : List Char} (h : p.meet (Cursor.start cs) some = none) :
  p.matchStart cs = none := by
  rw [matchStart,foundAt_still,h]
  rfl

lemma paragraph_line {cs : List Char} (hne : cs ≠ []) (h : '\n' ∉ cs) :
  paragraph.matchStart cs = some (wholeLine cs) := by
  let c : Cursor := (Cursor.start cs).skip cs []
  have ha : ∀ ch ∈ cs, notNewline ch := by
    intro ch hch
    have hf : ch ≠ '\n' := fun heq => h (heq ▸ hch)
    simpa [notNewline] using hf
  have hm : paragraph.meet (Cursor.start cs) some = some (c.record "text" 0) := by
    have hl : 1 ≤ (cs.takeWhile notNewline).length := by
      rw [takeWhile_eq_self_iff.mpr ha]
      exact length_pos_iff.mpr hne
    have hr : (Cursor.start cs).rest = cs := rfl
    refine runGreedy_longest rfl hl ?_
    rw [hr,takeWhile_eq_self_iff.mpr ha,dropWhile_eq_nil_iff.mpr ha]
    rw [Nat.add_comm]
    rfl
  rw [matchStart,foundAt_still,hm]
  have hc : c.record "text" 0 = ⟨cs.reverse,[],cs.length,[("text",⟨0,cs.length⟩)]⟩ := by
    simp [c,Cursor.skip,Cursor.start,Cursor.record]
  rw [hc,Option.map_some,Found.between_start,wholeLine]

lemma dropEndNewlines_bracketed (body : List Char) : dropEndNewlines (bracketed body) = bracketed body := by
  have hl : bracketed body = ('[' :: ("doc://".toList ++ body)) ++ [']'] := rfl
  rw [hl,dropEndNewlines,Text.dropEndWhile]
  simp

lemma referenceElement_bracketed (body : List Char) :
  referenceElement (bracketedFound body) = pure [.element (docUri ("doc://" ++ ofList body))] := by
  have ht : (bracketedFound body).textD "docBrackets" = "doc://" ++ ofList body := by
    have hs : Found.slice (Found.subject ⟨[],bracketed body,[],[]⟩) ⟨1,7 + body.length⟩ =
      "doc://".toList ++ body :=
      Found.slice_eq ['['] [']'] _ (by simp [Found.subject,bracketed]) rfl (by simp; omega)
    exact (congrArg ofList hs).trans (String.ofList_append ..)
  have hr : reference.inOrder (bracketedFound body) = [("docBrackets",⟨1,7 + body.length⟩)] := rfl
  rw [referenceElement,hr,map_singleton,head?_cons,Option.map_some,ht]
  rfl

section

variable {body : List Char} (h : Tight body)

include h

lemma tight_inside : Tight ("doc://".toList ++ body) := by
  have hs : Tight "doc://".toList := by
    intro c hc
    replace hc : c ∈ ['d','o','c',':','/','/'] := hc
    simp only [mem_cons,not_mem_nil,or_false] at hc
    rcases hc with rfl | rfl | rfl | rfl | rfl | rfl <;> decide
  intro c hc
  exact (mem_append.mp hc).elim (hs c) (h c)

lemma solid_bracketed : ∀ c ∈ bracketed body, Text.isBlank c = false ∧ c.toNat ≠ 9252 := by
  intro c hc
  have hin : c ∈ '[' :: ("doc://".toList ++ body ++ [']']) := hc
  rcases mem_cons.mp hin with rfl | hin
  · decide
  · rcases mem_append.mp hin with hin | hin
    · exact ⟨(tight_inside h c hin).1,(tight_inside h c hin).2.2⟩
    · obtain rfl := mem_singleton.mp hin
      decide

lemma not_mem_bracketed {c : Char} (hc : Text.isBlank c) : c ∉ bracketed body := by
  intro hin
  rw [(solid_bracketed h c hin).1] at hc
  cases hc

lemma linkDefinition_none : linkDefinition.matchStart (bracketed body) = none := by
  have ha : ¬ [']',':'] <:+: bracketed body := by
    rintro ⟨before,after,heq⟩
    have hin : before ++ [']',':'] ++ after = ('[' :: ("doc://".toList ++ body)) ++ [']'] := heq
    have hm : ']' ∈ '[' :: ("doc://".toList ++ body) := by
      have hd := congrArg List.dropLast hin
      rw [dropLast_concat] at hd
      rw [← hd]
      rw [append_assoc,dropLast_append_of_ne_nil (by simp)]
      exact mem_append_right _ (by cases after <;> simp [List.dropLast])
    rcases mem_cons.mp hm with hc | hc
    · exact absurd hc (by decide)
    · exact (tight_inside h _ hc).2.1 rfl
  exact matchStart_none (meet_absent ha _ _)

lemma firstMatch_bracketed : firstMatch (bracketed body) BlockRule.document =
    some (.paragraph,wholeLine (bracketed body)) := by
  have hf : '\n' ∉ bracketed body := not_mem_bracketed h (by decide)
  have hn : ¬ ['\n'] <:+: bracketed body := fun hin => hf (hin.subset mem_cons_self)
  have hp : BlockRule.plainTable.pattern.matchStart (bracketed body) = none :=
    matchStart_none (meet_absent hn _ _)
  have hu : BlockRule.underlined.pattern.matchStart (bracketed body) = none :=
    matchStart_none (meet_absent hn _ _)
  have hl : BlockRule.linkDefinition.pattern.matchStart (bracketed body) = none := linkDefinition_none h
  have hpr : BlockRule.paragraph.pattern.matchStart (bracketed body) = some (wholeLine (bracketed body)) :=
    paragraph_line nofun hf
  have hs : firstMatch (bracketed body) BlockRule.document = firstMatch (bracketed body)
      [.plainTable,.underlined,.quote,.list,.html,.linkDefinition,.footnoteDefinition,.table,
        .paragraph,.textLine] := rfl
  rw [hs,firstMatch,hp]
  rw [firstMatch,hu]
  have hm : firstMatch (bracketed body) [.quote,.list,.html,.linkDefinition,.footnoteDefinition,
      .table,.paragraph,.textLine] = firstMatch (bracketed body)
      [.linkDefinition,.footnoteDefinition,.table,.paragraph,.textLine] := rfl
  rw [hm,firstMatch,hl]
  have he : firstMatch (bracketed body) [.footnoteDefinition,.table,.paragraph,.textLine] =
      firstMatch (bracketed body) [.paragraph,.textLine] := rfl
  rw [he,firstMatch,hpr]

lemma prepare_bracketed : prepare (ofList (bracketed body)) = bracketed body := by
  have hr : '\r' ∉ bracketed body := not_mem_bracketed h (by decide)
  have ht : '\t' ∉ bracketed body := not_mem_bracketed h (by decide)
  have hs : ' ' ∉ bracketed body := not_mem_bracketed h (by decide)
  have he : Text.expandTabsFrom 4 0 (bracketed body) = bracketed body :=
    (Comment.AsRead.expanded (by decide) 0 hr).eq ht hr
  have hsy : ((bracketed body).map fun c => if c.toNat = 9252 then '\n' else c) = bracketed body :=
    (map_congr_left fun c hc => if_neg (solid_bracketed h c hc).2).trans (map_id _)
  have hp : prepare (ofList (bracketed body)) = blankLine.removeAll
      ((Text.expandTabsFrom 4 0 (Text.normalizeNewlines (ofList (bracketed body)).toList)).map
        fun c => if c.toNat = 9252 then '\n' else c) := rfl
  rw [hp,String.toList_ofList,Text.normalizeNewlines_of_no_return hr,he,hsy,removeAll_of_no_space hs]

lemma lexed_bracketed (l : Lexed) : l.add (bracketed body) = l.push (.paragraph (ofList (bracketed body))) := by
  have ht : (wholeLine (bracketed body)).chars? "text" = some (bracketed body) := by
    change some (Found.slice _ _) = _
    simp [Found.slice,Found.subject,wholeLine]
  rw [Lexed.add,dropEndNewlines_bracketed,lexFrom,firstMatch_bracketed h]
  dsimp only
  rw [ht,Option.getD_some,dropEndNewlines_bracketed]
  cases (bracketed body).length <;> rfl

lemma reference_bracketed : reference.pattern.matchStart (bracketed body) = some (bracketedFound body) := by
  let inside : Char → Bool := fun c => !Text.isBlank c && c != ']'
  have hi : ∀ c ∈ body, inside c := by
    intro c hc
    simpa [inside] using ⟨(h c hc).1,(h c hc).2.1⟩
  have ht : (body ++ [']']).takeWhile inside = body := by
    rw [takeWhile_append_of_pos hi]
    exact append_nil body
  have hd : (body ++ [']']).dropWhile inside = [']'] := by
    rw [dropWhile_append_of_pos hi]
    rfl
  let opened : Cursor := ⟨['/','/',':','c','o','d','['],body ++ [']'],7,[]⟩
  have hm : reference.pattern.meet (Cursor.start (bracketed body)) some =
      some ⟨(bracketed body).reverse,[],(bracketed body).length,[("docBrackets",⟨1,7 + body.length⟩)]⟩ := by
    have hr : runGreedy inside (fun c' => (many Text.isBlank ++ lit "]").meet
        (c'.record "docBrackets" 1) some) 0 none (body ++ [']']) opened =
        some ⟨(bracketed body).reverse,[],(bracketed body).length,[("docBrackets",⟨1,7 + body.length⟩)]⟩ := by
      refine runGreedy_longest rfl (Nat.zero_le _) ?_
      rw [ht,hd]
      change some _ = some _
      simp [opened,bracketed,Cursor.skip,Cursor.record,Cursor.advance]
      omega
    exact hr
  rw [matchStart,foundAt_still,hm,Option.map_some,Found.between_start,bracketedFound]

lemma firstRule_bracketed (inner : List Char → Act (Session Unit) (List Shoot))
  (s : Session Unit) : (firstRule elementRenderer inner (bracketed body) InlineRule.all).perform s =
    (.ok (some ([.element (docUri ("doc://" ++ ofList body))],[])),s) := by
  have he : InlineRule.escaped.pattern.matchStart (bracketed body) = none := rfl
  have hr : InlineRule.reference.pattern.matchStart (bracketed body) = some (bracketedFound body) :=
    reference_bracketed h
  rw [InlineRule.all,firstRule,he]
  rw [firstRule,hr]
  dsimp only
  have hh : (hook (elementRenderer.reference (bracketedFound body))).perform s =
      (.ok [.element (docUri ("doc://" ++ ofList body))],s) := by
    rw [show elementRenderer.reference = referenceElement from rfl,referenceElement_bracketed]
    rfl
  rw [Act.perform_bind (Act.perform_bind hh _)]
  rfl

lemma spans_bracketed {s : Session Unit} (hs : s.reader.inFootnote = false) :
  (spans elementRenderer (ofList (bracketed body))).perform s =
    (.ok [.element (docUri ("doc://" ++ ofList body))],s) := by
  rw [spans,String.toList_ofList,dropEndNewlines_bracketed]
  have hr : (getReader : Act (Session Unit) Reader).perform s = (.ok s.reader,s) := rfl
  rw [Act.perform_bind hr,hs]
  rw [spansFrom]
  · exact Act.perform_bind (firstRule_bracketed h _ s) _
  · nofun

lemma renderAll_bracketed : (renderAll elementRenderer 2).perform
        ⟨{ todo := [.paragraph (ofList (bracketed body))] },()⟩ =
      (.ok [.element (markerBlock body)],⟨{},()⟩) := by
  have ht : (renderToken elementRenderer 4 (.paragraph (ofList (bracketed body)))).perform
      ⟨{},()⟩ = (.ok [.element (markerBlock body)],⟨{},()⟩) := by
    rw [renderToken,Act.perform_bind (spans_bracketed h rfl)]
    rfl
  have hp : (pop? : Act (Session Unit) (Option Token)).perform
      ⟨{ todo := [.paragraph (ofList (bracketed body))] },()⟩ =
      (.ok (some (.paragraph (ofList (bracketed body)))),⟨{},()⟩) := rfl
  rw [renderAll,Act.perform_bind hp]
  exact Act.perform_bind ht _

lemma render_bracketed : (render elementRenderer (ofList (bracketed body))).perform ⟨{},()⟩ =
    (.ok [.element (markerBlock body)],⟨{},()⟩) := by
  have ht : takeText (ofList (bracketed body)) {} =
      { todo := [.paragraph (ofList (bracketed body))] } := by
    rw [takeText,prepare_bracketed h,lexed_bracketed h]
    rfl
  have hc (f : Reader → Reader) (s : Session Unit) :
    (changeReader f).perform s = (.ok (),⟨f s.reader,s.env⟩) := rfl
  have hr (s : Session Unit) : getReader.perform s = (.ok s.reader,s) := rfl
  rw [render,Act.perform_bind (hc _ _)]
  rw [ht,Act.perform_bind (hr _)]
  dsimp only [List.length]
  rw [Act.perform_bind (renderAll_bracketed h),Act.perform_bind (hr _),Act.perform_bind (hc _ _)]
  rfl

end

end Markup

namespace Tree

open Markup

lemma readMarkdown_bracketed {body : List Char} (h : Tight body) (tag : String) :
    readMarkdown tag (ofList (bracketed body)) = .ok { tag, children := [markerBlock body] } := by
  have hr : ((render elementRenderer (ofList (bracketed body))).within (Session.mk · ())
      fun s _ => s.reader).perform ({} : Reader) = (.ok [.element (markerBlock body)],
        (⟨{},()⟩ : Session Unit).reader) := Act.perform_within (render_bracketed h)
  rw [readMarkdown,readElement,Act.perform_bind hr]
  rfl

end Tree

namespace Tree.Extracted

open Markup

variable {path : String}

lemma tight_name (x : Extracted) : Tight x.name.toList := by
  intro c hc
  have hn := isNameChar_name x c hc
  refine ⟨not_isBlank_of_isNameChar hn,?_,fun hs => ?_⟩
  · rintro rfl
    exact absurd hn (by decide)
  · obtain rfl : c = Char.ofNat 9252 := by rw [← hs,Char.ofNat_toNat]
    exact absurd hn (by decide)

lemma readMarkdown_marker (hp : Tight path.toList) (x : Extracted) (tag : String) :
    readMarkdown tag (Comment.marker path x) =
      .ok { tag, children := [make "paragraph" [("newlines","2")] none [docUri (x.uri path)]] } := by
  have ht : Tight (path.toList ++ '#' :: x.name.toList) := by
    intro c hc
    rcases mem_append.mp hc with hc | hc
    · exact hp c hc
    · rcases mem_cons.mp hc with rfl | hc
      · decide
      · exact tight_name x c hc
  have hm : Comment.marker path x = ofList (bracketed (path.toList ++ '#' :: x.name.toList)) := by
    apply String.toList_injective
    simp [Comment.marker,bracketed]
  have hu : x.uri path = "doc://" ++ ofList (path.toList ++ '#' :: x.name.toList) := by
    apply String.toList_injective
    simp [uri]
  rw [hm,hu,readMarkdown_bracketed ht,markerBlock]

end Tree.Extracted

end Docweave
