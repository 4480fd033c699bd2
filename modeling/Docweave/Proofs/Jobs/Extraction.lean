import Docweave.Proofs.Comments.Agreement
import Docweave.Proofs.Comments.Rereading
import Docweave.Proofs.Jobs.Effects
import Docweave.Proofs.Sections.Fragments

namespace Docweave

open List
open String (ofList toList_append join append_empty join_cons empty_append)

namespace Comment

open Docweave.Tree

variable {path : String}

def Remark.words (r : Remark) : List Char :=
  r.strips.flatMap (Strip.words r.mark.indent.length r.allLed)

def Remark.extracted (r : Remark) : Extracted :=
  ⟨r.number,r.lastNumber,some (ofList r.words)⟩

def extracts : List Passage → List Extracted
  | [] => []
  | .code _ _ :: ps => extracts ps
  | .comment r :: ps => r.extracted :: extracts ps

def labelled : List Passage → List String → String
  | [], _ => ""
  | .code _ cs :: ps, ls => ofList cs ++ labelled ps ls
  | .comment r :: ps, l :: ls => ofList (r.carrying l.toList) ++ labelled ps ls
  | .comment _ :: _, [] => ""

def labels : String → List String → List String
  | _, [] => []
  | path, name :: names => label path name :: labels "" names

def marker (path : String) (x : Extracted) : String := "[doc://" ++ path ++ "#" ++ x.name ++ "]"

inductive Marked : String → List Extracted → String → Prop
  | nil {path : String} (text : String) : Marked path [] text
  | cons {xs : List Extracted} {rest : String} (path : String) (x : Extracted) (before : String)
      (h : Marked "" xs rest) : Marked path (x :: xs) (before ++ marker path x ++ rest)

lemma Marked.after {text : String} {xs : List Extracted} (pre : String) (h : Marked path xs text) :
    Marked path xs (pre ++ text) := by
  cases h with
  | nil => exact .nil _
  | cons path x first h =>
    rw [← String.append_assoc,← String.append_assoc]
    exact h.cons path x (pre ++ first)

lemma replacement_marker {b : Block} {text : String} {x : Extracted}
    (h : b.replacement path x.name = .ok text) : ∃ pre after, text = pre ++ marker path x ++ after := by
  cases hs : b.lines.head? with
  | none =>
    rw [Block.replacement,hs] at h
    cases h
  | some start =>
    cases hf : b.lines.getLast? with
    | none =>
      rw [Block.replacement,hs,hf] at h
      cases h
    | some finish =>
      rw [Block.replacement,hs,hf] at h
      obtain ⟨ind,-,hr⟩ := Docweave.bind_ok h
      obtain ⟨symbol,-,hr1⟩ := bind_ok hr
      obtain ⟨margin,-,hr2⟩ := bind_ok hr1
      obtain ⟨cl,-,hr3⟩ := bind_ok hr2
      refine ⟨ind ++ symbol ++ margin,start.ending.getD "" ++ finish.indentText.getD ""
        ++ cl ++ finish.ending.getD "",?_⟩
      rw [← Except.ok.inj hr3]
      simp only [marker,String.append_assoc]

lemma AsRead.no_escapes {cs cs' : List Char} (h : AsRead cs cs') : '\r' ∉ cs' ∧ '\t' ∉ cs' := by
  induction h with
  | nil => exact ⟨not_mem_nil,not_mem_nil⟩
  | keep ht hr _ ih => simp [ih,Ne.symm ht,Ne.symm hr]
  | tab k _ ih => simpa using ih
  | cr _ ih => simpa using ih
  | crlf _ ih => simpa using ih

lemma no_return_words {s : Strip} (h : '\r' ∉ s.chars) (k : Nat) (allLed : Bool) : '\r' ∉ s.words k allLed := by
  cases s with
  | code n cs => exact not_mem_nil
  | start n m =>
    rw [Strip.chars,mem_append,not_or] at h
    exact h.2
  | middle n m =>
    rw [Strip.chars,mem_append,not_or] at h
    cases allLed with
    | true => exact h.2
    | false =>
      have hb : bodyText m.after ++ lineEnd m.after = m.after := bodyText_append_lineEnd _
      rw [← hb] at h
      have hl : '\r' ∉ m.leader.symbol ++ m.leader.margin := by
        cases m.leader <;> decide
      rw [mem_append] at hl
      simp [Strip.words,shuffledText,hl,h.2]
  | finish n i => exact not_mem_nil

variable {text : String} {ps : List Passage}

structure IsSource (text : String) (ps : List Passage) : Prop where
  composed : Composed ps
  strips : ps.flatMap Passage.strips = cutLines ((Comment.readLines 4 text).map String.toList)

def cutText (n : Nat) (cs : List Char) : List Strip := cutFrom n false (Text.fileLinesFrom [] cs)

lemma flatMap_chars_cutText (n : Nat) (cs : List Char) : (cutText n cs).flatMap Strip.chars = cs := by
  rw [cutText,flatMap_chars_cutFrom,Text.flatten_fileLines]

lemma IsSource.asRead (h : IsSource text ps) :
    AsRead text.toList ((ps.flatMap Passage.strips).flatMap Strip.chars) ∧
    ps.flatMap Passage.strips = cutText 1 ((ps.flatMap Passage.strips).flatMap Strip.chars) := by
  obtain ⟨cs,hr,hl⟩ := readLines_asRead (by decide : (0 : Int) < 4) text
  have hs : ps.flatMap Passage.strips = cutText 1 cs := by rw [h.strips,cutLines,hl,cutText]
  have hc := flatMap_chars_cutText 1 cs
  rw [← hs] at hc
  rw [hc]
  exact ⟨hr,hs⟩

lemma mem_extracts {x : Extracted} : x ∈ extracts ps ↔ ∃ r, .comment r ∈ ps ∧ x = r.extracted := by
  induction ps with
  | nil => simp [extracts]
  | cons p ps ih =>
    cases p with
    | code n cs => simp [extracts,ih]
    | comment r => simp [extracts,ih,or_and_right,exists_or]

lemma IsSource.no_return (h : IsSource text ps) : ∀ x ∈ extracts ps, '\r' ∉ x.body.toList := by
  intro x hx hm
  obtain ⟨r,hr,rfl⟩ := mem_extracts.mp hx
  have hw : r.extracted.body.toList = r.words := String.toList_ofList
  rw [hw] at hm
  obtain ⟨s,hs,hm⟩ := mem_flatMap.mp hm
  refine no_return_words (fun hc => h.asRead.1.no_escapes.1 ?_) _ _ hm
  exact mem_flatMap.mpr ⟨s,mem_flatMap.mpr ⟨_,hr,hs⟩,hc⟩

end Comment

namespace Tree

open Comment Element Text

variable {e : Element} {r : Remark} {text path : String} {ps : List Passage} {es : List Element}

lemma extracted?_line {n : Nat} {cs : List Char} (h : IsLine n cs e) : extracted? e = .ok none := by
  rw [extracted?,h.children]
  rfl

lemma extracted?_comment (h : IsExtracted r e) : extracted? e = .ok (some r.extracted) := by
  obtain ⟨es,hk,-⟩ := h.children
  have hf : e.children.find? (·.tag == "extract") =
    some { tag := "extract", text := some (ofList r.words) } := by
    rw [hk]
    rfl
  rw [extracted?,hf]
  rw [h.first,h.last,wholeOf,wholeOf,whole_toString,whole_toString]
  rfl

lemma partText_unfinished (h : IsExtracted r e) (hf : r.finish = none) (tag : String) :
    partText "finish" tag e = .error (.unfit "part of comment") := by
  obtain ⟨es,hk,hes⟩ := h.children
  have hn : es.filter (fun d => d.value? "part" == some (.text "finish")) = [] := by
    rw [filter_eq_nil_iff]
    intro d hd
    obtain ⟨s,hs,hst⟩ := forall₂_mem_right hes hd
    rw [Remark.strips_unfinished hf] at hs
    rw [hst.part]
    simpa using stripRole_front r s hs
  rw [partText,descendant_part hk rfl rfl hes,hn]
  rfl

lemma replacement_needs {path : Option String} {name : String} (h : replacement e path name = .ok text) :
    (∃ ind, partText "finish" "indent" e = .ok ind) ∧ ∃ p, path = some p := by
  obtain ⟨ind,-,hr⟩ := bind_ok h
  obtain ⟨symbol,-,hr1⟩ := bind_ok hr
  obtain ⟨margin,-,hr2⟩ := bind_ok hr1
  obtain ⟨ending,-,hr3⟩ := bind_ok hr2
  obtain ⟨lastIndent,hl,hr4⟩ := bind_ok hr3
  obtain ⟨lastSymbol,-,hr5⟩ := bind_ok hr4
  cases path with
  | none => cases hr5
  | some p => exact ⟨⟨lastIndent,hl⟩,p,rfl⟩

lemma replacement_marked {path : Option String} (h : IsExtracted r e)
    (hok : replacement e path r.extracted.name = .ok text) :
    ∃ p, path = some p ∧ r.finish.isSome ∧ text = r.marked p r.extracted.name := by
  obtain ⟨⟨ind,hl⟩,p,rfl⟩ := replacement_needs hok
  cases hf : r.finish with
  | none =>
    rw [partText_unfinished h hf] at hl
    cases hl
  | some q =>
    exact ⟨p,rfl,rfl,Except.ok.inj (hok.symm.trans (replacement_ok h hf p r.extracted.name))⟩

def sourceElements (path : String) (lines : Stream String) : Except Fault (List Element) := do
  (gatherComments {} (← readLines 4 path lines)).mapM fun e => do
    extract "extract" "extract" (← settleComment "lines" e)

def sourceComments (path : String) (lines : Stream String) : Except Fault (List Extracted) := do
  return (← (← sourceElements path lines).mapM extracted?).filterMap id

lemma mapM_extracted? (h : Forall₂ IsExtractedPassage ps es) :
    ∃ xs, es.mapM extracted? = .ok xs ∧ xs.filterMap id = extracts ps := by
  induction h with
  | nil => exact ⟨[],rfl,rfl⟩
  | @cons p e ps es he _ ih =>
    obtain ⟨xs,hxs,hs⟩ := ih
    cases p with
    | code n cs =>
      refine ⟨none :: xs,?_,hs⟩
      rw [mapM_cons,extracted?_line he,hxs]
      rfl
    | comment r =>
      refine ⟨some r.extracted :: xs,?_,congrArg _ hs⟩
      rw [mapM_cons,extracted?_comment he,hxs]
      rfl

lemma gathered_source (h : IsSource text ps) (path : String) :
    ∃ marked, readLines 4 path (Files.Content.text text).lines = .ok marked ∧
      Forall₂ IsGathered ps (gatherComments {} marked) := by
  have hr := Text.ne_empty_of_mem_fileLines (ofList (normalizeNewlines text.toList))
  obtain ⟨marked,hm,hs⟩ := Tree.readLines_ok (by decide : (0 : Int) < 4) path hr
  exact ⟨marked,hm,isGathered_gatherComments h.composed (by rw [h.strips]; exact hs)⟩

lemma sourceElements_ok (h : IsSource text ps) (path : String) :
    ∃ es, sourceElements path (Files.Content.text text).lines = .ok es ∧ Forall₂ IsExtractedPassage ps es := by
  obtain ⟨marked,hm,hg⟩ := gathered_source h path
  obtain ⟨es,hes,hex⟩ := forall₂_mapM_ok hg fun p _ e he => settle_extract_ok he
  refine ⟨es,?_,hex⟩
  rw [sourceElements,hm]
  exact hes

lemma exists_source (path text : String) :
    ∃ ps es, IsSource text ps ∧ sourceElements path (Files.Content.text text).lines = .ok es ∧
      Forall₂ IsExtractedPassage ps es := by
  obtain ⟨ps,hps,hf⟩ := exists_passages_cutLines ((Comment.readLines 4 text).map String.toList)
  obtain ⟨es,hes,he⟩ := sourceElements_ok ⟨hps,hf⟩ path
  exact ⟨ps,es,⟨hps,hf⟩,hes,he⟩

lemma sourceComments_ok {ls : Stream String} (hes : sourceElements path ls = .ok es)
    (hps : Forall₂ IsExtractedPassage ps es) : sourceComments path ls = .ok (extracts ps) := by
  obtain ⟨xs,hxs,hs⟩ := mapM_extracted? hps
  rw [sourceComments,hes,ok_bind,hxs,← hs]
  rfl

end Tree

namespace Job

open Comment Element Docweave.Tree Files Store

variable {path target tgt : String} {s : Store}

def IsXml (place : Place) : Prop := ∃ name, place.getLast? = some name ∧ ".xml".toList <:+ name.toList

variable {j j' : Job} {src stage : String} {es : List Element} {loc : Place}

lemma xmlPath_text {xml : Path.Simple} (h : xmlPath (.of src) stage = .ok xml) :
    ∃ lead name, xml.text = lead ++ name ∧ Path.EndsSlashed lead ∧ Path.Proper name ∧
    ".xml".toList <:+ name.toList := by
  obtain ⟨first,hf,hsc⟩ := bind_ok h
  obtain ⟨hr,-,-,hsf⟩ := Path.Simple.withSuffix_xml hf
  obtain ⟨hr',hn,hs⟩ := Path.Simple.withName_ok hsc
  rw [hsf] at hn hs
  generalize first.stem ++ stage = stem at hn hs
  have hp := Path.proper_of_ending (by decide) hs
  have hb : xml.root = "" ∨ Path.IsRoot xml.root := by
    rw [hr',hr]
    exact Path.root_of src
  obtain ⟨lead,hl,ht⟩ := Path.Simple.text_of_names hb hn hp.1
  exact ⟨lead,stem ++ ".xml",ht,hl,hp,by rw [toList_append]; exact suffix_append _ _⟩

structure Beside (j j' : Job) : Prop where
  settings : j'.settings = j.settings
  shelf : j'.shelf = j.shelf
  folders : SameFolders j.store j'.store
  others : ∀ q, ¬ IsXml q → j'.store.content? q = j.store.content? q

lemma Beside.refl (j : Job) : Beside j j := ⟨rfl,rfl,.refl _,fun _ _ => rfl⟩

lemma Beside.trans {a b c : Job} (hab : Beside a b) (hbc : Beside b c) : Beside a c :=
  ⟨hbc.settings.trans hab.settings,hbc.shelf.trans hab.shelf,hab.folders.trans hbc.folders,
    fun q hq => (hbc.others q hq).trans (hab.others q hq)⟩

lemma writeXml_ok (h : (writeXml (.of src) stage es).perform j = (.ok (),j')) : Beside j j' := by
  obtain ⟨xml,text,fs,hpt,-,hst,rfl⟩ := writeXml_ok_iff.mp h
  obtain ⟨lead,name,hx,hld,hpr,hs⟩ := xmlPath_text hpt
  obtain ⟨q,ht,hc,-⟩ := write_ok hst
  rw [hx] at ht
  have hl := locate_last hld hpr (target_ok ht).1
  refine ⟨rfl,rfl,hc.folders,fun p hp => hc.others p ?_⟩
  rintro rfl
  exact hp ⟨name,hl,hs⟩

lemma perform_mapM_ofExcept_ok {α β : Type} {f : α → Except Fault β} {xs : List α} {ys : List β}
    (h : (xs.mapM fun x => Act.ofExcept (f x)).perform j = (.ok ys,j')) : xs.mapM f = .ok ys ∧ j' = j := by
  rw [Act.perform_mapM_ofExcept_eq] at h
  exact ⟨(Prod.mk.inj h).1,(Prod.mk.inj h).2.symm⟩

lemma plainStage_ok {es' : List Element} {f : Element → Except Fault Element}
    (h : (plainStage (.of src) stage f es).perform j = (.ok es',j')) : es.mapM f = .ok es' ∧ Beside j j' := by
  obtain ⟨made,j1,hm,hr⟩ := Act.bind_ok h
  obtain ⟨hes,rfl⟩ := perform_mapM_ofExcept_ok hm
  obtain ⟨_,j2,hw,rfl,rfl⟩ := Act.map_ok hr
  exact ⟨hes,writeXml_ok hw⟩

lemma readComments_ok (h : (readComments (.of src)).perform j = (.ok es,j')) :
    sourceElements (Path.Simple.of src).text (j.store.lines (Path.Simple.of src).text) = .ok es ∧ Beside j j' := by
  have hr := Act.get_bind_ok h
  obtain ⟨marked,hm',hw⟩ := Act.ofExcept_bind_ok hr
  obtain ⟨_,j3,hl,hs⟩ := Act.bind_ok hw
  obtain ⟨hes,hb⟩ := plainStage_ok hs
  refine ⟨?_,(writeXml_ok hl).trans hb⟩
  rw [sourceElements,hm']
  exact hes

section

variable {target tgt t ref text name out : String} {x : Extracted} {ps : List Passage} {r : Remark} {j1 : Job}
  {sheet : Sheet}

lemma addFragment_holds {ts : List String} (htx : join ts = x.body)
    (hd : j.settings.dryRun = false) (ht : Holds j.store tgt loc (.text t))
    (h : (addFragment (some tgt) (some x.first) (some x.last) ts).perform j = (.ok name,j')) :
    Holds j'.store tgt loc (.text (t ++ x.fragment)) := by
  have hr := Act.get_bind_ok h
  rw [hd] at hr
  obtain ⟨_,j2,hc,hl⟩ := Act.bind_ok hr
  obtain ⟨fs,hs,rfl⟩ := changeStore_ok hc
  cases hl
  obtain ⟨hh,-⟩ := ht.append hs
  rw [htx] at hh
  exact hh

section

variable {adHoc dry : Bool} {target tgt path : Option String} {e : Element} {items : List Piece}
  {ws : List String}

lemma extractElements_ok (h : (extractElements tgt path es).perform j = (.ok sheet,j')) :
    (extractEach (addTo tgt) writeText j.settings.dryRun path es).perform (j,"") = (.ok (),(j',sheet.text)) := by
  rw [extractElements,Act.perform_get_bind] at h
  rcases hr : (extractEach (addTo tgt) writeText j.settings.dryRun path es).perform (j,"") with ⟨res,job,out⟩
  rw [hr] at h
  cases res with
  | error fault => cases h
  | ok u =>
    obtain ⟨hs,rfl⟩ := Prod.mk.inj h
    rw [← Except.ok.inj hs]

lemma addFragment_same {ts : List String}
    (h : (addFragment tgt (some x.first) (some x.last) ts).perform j = (.ok name,j')) :
    name = x.name ∧ j'.settings = j.settings := by
  cases tgt with
  | none =>
    cases h
    exact ⟨rfl,rfl⟩
  | some path =>
    rw [addFragment,Act.perform_get_bind] at h
    split at h
    · cases h
      exact ⟨rfl,rfl⟩
    · obtain ⟨_,_,hc,hl⟩ := Act.bind_ok h
      obtain ⟨fs,-,rfl⟩ := changeStore_ok hc
      cases hl
      exact ⟨rfl,rfl⟩

def Replaces : Bool → Remark → String → String → Prop
  | true, r, path, w => ∃ b, IsBlock r b ∧ b.replacement path r.extracted.name = .ok w
  | false, r, path, w => r.finish.isSome = true ∧ w = r.marked path r.extracted.name

inductive Extracts (adHoc dry : Bool) (target : Option String) :
    Option String → List Passage → Job → List String → Job → Prop
  | nil (path : Option String) (j : Job) : Extracts adHoc dry target path [] j [] j
  | code {path : Option String} {ps : List Passage} {j j' : Job} {ws : List String} {n : Nat} {cs : List Char}
      (h : Extracts adHoc dry target path ps j ws j') :
      Extracts adHoc dry target path (.code n cs :: ps) j (ofList cs :: ws) j'
  | comment {path : Option String} {ps : List Passage} {j j1 j' : Job} {ws texts : List String} {r : Remark}
      {w : String} (hadd : (addFragment target (some r.extracted.first)
        (some r.extracted.last) texts).perform j =
        (.ok r.extracted.name,j1)) (htexts : join texts = r.extracted.body)
      (hw : if dry then w = "" else ∃ p, path = some p ∧ Replaces adHoc r p w)
      (h : Extracts adHoc dry target (some "") ps j1 ws j') :
      Extracts adHoc dry target path (.comment r :: ps) j (w :: ws) j'

lemma extractEach_code {add : Extracted → Act (Job × String) String} {n : Nat} {cs : List Char}
    (he : IsExtractedPassage (.code n cs) e) : (extractEach add writeText dry path (e :: es)).perform (j,out) =
      (extractEach add writeText dry path es).perform (j,out ++ ofList cs) := by
  have ht : e.text = some (ofList cs) := IsLine.text he
  rw [extractEach,Act.perform_ofExcept_bind (extracted?_line he),ht]
  rfl

lemma extractEach_extracts {out' : String} (hes : Forall₂ IsExtractedPassage ps es)
    (h : (extractEach (addTo tgt) writeText dry path es).perform (j,out) = (.ok (),(j',out'))) :
    ∃ ws, Extracts false dry tgt path ps j ws j' ∧ out' = out ++ join ws := by
  induction hes generalizing j path out with
  | nil =>
    obtain ⟨-,hs⟩ := Act.pure_ok h
    cases hs
    exact ⟨[],.nil _ _,append_empty.symm⟩
  | @cons p e ps es he _ ih =>
    cases p with
    | code n cs =>
      rw [extractEach_code he] at h
      obtain ⟨ws,hws,ho⟩ := ih h
      exact ⟨_,hws.code,by rw [ho,join_cons,String.append_assoc]⟩
    | comment r =>
      rw [extractEach,Act.perform_ofExcept_bind (extracted?_comment he)] at h
      obtain ⟨name,⟨j1,out1⟩,ha,hr⟩ := Act.bind_ok h
      have ho : out1 = out := (Prod.mk.inj (Prod.mk.inj ha).2).2.symm
      have hf : (addFragment tgt (some r.extracted.first) (some r.extracted.last)
          [r.extracted.body]).perform j = (.ok name,j1) := by
        exact Prod.ext (Prod.mk.inj ha).1 (Prod.mk.inj (Prod.mk.inj ha).2).1
      obtain ⟨rfl,-⟩ := addFragment_same hf
      have ht : join [r.extracted.body] = r.extracted.body := by simp
      rw [ho] at hr
      cases dry with
      | true =>
        obtain ⟨ws,hws,ho⟩ := ih hr
        exact ⟨_,.comment hf ht rfl hws,by rw [ho,join_cons,empty_append]⟩
      | false =>
        obtain ⟨w,hw,hr⟩ := Act.ofExcept_bind_ok hr
        obtain ⟨_,s2,hwr,hn⟩ := Act.bind_ok hr
        cases hwr
        obtain ⟨ws,hws,ho⟩ := ih hn
        exact ⟨_,.comment hf ht (replacement_marked he hw) hws,by rw [ho,join_cons,String.append_assoc]⟩

lemma outputs_of (n : Nat) (line : String) : join ((SourceLine.of n line).outputs.filterMap id) = line := by
  simp [SourceLine.outputs,SourceLine.of]

lemma extractPieces_extracts (hi : Forall₂ IsPiece ps items)
    (h : (extractPieces tgt path items).perform j = (.ok text,j')) :
    ∃ ws, Extracts true j.settings.dryRun tgt path ps j ws j' ∧ text = join ws := by
  induction hi generalizing j path text with
  | nil =>
    cases h
    exact ⟨[],.nil _ _,rfl⟩
  | @cons p piece ps items hp _ ih =>
    cases p with
    | code n cs =>
      obtain rfl := isPiece_code hp
      obtain ⟨rest,j1,hr,rfl,rfl⟩ := Act.map_ok h
      obtain ⟨ws,hws,rfl⟩ := ih hr
      exact ⟨_,hws.code,by rw [outputs_of,join_cons]⟩
    | comment r =>
      obtain ⟨b,rfl,hb⟩ := isPiece_comment hp
      rw [extractPieces,Act.perform_ofExcept_bind (lineNumbers_ok hb)] at h
      obtain ⟨name,j1,ha,hr⟩ := Act.bind_ok h
      obtain ⟨rfl,hs⟩ := addFragment_same (x := r.extracted) ha
      have hr := Act.get_bind_ok hr
      rw [hs] at hr
      have he {w rest : String} (hw : if j.settings.dryRun then w = "" else ∃ p, path = some p ∧
        Replaces true r p w)
          (hn : (extractPieces tgt (some "") items).perform j1 = (.ok rest,j')) : ∃ ws,
          Extracts true j.settings.dryRun tgt path (.comment r :: ps) j ws j' ∧ w ++ rest = join ws := by
        obtain ⟨ws,hws,rfl⟩ := ih hn
        rw [hs] at hws
        exact ⟨_,.comment ha hb.join_texts hw hws,join_cons.symm⟩
      cases hd : j.settings.dryRun with
      | true =>
        rw [hd] at hr he
        obtain ⟨w,j2,hw,hr⟩ := Act.bind_ok hr
        cases hw
        obtain ⟨rest,j3,hn,rfl,rfl⟩ := Act.map_ok hr
        exact he rfl hn
      | false =>
        rw [hd] at hr he
        cases path with
        | none => cases hr
        | some p =>
          obtain ⟨w,hw,hr⟩ := Act.ofExcept_bind_ok hr
          obtain ⟨rest,j3,hn,rfl,rfl⟩ := Act.map_ok hr
          exact he ⟨p,rfl,b,hb,hw⟩ hn

lemma pieces_ok {stream : Stream Piece} (hps : IsSource text ps)
    (hl : j.store.lines src = (Content.text text).lines)
  (hp : (pieces src).perform j = (.ok stream,j')) (hf : stream.fault = none) :
  j' = j ∧ Forall₂ IsPiece ps stream.items := by
  have hls := Act.get_bind_ok hp
  obtain ⟨hst,rfl⟩ := Act.pure_ok hls
  have hsm : stream = blocks (some src) (scan false (Comment.readLines 4 text)).stream := by
    rw [← hst,hl]
    change blocks (some src) ⟨_,(scan false (Comment.readLines 4 text)).fault.orElse _⟩ = _
    cases hs : (scan false (Comment.readLines 4 text)).fault <;> rw [Scan.stream,hs] <;> rfl
  rw [hsm] at hf ⊢
  have hs := fault_of_blocks hf
  obtain ⟨last,hr⟩ := reads_scan false (ne_empty_of_mem_readLines (by decide) text)
    (no_tab_of_mem_readLines 4 text)
  obtain ⟨items,hi,hfr⟩ := gather_passages hps.composed src
  rw [blocks,Scan.stream,hs,hr.items hs,← hps.strips,hi]
  exact ⟨rfl,hfr⟩

structure Seen (s : Store) (path text : String) : Prop where
  lines : s.lines path = (Content.text text).lines
  simple : s.lines (Path.Simple.of path).text = (Content.text text).lines

lemma seen_of_holds {path : String} {c : Content} (h : Holds s path loc c)
    (hc : c.lines = (Content.text text).lines) : Seen s path text := by
  refine ⟨?_,?_⟩
  · rw [Store.lines,h.read]
    exact hc
  · rw [Store.lines,h.simple.read]
    exact hc

lemma writeSource_reads {r : Report} (hex : r.extract) (hs : Seen j.store r.path text)
    (hsr : IsSource text ps) (h : (writeSource r path).perform j = (.ok sheet,j')) :
    (∃ stream, j.settings.adHoc ∧ (pieces r.path).perform j = (.ok stream,j) ∧
      stream.fault = none ∧ Forall₂ IsPiece ps stream.items ∧
      (extractPieces (r.extractPath.getD none) path stream.items).perform j = (.ok sheet.text,j')) ∨
    ∃ es j1, j.settings.adHoc = false ∧ (readComments (.of r.path)).perform j = (.ok es,j1) ∧ Beside j j1 ∧
      Forall₂ IsExtractedPassage ps es ∧
      (extractElements (r.extractPath.getD none) path es).perform j1 = (.ok sheet,j') := by
  rw [writeSource,Act.perform_get_bind] at h
  dsimp only at h
  rw [hex] at h
  cases hm : j.settings.adHoc with
  | true =>
    rw [hm] at h
    obtain ⟨stream,j1,hp,hr⟩ := Act.bind_ok h
    obtain ⟨text',j2,he,hl⟩ := Act.bind_ok hr
    cases hf : stream.fault with
    | some fault =>
      rw [hf] at hl
      cases hl
    | none =>
      obtain ⟨rfl,hi⟩ := pieces_ok hsr hs.lines hp hf
      rw [hf] at hl
      cases hl
      exact .inl ⟨stream,rfl,hp,hf,hi,he⟩
  | false =>
    rw [hm] at h
    obtain ⟨es',j1,hrd,hr⟩ := Act.bind_ok h
    obtain ⟨hes',hb⟩ := readComments_ok hrd
    obtain ⟨es,hes,hps⟩ := sourceElements_ok hsr (Path.Simple.of r.path).text
    rw [hs.simple] at hes'
    cases hes.symm.trans hes'
    exact .inr ⟨_,j1,rfl,hrd,hb,hps,hr⟩

lemma writeSource_extracts {r : Report} (he : r.extract) (hs : Seen j.store r.path text) (hsr : IsSource text ps)
    (h : (writeSource r path).perform j = (.ok sheet,j')) : ∃ ws j1, Beside j j1 ∧ sheet.text = join ws ∧
      Extracts j.settings.adHoc j.settings.dryRun (r.extractPath.getD none) path ps j1 ws j' := by
  rcases writeSource_reads he hs hsr h with
    ⟨stream,hm,-,-,hi,hr⟩ | ⟨es,j1,hm,-,hb,hps,hr⟩
  · obtain ⟨ws,hws,ht⟩ := extractPieces_extracts hi hr
    exact ⟨ws,j,.refl j,ht,hm ▸ hws⟩
  · have hec := extractElements_ok hr
    rw [hb.settings] at hec
    obtain ⟨ws,hws,ht⟩ := extractEach_extracts hps hec
    exact ⟨ws,j1,hb,ht.trans empty_append,hm ▸ hws⟩

lemma Extracts.holds {tgt : String} (h : Extracts adHoc false (some tgt) path ps j ws j')
    (hd : j.settings.dryRun = false) (ht : Holds j.store tgt loc (.text t)) :
    Holds j'.store tgt loc (.text (t ++ join ((extracts ps).map Extracted.fragment))) := by
  induction h generalizing t with
  | nil =>
    rw [extracts,map_nil,String.join_nil,append_empty]
    exact ht
  | code _ ih => exact ih hd ht
  | comment ha htx _ _ ih =>
    rw [extracts,map_cons,join_cons,← String.append_assoc]
    exact ih ((addFragment_same ha).2 ▸ hd) (addFragment_holds htx hd ht ha)

lemma Replaces.marker (h : Replaces adHoc r ref out) :
    ∃ pre after, out = pre ++ Comment.marker ref r.extracted ++ after := by
  cases adHoc with
  | true =>
    obtain ⟨b,-,hb⟩ := h
    exact replacement_marker hb
  | false =>
    obtain ⟨-,rfl⟩ := h
    refine ⟨ofList (r.mark.indent ++ ['/','*','*'] ++ r.mark.margin),
      ofList (lineEnd r.mark.after ++ r.lastIndent ++ ['*','/']),?_⟩
    rw [← String.toList_inj]
    simp [Remark.marked,Remark.carrying,label,Comment.marker]

lemma Extracts.marked (h : Extracts adHoc false tgt path ps j ws j') :
    Marked (path.getD "") (extracts ps) (join ws) := by
  induction h with
  | nil => exact .nil _
  | code _ ih =>
    rw [join_cons]
    exact ih.after _
  | comment _ _ hw _ ih =>
    obtain ⟨p,rfl,hr⟩ := hw
    obtain ⟨pre,after,rfl⟩ := hr.marker
    rw [join_cons,String.append_assoc]
    exact (ih.after after).cons _ _ pre

lemma Extracts.labelled (h : Extracts false false tgt path ps j ws j') :
    join ws = labelled ps (labels (path.getD "") ((extracts ps).map Extracted.name)) := by
  induction h with
  | nil => rfl
  | code _ ih =>
    rw [join_cons,ih]
    rfl
  | comment _ _ hw _ ih =>
    obtain ⟨p,rfl,-,rfl⟩ := hw
    rw [join_cons,ih]
    rfl

end

end

lemma not_isXml (hmd : ".md".toList <:+ tgt.toList) (h : s.locate tgt = .ok loc) : ¬ IsXml loc := by
  obtain ⟨lead,stem,rfl,hld,hs⟩ := Path.exists_name hmd (by decide)
  have hl := locate_last hld (Path.proper_of_ending (by decide) hs) h
  rintro ⟨name,hn,hx⟩
  cases hl.symm.trans hn
  rw [toList_append] at hx
  rcases suffix_or_suffix_of_suffix (suffix_append _ _) hx with h | h
  · exact absurd h (by decide)
  · exact absurd h (by decide)

lemma dotted_referencePath {fs fs' : Store} {folder : Option String} {ref : String}
    (ht : extractPath fs folder path = .ok tgt)
    (h : referencePath fs' folder path tgt = .ok ref) : ref.toList.head? = some '.' := by
  cases folder with
  | some folder =>
    obtain ⟨rel,-,rfl⟩ := map_ok h
    split
    · rename_i hd
      rw [Bool.or_eq_true] at hd
      rcases hd with hd | hd
      · obtain ⟨rest,hr⟩ := String.startsWith_string_iff.mp hd
        rw [← hr]
        rfl
      · obtain ⟨rest,hr⟩ := String.startsWith_string_iff.mp hd
        rw [← hr]
        rfl
    · rw [toList_append]
      rfl
  | none =>
    obtain rfl : (Path.splitExtension path).1 ++ ".md" = tgt := Except.ok.inj ht
    obtain ⟨up,hup,hl⟩ := bind_ok h
    rw [Path.parent_beside] at hup
    obtain rfl := Path.relative_self hup
    obtain rfl := Except.ok.inj hl
    have hb : '/' ∉ (Path.base ((Path.splitExtension path).1 ++ ".md")).toList := by
      rw [Path.base,String.toList_ofList]
      exact (Path.cut_spec _).2.1
    rw [Path.join_here hb,toList_append]
    rfl

section

variable {r r' started : Report} {text : String} {target tgt : String} {ps : List Passage}

lemma Starts.made {ref : Option String} (h : Starts r j (.ok (started,ref)) j') (he : r.extract)
    (hd : j.settings.dryRun = false) (hto : started.extractPath = some (some tgt)) :
    ∃ path loc, started = { r with extractPath := some (some tgt) } ∧ ref = some path ∧
      path.toList.head? = some '.' ∧ Holds j'.store tgt loc (.text (extractHeader started)) := by
  cases h with
  | off hof => simp [hd,he] at hof
  | opens ha ho =>
    cases ho with
    | made hdr hn hw hr =>
      obtain ⟨path,hpt,hs,rfl⟩ := made_ok hr
      rw [hs] at hto
      cases hto
      obtain ⟨loc,hp,hch,hc⟩ := write_ok hw
      rw [← hs] at hc
      exact ⟨path,loc,hs,rfl,dotted_referencePath ha.path hpt,hch.folders.target hp,hc⟩

lemma overwriteOne_moves (he : r.extract) (hd : j.settings.dryRun = false)
    (hr : j.store.read r.path = .ok (.text text)) (hsc : IsSource text ps)
    (h : (overwriteOne r).perform j = (.ok r',j')) (ht : r'.extractPath = some (some tgt))
    (hmd : ".md".toList <:+ tgt.toList) :
    ∃ started ref loc ws j1 k k', Starts { r with lineTypes := some [] } j (.ok (started,some ref)) j1 ∧
      started = { ({ r with lineTypes := some [] } : Report) with extractPath := some (some tgt) } ∧
      ref.toList.head? = some '.' ∧ ¬ IsXml loc ∧
      Extracts j.settings.adHoc false (some tgt) (some ref) ps k ws k' ∧
      j'.store.read r.path = .ok (.text (join ws)) ∧ Holds j'.store tgt loc
        (.text (extractHeader started ++ join ((extracts ps).map Extracted.fragment))) := by
  obtain ⟨started,ref,sheet,old,fs,j1,j2,hs,hsh,-,hsr,rfl,rfl⟩ := writes_of_ok hd h
  have hto : started.extractPath = some (some tgt) := ht
  obtain ⟨q,hq⟩ := read_iff_holds.mp hr
  have hq1 : Holds (j1.scratched started.path).store r.path q (.text text) := hs.holds hq
  have hfr := hs.not_targetAt hq.content
  obtain ⟨hpt,hm⟩ := hs.same_source
  obtain ⟨path,loc,hsd,rfl,hdt,hp⟩ := hs.made he hd hto
  have hst : (j1.scratched started.path).settings = j.settings := hs.settings
  have hx := not_isXml hmd (target_ok hp.target).1
  have hne : q ≠ loc := by
    rintro rfl
    exact hfr ⟨tgt,by rw [hto]; rfl,(target_ok hp.target).1⟩
  rw [← hpt] at hq1
  obtain ⟨ws,k,hb,htx,hws⟩ :=
    writeSource_extracts (hm.trans he) (seen_of_holds hq1 rfl) hsc hsh
  rw [hst,hd,hto] at hws
  have hd' : k.settings.dryRun = false := by rw [hb.settings,hst,hd]
  have hf := hws.holds hd' (hp.same hb.folders (hb.others loc hx))
  obtain ⟨q',ht',hc,hcn⟩ := write_ok hsr
  obtain rfl := Except.ok.inj (ht'.symm.trans ((writeSource_touches hsh).folders.target hq1.target))
  have hn : Holds fs started.path q' (.text sheet.text) := ⟨hc.folders.target ht',hcn⟩
  rw [htx,hpt] at hn
  exact ⟨started,path,loc,ws,j1,k,j2,hs,hsd,hdt,hx,hws,hn.read,hf.changes hc hne.symm⟩

lemma overwriteOne_extracts (he : r.extract) (hdr : j.settings.dryRun = false)
    (hr : j.store.read r.path = .ok (.text text))
    (h : (overwriteOne r).perform j = (.ok r',j')) (ht : r'.extractPath = some (some tgt))
    (hmd : ".md".toList <:+ tgt.toList) : ∃ ps ref new started, IsSource text ps ∧
      sourceComments (Path.Simple.of r.path).text (Content.text text).lines = .ok (extracts ps) ∧
      j'.store.read r.path = .ok (.text new) ∧ Marked ref (extracts ps) new ∧
      ref.toList.head? = some '.' ∧ started.lineTypes = some [] ∧ started.extractPath = some (some tgt) ∧
      j'.store.read tgt = .ok (.text (extractHeader started ++ join ((extracts ps).map Extracted.fragment))) := by
  obtain ⟨ps,es,hs,hes,hps⟩ := exists_source (Path.Simple.of r.path).text text
  obtain ⟨started,ref,loc,ws,j1,k,k',-,hst,hd,-,hws,hn,hm⟩ :=
    overwriteOne_moves he hdr hr hs h ht hmd
  exact ⟨ps,ref,_,started,hs,sourceComments_ok hes hps,hn,hws.marked,hd,by rw [hst],by rw [hst],hm.read⟩

theorem extract_reads_back_iff (hextract : r.extract = true) (hdry : j.settings.dryRun = false)
    (hread : j.store.read r.path = .ok (.text text))
    (h : (overwriteOne r).perform j = (.ok r', j')) (htarget : r'.extractPath = some (some target))
    (hmd : ".md".toList <:+ target.toList) : ∃ xs new reference,
      sourceComments (Path.Simple.of r.path).text (Content.text text).lines = .ok xs ∧
      j'.store.read r.path = .ok (.text new) ∧ Marked reference xs new ∧
      ∀ path, j'.store.read path = j'.store.read target → (Extracted.ReadsBack j'.store path xs ↔
          (∀ x ∈ xs, x.Quiet) ∧ (xs.map Extracted.name).Nodup) := by
  obtain ⟨ps, reference, new, started, hsource, hcomments, hnew, hmarked, -, hcounts, hto, hmade⟩ :=
    overwriteOne_extracts hextract hdry hread h htarget hmd
  refine ⟨extracts ps, new, reference, hcomments, hnew, hmarked, fun path hpath => ?_⟩
  exact Extracted.readsBack_iff hcounts hto hsource.no_return (hpath.trans hmade)

end

section

variable {text : String}

def extractReport : Report :=
  { path := "d/a.h", extension := none, overwrote := true, extract := true }

def extractJob (text : String) : Job where
  store := { home := [], files := [(["d","a.h"],.text text)], folders := [[],["d"]] }

lemma extractReport_path : (Path.Simple.of extractReport.path).text = "d/a.h" := by decide +kernel

lemma extractJob_read (text : String) : (extractJob text).store.read extractReport.path = .ok (.text text) := by
  have hl : (extractJob text).store.locate extractReport.path = .ok ["d","a.h"] := rfl
  exact read_ok_iff.mpr ⟨_,hl,rfl,rfl⟩

lemma extract_run (h : ((overwriteOne extractReport).perform (extractJob text)).1.toOption.map
    Report.extractPath =
    some (some (some "d/a.md"))) : ∃ r' j', (overwriteOne extractReport).perform (extractJob text) =
      (.ok r',j') ∧
    r'.extractPath = some (some "d/a.md") := by
  obtain ⟨r',hr',ht⟩ := Option.map_eq_some_iff.mp h
  exact ⟨r',_,perform_of_toOption hr',ht⟩

def allQuiet (xs : List Extracted) : List String × Bool :=
  (xs.map Extracted.name,decide (∀ x ∈ xs, x.Quiet))

lemma comments_at {xs : List Extracted} {ns : List String} {quiet : Bool}
    (h : (sourceComments "d/a.h" (Content.text text).lines).toOption.map allQuiet = some (ns,quiet))
    (hxs : sourceComments "d/a.h" (Content.text text).lines = .ok xs) :
    xs.map Extracted.name = ns ∧ decide (∀ x ∈ xs, x.Quiet) = quiet := by
  rw [hxs] at h
  exact Prod.mk.inj (Option.some.inj h)

def quietText : String := "/** a\n * b */\nint x;\n/** c */\n"

lemma quietText_target : ((overwriteOne extractReport).perform
    (extractJob quietText)).1.toOption.map Report.extractPath = some (some (some "d/a.md")) := by
  decide +kernel

lemma quietText_comments : (sourceComments "d/a.h" (Content.text quietText).lines).toOption.map allQuiet =
    some (["line-1-2","line-4-4"],true) := by
  decide +kernel

def headingText : String := "/** a\n * # T\n * b */\n"

lemma headingText_target : ((overwriteOne extractReport).perform
    (extractJob headingText)).1.toOption.map Report.extractPath = some (some (some "d/a.md")) := by
  decide +kernel

lemma headingText_comments : (sourceComments "d/a.h" (Content.text headingText).lines).toOption.map allQuiet =
    some (["line-1-3"],false) := by
  decide +kernel

end

theorem extract_reads_back_iff_at_two_comments : ∃ r' j' xs new reference,
    (overwriteOne extractReport).perform (extractJob quietText) = (.ok r', j') ∧
    r'.extractPath = some (some "d/a.md") ∧
    sourceComments "d/a.h" (Content.text quietText).lines = .ok xs ∧
    xs.map Extracted.name = ["line-1-2", "line-4-4"] ∧
    j'.store.read "d/a.h" = .ok (.text new) ∧ Marked reference xs new ∧
    Extracted.ReadsBack j'.store "d/a.md" xs := by
  obtain ⟨r', j', hrun, htarget⟩ := extract_run quietText_target
  obtain ⟨xs, new, reference, hxs, hnew, hmarked, hiff⟩ :=
    extract_reads_back_iff rfl rfl (extractJob_read quietText) hrun htarget (by decide)
  rw [extractReport_path] at hxs
  obtain ⟨hnames, hquiet⟩ := comments_at quietText_comments hxs
  refine ⟨r', j', xs, new, reference, hrun, htarget, hxs, hnames, hnew, hmarked, ?_⟩
  exact (hiff "d/a.md" rfl).mpr ⟨of_decide_eq_true hquiet, by rw [hnames]; decide⟩

theorem extract_loses_text_at_heading : ∃ r' j' xs,
    (overwriteOne extractReport).perform (extractJob headingText) = (.ok r', j') ∧
    r'.extractPath = some (some "d/a.md") ∧
    sourceComments "d/a.h" (Content.text headingText).lines = .ok xs ∧
    ¬ Extracted.ReadsBack j'.store "d/a.md" xs := by
  obtain ⟨r', j', hrun, htarget⟩ := extract_run headingText_target
  obtain ⟨ps, reference, new, started, hsource, hxs, -, -, -, hcounts, hto, hmade⟩ :=
    overwriteOne_extracts rfl rfl (extractJob_read headingText) hrun htarget (by decide)
  rw [extractReport_path] at hxs
  obtain ⟨-, hquiet⟩ := comments_at headingText_comments hxs
  refine ⟨r', j', extracts ps, hrun, htarget, hxs, fun hback => ?_⟩
  have hiff := Extracted.readsBack_iff hcounts hto hsource.no_return hmade
  exact of_decide_eq_false hquiet (hiff.mp hback).1

-- The last line of the second comment would be read back as a heading.
example : (sourceComments "a.h" (Content.text "/** a */\n/** b\n * # T */\n").lines).toOption.map (·.map fun x =>
    (x.name, decide x.Quiet)) = some [("line-1-1", true), ("line-2-3", false)] := by
  decide +kernel

end Job

end Docweave
