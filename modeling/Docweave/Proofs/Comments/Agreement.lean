import Docweave.Files.Content
import Docweave.Proofs.Comments.ScanOrder
import Docweave.Proofs.Comments.SourceLines
import Docweave.Proofs.Comments.TreeComments

namespace Docweave

open List
open String (ofList join)

namespace Comment

def Strip.words (k : Nat) (allLed : Bool) : Strip → List Char
  | .start _ m => m.after
  | .middle _ m => if allLed then m.after else shuffledText k m ++ lineEnd m.after
  | _ => []

def label (path name : String) : String := "[doc://" ++ path ++ "#" ++ name ++ "]"

namespace Remark

def lastIndent (r : Remark) : List Char := (r.finish.bind Prod.snd).getD []

def carrying (r : Remark) (label : List Char) : List Char :=
  r.mark.indent ++ ['/','*','*'] ++ r.mark.margin ++ label ++ lineEnd r.mark.after ++ r.lastIndent
    ++ ['*','/']

def marked (r : Remark) (path name : String) : String := ofList (r.carrying (label path name).toList)

lemma marked_eq {r : Remark} {n : Nat} {ind : Option (List Char)} (h : r.finish = some (n,ind))
    (path name : String) :
  r.marked path name = ofList r.mark.indent ++ "/**" ++ ofList r.mark.margin ++ "[doc://" ++
    path ++ "#" ++ name
    ++ "]" ++ ofList (lineEnd r.mark.after) ++ ofList (ind.getD []) ++ "*/" := by
  rw [← String.toList_inj]
  simp [marked,carrying,lastIndent,h,label]

end Remark

lemma textEnd_settledLine (k : Nat) (allLed : Bool) {s : Strip} (h : s.isCode = false) :
  ((settledLine k allLed s).textEnd).getD "" = ofList (s.words k allLed) := by
  cases s with
  | code n cs => cases h
  | start n m => exact ofList_bodyText_lineEnd m.after
  | middle n m =>
    cases allLed with
    | true => exact ofList_bodyText_lineEnd m.after
    | false => exact String.ofList_append.symm
  | finish n i => rfl

lemma IsBlock.join_texts {r : Remark} {b : Block} (h : IsBlock r b) : join b.texts =
    ofList (r.strips.flatMap (Strip.words r.mark.indent.length r.allLed)) := by
  rw [Block.texts,h.lines,join_filterMap,map_map,← join_map_ofList]
  exact congrArg _ (map_congr_left fun s hs => textEnd_settledLine _ _ (r.isCode_strips s hs))

end Comment

namespace Tree

open Comment Element

variable {e : Element}

section

variable {k : Nat} {allLed : Bool} {ss : List Strip} {es : List Element} {e extract : Element}

lemma descendant_part (hc : e.children = [{ tag := "lines", children := es },extract])
    (hlf : extract.children = [])
    (hp : extract.value? "part" = none) (h : Forall₂ (IsSettled k allLed) ss es) (role tag : String) :
    e.first? [.anyBelow,.keep (.equals "part" role),.child tag] =
      ((es.filter fun d => d.value? "part" == some (.text role)).flatMap (·.childrenOf tag)).head? := by
  have hl : ({ tag := "lines", children := es } : Element).value? "part" = none := rfl
  have hs := filter_settled (p := fun d => d.value? "part" == some (.text role))
    (forall_settledChildren (fun _ _ _ => rfl) (fun _ _ => rfl) fun _ => rfl) h
  rw [first?_part,descendants_eq,hc]
  simp [descendants_settled "lines" h,descendants_of_leaf hlf,hs,hl,hp]

lemma partText_ok (hc : e.children = [{ tag := "lines", children := es },extract]) (hl : extract.children = [])
    (hp : extract.value? "part" = none) (h : Forall₂ (IsSettled k allLed) ss es) {s : Strip}
      {pre after : List Strip}
    (hs : ss = pre ++ s :: after) (hb : ∀ s' ∈ pre, stripRole s' ≠ stripRole s) {tag : String} {c : Element}
    (hch : ((settledChildren k allLed s).filter (·.tag == tag)).head? = some c) :
    partText (stripRole s) tag e = .ok (c.text.getD "") := by
  subst hs
  obtain ⟨es1,es2,rfl,h1,h2⟩ := forall₂_split h
  obtain ⟨d,es3,hd,-,rfl⟩ := forall₂_cons_left_iff.mp h2
  have hn : es1.filter (fun d => d.value? "part" == some (.text (stripRole s))) = [] := by
    rw [filter_eq_nil_iff]
    intro d' hd'
    obtain ⟨s',hs',hst⟩ := forall₂_mem_right h1 hd'
    rw [hst.part]
    simpa using hb s' hs'
  have hsm : (d.value? "part" == some (.text (stripRole s))) := by
    rw [hd.part]
    exact beq_self_eq_true _
  have hf : (d.childrenOf tag).head? = some c := by
    rw [childrenOf,hd.children]
    exact hch
  obtain ⟨rest,hr⟩ := head?_eq_some_iff.mp hf
  rw [partText,descendant_part hc hl hp h,filter_append,hn,nil_append,
    filter_cons,if_pos hsm,flatMap_cons,hr,cons_append]
  rfl

variable (k allLed) in
lemma extracted_settled {s : Strip} (hc : s.isCode = false) :
  ∃ ts, ((settledChildren k allLed s).filter (·.has "extract")).mapM (extracted "extract") =
      .ok ts ∧ join (ts.filterMap id) = ofList (s.words k allLed) := by
  cases s with
  | code n cs => cases hc
  | start n m =>
    refine ⟨[some (ofList (bodyText m.after)),some (ofList (lineEnd m.after))],rfl,?_⟩
    simp [ofList_bodyText_lineEnd,Strip.words]
  | middle n m =>
    cases allLed with
    | true =>
      refine ⟨[some (ofList (bodyText m.after)),some (ofList (lineEnd m.after))],rfl,?_⟩
      simp [ofList_bodyText_lineEnd,Strip.words]
    | false =>
      refine ⟨[some (ofList (shuffledText k m)),some (ofList (lineEnd m.after))],rfl,?_⟩
      simp [Strip.words]
  | finish n i => exact ⟨[none],rfl,rfl⟩

lemma extracted_lines (h : Forall₂ (IsSettled k allLed) ss es) (hss : ∀ s ∈ ss, s.isCode = false) :
  ∃ ts, ((es.flatMap fun e => e :: e.children).filter (·.has "extract")).mapM (extracted "extract") = .ok ts ∧
    join (ts.filterMap id) = ofList (ss.flatMap (Strip.words k allLed)) := by
  induction h with
  | nil => exact ⟨[],rfl,rfl⟩
  | @cons s e ss es he _ ih =>
    obtain ⟨ts,ht,hj⟩ := extracted_settled k allLed (hss s mem_cons_self)
    obtain ⟨ts',ht',hj'⟩ := ih fun s' hs' => hss s' (mem_cons_of_mem _ hs')
    have hl : ¬ (e.has "extract" = true) := by simp [has,he.extract]
    refine ⟨ts ++ ts',?_,?_⟩
    · rw [flatMap_cons,filter_append,filter_cons,if_neg hl,he.children,mapM_append,ht,ht']
      rfl
    · rw [filterMap_append,String.join_append,hj,hj',flatMap_cons,String.ofList_append]

end

structure IsExtracted (r : Remark) (e : Element) : Prop extends SettledHead r e where
  children : ∃ es, e.children = [{ tag := "lines", children := es },
      { tag := "extract", text := some (ofList
        (r.strips.flatMap (Strip.words r.mark.indent.length r.allLed))) }] ∧ AreSettled r es

def IsExtractedPassage : Passage → Element → Prop
  | .code n cs, e => IsLine n cs e
  | .comment r, e => IsExtracted r e

lemma extraction_ok {r : Remark} (h : IsSettledComment r e) :
    ∃ ts, extraction "extract" e = .ok (some ts) ∧ join ts =
    ofList (r.strips.flatMap (Strip.words r.mark.indent.length r.allLed)) := by
  obtain ⟨es,hc,hes⟩ := h.lines
  obtain ⟨ts,ht,hj⟩ := extracted_lines hes r.isCode_strips
  have hg : e.descendants.filter (·.has "extract") =
      (es.flatMap fun e => e :: e.children).filter (·.has "extract") := by
    rw [descendants_eq,hc,flatMap_cons,flatMap_nil,append_nil,descendants_settled "lines" hes,filter_cons]
    rfl
  have hsm : ((es.flatMap fun e => e :: e.children).filter (·.has "extract")).isEmpty = false := by
    obtain ⟨start,rest,hs,-,rfl⟩ := forall₂_cons_left_iff.mp hes
    have hm : marginLeaf r.mark.margin (some (ofList (bodyText r.mark.after))) ∈ start.children := by
      rw [hs.children]
      simp [settledChildren,stripChildren,openLeaves]
    rw [isEmpty_eq_false_iff_exists_mem]
    exact ⟨_,mem_filter.mpr ⟨mem_flatMap.mpr ⟨start,mem_cons_self,mem_cons_of_mem _ hm⟩,by rfl⟩⟩
  refine ⟨ts.filterMap id,?_,hj⟩
  simp only [extraction,hg,hsm,ht]
  rfl

lemma extract_ok {p : Passage} (h : IsSettledPassage p e) :
  ∃ e', extract "extract" "extract" e = .ok e' ∧ IsExtractedPassage p e' := by
  cases p with
  | code n cs =>
    have hn : e.descendants = [] := descendants_of_leaf (IsLine.children h)
    refine ⟨e,?_,h⟩
    simp only [extract,extraction,hn]
    rfl
  | comment r =>
    obtain ⟨ts,ht,hj⟩ := extraction_ok h
    obtain ⟨es,hc,hes⟩ := h.lines
    refine ⟨e.append { tag := "extract", text := some (join ts) },?_,
      ⟨h.tag,h.first,h.last,h.indentStart,h.allHaveSymbol⟩,es,?_,hes⟩
    · simp only [extract,ht]
      rfl
    · rw [Element.append,hc,hj]
      rfl

lemma settle_extract_ok {p : Passage} (h : IsGathered p e) :
    ∃ e', (do extract "extract" "extract" (← settleComment "lines" e)) = .ok e' ∧
      IsExtractedPassage p e' := by
  obtain ⟨settled,hs,hst⟩ := settleComment_passage h
  obtain ⟨e',hex,he'⟩ := extract_ok hst
  refine ⟨e',?_,he'⟩
  rw [hs]
  exact hex

lemma text_leaf (tag : String) (cs : List Char) (tail : Option String) :
  (leaf tag cs tail).text.getD "" = ofList cs := by
  cases cs <;> rfl

lemma stripRole_front (r : Remark) : ∀ s ∈ r.front, stripRole s ≠ "finish" := by
  intro s hs
  obtain rfl | ⟨n,m,rfl⟩ := Remark.mem_front hs <;> simp [stripRole]

lemma replacement_ok {r : Remark} (h : IsExtracted r e) {n : Nat} {ind : Option (List Char)}
  (hf : r.finish = some (n,ind)) (path fragment : String) :
  Tree.replacement e (some path) fragment = .ok (r.marked path fragment) := by
  obtain ⟨es,hc,hes⟩ := h.children
  have hst {tag : String} {c : Element} (hch : ((settledChildren r.mark.indent.length r.allLed
      (.start r.number r.mark)).filter (·.tag == tag)).head? = some c) :
      partText "start" tag e = .ok (c.text.getD "") :=
    partText_ok hc rfl rfl hes (nil_append _).symm (by simp) hch
  have hfn {tag : String} {c : Element} (hch : ((settledChildren r.mark.indent.length r.allLed
      (.finish n ind)).filter (·.tag == tag)).head? = some c) :
      partText "finish" tag e = .ok (c.text.getD "") :=
    partText_ok hc rfl rfl hes (r.strips_finish hf) (stripRole_front r) hch
  have hi : partText "start" "indent" e = .ok (ofList r.mark.indent) :=
    (hst rfl).trans (congrArg _ (text_leaf _ _ _))
  have hsy : partText "start" "symbol" e = .ok "/**" :=
    (hst rfl).trans (congrArg _ (text_leaf "symbol" ['/','*','*'] (some "")))
  have hm : partText "start" "margin" e = .ok (ofList r.mark.margin) :=
    (hst (c := marginLeaf r.mark.margin (some (ofList (bodyText r.mark.after)))) rfl).trans
      (congrArg Except.ok (text_leaf "margin" r.mark.margin none))
  have he : partText "start" "eol" e = .ok (ofList (lineEnd r.mark.after)) :=
    hst (c := endLeaf (lineEnd r.mark.after)) rfl
  have hi' : partText "finish" "indent" e = .ok (ofList (ind.getD [])) :=
    (hfn rfl).trans (congrArg _ (text_leaf _ _ _))
  have hsy' : partText "finish" "symbol" e = .ok "*/" :=
    (hfn rfl).trans (congrArg _ (text_leaf "symbol" ['*','/'] none))
  simp only [Remark.marked_eq hf,Tree.replacement,hi,hsy,hm,he,hi',hsy',bind,Except.bind]
  rfl

end Tree

namespace Comment

lemma IsBlock.replacement_ok {r : Remark} {b : Block} (h : IsBlock r b) {n : Nat} {ind : Option (List Char)}
  (hf : r.finish = some (n,ind)) (hs : ∀ s ∈ r.strips, s.spaced ∧ s.closesSpaced) (path fragment : String) :
  b.replacement path fragment = .ok (r.marked path fragment) := by
  have hh : b.lines.head? = some (lineOf (.start r.number r.mark)) := by
    rw [h.lines]
    rfl
  have hst := Remark.strips_finish hf
  have hl : b.lines.getLast? = some (lineOf (.finish n ind)) := by
    rw [h.lines,hst,map_append]
    exact getLast?_concat
  have hsr : Text.spacesInt r.mark.indent.length = ofList r.mark.indent :=
    spacesInt_length (hs (.start r.number r.mark) mem_cons_self).1
  have hm : Text.spacesInt r.mark.margin.length = ofList r.mark.margin :=
    spacesInt_length (onlySpaces_margin r.mark)
  have hfn : (lineOf (.finish n ind)).indentText.getD "" = ofList (ind.getD []) := by
    have hmm : Strip.finish n ind ∈ r.strips := by
      rw [hst]
      exact mem_append_right _ mem_cons_self
    cases hi : ind with
    | none => rfl
    | some i =>
      subst hi
      exact spacesInt_length (hs _ hmm).2
  simp only [Remark.marked_eq hf,Block.replacement,hh,hl,hfn]
  simp only [lineOf,Line.indentText,Line.marginText,Option.map_some,Block.needText,hsr,
    hm,Option.getD_some,Option.getD_none,String.append_empty]
  rfl

lemma fault_gather (src : Option String) (pending : List Line) (items : List Scanned)
  {err : Option Fault} (h : err ≠ none) : (gather src pending items err).fault ≠ none := by
  fun_induction gather src pending items err <;> simp_all [Stream.cons,Stream.failed]

lemma fault_of_blocks {src : Option String} {s : Scan} (h : (blocks src s.stream).fault = none) :
    s.fault = none := by
  by_contra hf
  exact fault_gather src [] s.items hf h

end Comment

open Comment Element

variable {r : Remark} {b : Block}

structure SameLine (line : SourceLine) (e : Element) : Prop where
  tag : e.tag = "line"
  number : e.attribute? "number" = line.number.map toString
  text : e.text = line.text
  children : e.children = []

structure SameComment (b : Block) (e : Element) : Prop where
  tag : e.tag = "comment"
  numbers : ∃ first last : Int, b.lineNumbers = .ok (some first,some last) ∧
    e.attribute? "lineFirst" = some (toString first) ∧ e.attribute? "lineLast" = some (toString last)
  indentStart : ∃ n : Int, b.indentStart = some n ∧ e.attribute? "indentStart" = some (toString n)
  allHaveSymbol : e.attribute? "allHaveSymbol" = some (isTrue b.allHaveSymbol)
  text : (e.childrenOf "extract").map Element.text = [some (join b.texts)]
  reference : b.lines.getLast?.bind Line.part = some .finish → ∀ path fragment, ∃ text,
    b.replacement path fragment = .ok text ∧ Tree.replacement e (some path) fragment = .ok text

def Agrees : Piece → Element → Prop
  | .code line, e => SameLine line e
  | .block b, e => SameComment b e

lemma number_settledLine (k : Nat) (allLed : Bool) (s : Strip) :
  (settledLine k allLed s).number = some (s.number : Int) := by
  cases s with
  | middle n m => cases allLed <;> rfl
  | _ => rfl

lemma lineNumbers_ok (h : IsBlock r b) :
    b.lineNumbers = .ok (some (r.number : Int),some (r.lastNumber : Int)) := by
  have hh : b.lines.head? = some (lineOf (.start r.number r.mark)) := by
    rw [h.lines]
    rfl
  obtain ⟨s,hs,hn⟩ := Option.map_eq_some_iff.mp r.getLast?_strips
  have hl : b.lines.getLast? = some (settledLine r.mark.indent.length r.allLed s) := by
    rw [h.lines,getLast?_map,hs]
    rfl
  rw [Block.lineNumbers,hh,hl]
  simp only [number_settledLine,hn]
  rfl

lemma finish_of_last (h : IsBlock r b) (hls : b.lines.getLast?.bind Line.part = some .finish) :
  ∃ n ind, r.finish = some (n,ind) := by
  cases hf : r.finish with
  | some p => exact ⟨p.1,p.2,rfl⟩
  | none =>
    obtain ⟨l,hl,hp⟩ := Option.bind_eq_some_iff.mp hls
    have hm := mem_of_getLast? hl
    rw [h.lines] at hm
    obtain ⟨s,hs,rfl⟩ := mem_map.mp hm
    rw [part_settledLine] at hp
    rw [Remark.strips_unfinished hf] at hs
    obtain rfl | ⟨n,m,rfl⟩ := Remark.mem_front hs <;> cases hp

lemma sameComment {e : Element} (hb : IsBlock r b) (he : Tree.IsExtracted r e)
    (hs : ∀ s ∈ r.strips, s.spaced ∧ s.closesSpaced) : SameComment b e where
  tag := he.tag
  numbers := by
    exact ⟨r.number,r.lastNumber,lineNumbers_ok hb,he.first,he.last⟩
  indentStart := ⟨_,hb.indentStart,he.indentStart⟩
  allHaveSymbol := by rw [hb.allHaveSymbol,he.allHaveSymbol]
  text := by
    obtain ⟨es,hc,-⟩ := he.children
    rw [childrenOf,hc,hb.join_texts]
    rfl
  reference hl path fragment := by
    obtain ⟨n,ind,hf⟩ := finish_of_last hb hl
    exact ⟨_,hb.replacement_ok hf hs path fragment,Tree.replacement_ok he hf path fragment⟩

lemma agrees_passage {p : Passage} {piece : Piece} {e : Element} (hp : IsPiece p piece)
  (he : Tree.IsExtractedPassage p e) (hs : ∀ s ∈ p.strips, s.spaced ∧ s.closesSpaced) : Agrees piece e := by
  cases p with
  | code n cs =>
    obtain rfl := isPiece_code hp
    refine ⟨Tree.IsLine.tag he,?_,he.text,he.children⟩
    rw [attribute?,he.number]
    rfl
  | comment r =>
    obtain ⟨b,rfl,hb⟩ := isPiece_comment hp
    exact sameComment hb he hs

theorem readers_agree {tabSize : Int} (ht : 0 < tabSize) (verbose : Bool) (path text : String)
    (h : (blocks (some path) (scan verbose (Comment.readLines tabSize text)).stream).fault = none) :
    ∃ marked es, Tree.readLines tabSize path (Files.Content.text text).lines = .ok marked ∧
      ((Tree.gatherComments {} marked).mapM fun e => do
        Tree.extract "extract" "extract" (← Tree.settleComment "lines" e)) = .ok es ∧
      List.Forall₂ Agrees
        (blocks (some path) (scan verbose (Comment.readLines tabSize text)).stream).items es := by
  have hfault := fault_of_blocks h
  have hraw := Text.ne_empty_of_mem_fileLines (String.ofList (Text.normalizeNewlines text.toList))
  have hne := ne_empty_of_mem_readLines ht text
  have htab := no_tab_of_mem_readLines tabSize text
  obtain ⟨last, hreads⟩ := reads_scan verbose hne htab
  obtain ⟨ps, hps, hflat⟩ := exists_passages_cutLines ((Comment.readLines tabSize text).map String.toList)
  have hspaced : ∀ p ∈ ps, ∀ s ∈ p.strips, s.spaced = true ∧ s.closesSpaced = true := by
    intro p hp s hs
    have hmem : s ∈ cutLines ((Comment.readLines tabSize text).map String.toList) := by
      rw [← hflat]
      exact mem_flatMap.mpr ⟨p, hp, hs⟩
    refine ⟨hreads.spaced hfault s hmem, closesSpaced_cutFrom ?_ 1 false s hmem⟩
    intro cs hcs
    obtain ⟨line, hline, rfl⟩ := mem_map.mp hcs
    exact htab line hline
  obtain ⟨pieces, hpieces, hforall⟩ := gather_passages hps path
  obtain ⟨marked, hmarked, hstrips⟩ := Tree.readLines_ok ht path hraw
  have hgathered := Tree.isGathered_gatherComments hps (by rw [hflat]; exact hstrips)
  obtain ⟨es, hes, hextracted⟩ := forall₂_mapM_ok hgathered fun p _ e he => Tree.settle_extract_ok he
  refine ⟨marked, es, hmarked, hes, ?_⟩
  have hitems : (blocks (some path) (scan verbose (Comment.readLines tabSize text)).stream).items =
      pieces := by
    rw [blocks, Scan.stream, hfault, hreads.items hfault, ← hflat, hpieces]
  rw [hitems]
  exact forall₂_join hforall hextracted fun p hp piece e hpiece he =>
    agrees_passage hpiece he (hspaced p hp)

theorem readers_agree_at_mixed_comments :
    (blocks (some "a.h") (scan false (Comment.readLines 4
        "\t/** a */ x /** b\n\t * c\n\n      d\n  */ y\n/** e")).stream).fault = none ∧
      ∃ marked es, Tree.readLines 4 "a.h" (Files.Content.text
          "\t/** a */ x /** b\n\t * c\n\n      d\n  */ y\n/** e").lines = .ok marked ∧
        ((Tree.gatherComments {} marked).mapM fun e => do
          Tree.extract "extract" "extract" (← Tree.settleComment "lines" e)) = .ok es ∧
        List.Forall₂ Agrees (blocks (some "a.h") (scan false (Comment.readLines 4
          "\t/** a */ x /** b\n\t * c\n\n      d\n  */ y\n/** e")).stream).items es := by
  have h := Option.isNone_iff_eq_none.mp (by decide +kernel : (blocks (some "a.h") (scan false
    (Comment.readLines 4
      "\t/** a */ x /** b\n\t * c\n\n      d\n  */ y\n/** e")).stream).fault.isNone = true)
  exact ⟨h, readers_agree (by decide) false "a.h" _ h⟩

end Docweave
