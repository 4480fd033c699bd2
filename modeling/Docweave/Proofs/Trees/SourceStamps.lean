import Docweave.Proofs.Jobs.Extraction
import Docweave.Proofs.Trees.AlikeTrees

namespace Docweave.Tree

open Element Comment List

variable {es : List Element} {k : Nat} {allLed : Bool}

structure Stamped (path : String) (e : Element) : Prop where
  tag : e.tag = "line"
  complete : Complete e
  source : e.value? "source" = some (.text path)
  number : ∃ n, e.value? "number" = some (.text n)

variable {path : String} {e e' : Element}

lemma Stamped.withHead (h : Stamped path e) (ht : e'.tag = e.tag)
  (ha : e'.attributes = e.attributes) : Stamped path e' := by
  refine ⟨ht.trans h.tag,?_,?_,?_⟩
  · rw [Complete,ha]
    exact h.complete
  · rw [value?,ha]
    exact h.source
  · obtain ⟨n,hn⟩ := h.number
    refine ⟨n,?_⟩
    rw [value?,ha]
    exact hn

lemma complete_set (h : Complete e) (name text : String) : Complete (e.set name text) := by
  intro a ha
  rcases mem_setKey ha with ha | rfl
  · exact h a ha
  · simp

lemma Stamped.set (h : Stamped path e) (name text : String)
    (hnm : name ∉ ["source","number"] := by decide) : Stamped path (e.set name text) := by
  simp only [mem_cons,not_mem_nil,or_false,not_or] at hnm
  obtain ⟨n,hn⟩ := h.number
  refine ⟨h.tag,complete_set h.complete name text,?_,n,?_⟩
  · rw [value?_set_ne _ (Ne.symm hnm.1),h.source]
  · rw [value?_set_ne _ (Ne.symm hnm.2),hn]

lemma stamped_lineElements (path : String) (ls : List String) :
  ∀ e ∈ lineElements "line" (some path) ls, Stamped path e := by
  intro e he
  obtain ⟨i,hi,rfl⟩ := mem_mapIdx.mp he
  refine ⟨rfl,?_,rfl,toString (i + 1),rfl⟩
  intro a ha
  rcases mem_append.mp ha with ha | ha <;> obtain rfl := mem_singleton.mp ha <;> simp

lemma stamped_expandLine {size : Int} (h : expandLine size e = .ok e') (he : Stamped path e) :
    Stamped path e' := by
  rw [expandLine] at h
  split at h
  · dsimp only at h
    split at h
    · cases h
      exact he
    · cases h
      exact (he.set "expandedTabSize" _).withHead rfl rfl
  · cases h

lemma stamped_copied (he : Stamped path e) {t : Element} (htg : t.tag = "line") (ht : Complete t) :
  Stamped path (copyAttributes ["number","source"] e t) := by
  obtain ⟨n,hn⟩ := he.number
  simp only [copyAttributes,foldl_cons,hn,he.source]
  refine ⟨htg,complete_set (complete_set ht "number" n) "source" path,value?_set _ _ _,n,?_⟩
  have hs := value?_set_ne (t.set "number" n) (by decide : "number" ≠ "source") path
  exact hs.trans (value?_set t "number" n)

lemma stamped_part {rule : Rule} {role : String} {p : Parted} (h : part rule role e = .ok (some p))
  (he : Stamped path e) : Stamped path p.rest ∧ Stamped path p.parts := by
  rw [part] at h
  split at h
  · dsimp only at h
    split at h
    · cases Except.ok.inj h
    obtain ⟨parting,-,h⟩ := bind_ok h
    obtain ⟨gapped,-,hl⟩ := bind_ok h
    cases hl
    refine ⟨he.withHead rfl rfl,Stamped.set (stamped_copied he ?_ (complete_set ?_ _ _)) "part" role⟩
    · exact he.tag
    · exact fun a ha => absurd ha not_mem_nil
  · cases h

lemma stamped_cutLineEnd (h : cutLineEnd e = .ok e') (he : Stamped path e) : Stamped path e' := by
  rw [cutLineEnd] at h
  split at h
  · cases h
    exact he.withHead rfl rfl
  · obtain ⟨text,-,h⟩ := bind_ok h
    cases h

lemma stamped_restoreTail {tail : Option String} (h : restoreTail e tail = .ok e')
  (he : Stamped path e) : Stamped path e' := by
  rw [restoreTail] at h
  split at h
  · obtain ⟨text,-,h⟩ := bind_ok h
    cases h
  · cases h
    exact he.withHead rfl rfl

lemma stamped_readBody {opened body : Option Element} {left : Option String}
  (h : readBody opened e = .ok (body,left)) (ho : ∀ o ∈ opened, Stamped path o)
  (he : Stamped path e) : ∀ b ∈ body, Stamped path b := by
  cases opened with
  | some parts =>
    obtain ⟨restored,hr,h⟩ := bind_ok h
    obtain ⟨cut,hc,hl⟩ := bind_ok h
    cases hl
    intro b hb
    cases hb
    exact stamped_cutLineEnd hc (stamped_restoreTail hr (ho parts rfl))
  | none =>
    rw [readBody] at h
    split at h
    · cases h
      simp
    obtain ⟨found,hf,h⟩ := bind_ok h
    cases found with
    | none =>
      cases h
      simp
    | some p =>
      dsimp only at h
      split at h
      · obtain ⟨text,-,h⟩ := bind_ok h
        obtain ⟨text',-,h⟩ := bind_ok h
        cases h
      obtain ⟨cut,hc,hl⟩ := bind_ok h
      cases hl
      intro b hb
      cases hb
      exact stamped_cutLineEnd hc (stamped_part hf he).2

lemma stamped_read (fuel : Nat) :
  (∀ line r, Stamped path line → readOutside fuel line = .ok r → ∀ e ∈ r.elements, Stamped path e) ∧
    ∀ opened line r, (∀ o ∈ opened, Stamped path o) → Stamped path line →
      readInside fuel opened line = .ok r → ∀ e ∈ r.elements, Stamped path e := by
  induction fuel with
  | zero =>
    refine ⟨fun line r _ h => ?_,fun opened line r _ _ h => ?_⟩ <;> cases h <;> simp
  | succ fuel ih =>
    constructor
    · intro line r hl h
      obtain ⟨found,hfn,h⟩ := bind_ok h
      cases found with
      | none =>
        dsimp only at h
        split at h
        · obtain ⟨text,-,h⟩ := bind_ok h
          cases h
        · cases h
          simpa using hl
      | some p =>
        refine ih.2 _ _ r (fun o ho => ?_) (by exact hl.withHead rfl rfl) h
        cases ho
        exact (stamped_part hfn hl).2.withHead rfl rfl
    · intro opened line r ho hl h
      obtain ⟨finish,hf,h⟩ := bind_ok h
      have hr : Stamped path ((finish.map Parted.rest).getD line) := by
        cases finish with
        | none => exact hl
        | some f => exact (stamped_part hf hl).1
      obtain ⟨⟨body,left⟩,hbd,h⟩ := bind_ok h
      have hb := stamped_readBody hbd ho hr
      cases finish with
      | none =>
        cases body with
        | none =>
          obtain ⟨text,-,h⟩ := bind_ok h
          cases h
        | some b =>
          cases h
          simpa using hb b rfl
      | some f =>
        have hd : ∀ e ∈ body.toList ++ [setLastTail f.parts none], Stamped path e := by
          intro e he
          rcases mem_append.mp he with he | he
          · exact hb e (Option.mem_toList.mp he)
          · obtain rfl := mem_singleton.mp he
            exact (stamped_part hf hl).2.withHead rfl rfl
        dsimp only at h
        split at h
        · obtain ⟨text,-,h⟩ := bind_ok h
          obtain ⟨text',-,h⟩ := bind_ok h
          cases h
        split at h
        · cases h
          exact hd
        obtain ⟨later,hlt,rfl⟩ := map_ok h
        intro e he
        rcases mem_append.mp he with he | he
        · exact hd e he
        · exact ih.1 _ later (by exact hr.withHead rfl rfl) hlt e he

lemma stamped_readFrom {inComment : Bool} {ls marked : List Element} (h : readFrom inComment ls = .ok marked)
  (hl : ∀ e ∈ ls, Stamped path e) : ∀ e ∈ marked, Stamped path e := by
  induction ls generalizing inComment marked with
  | nil =>
    cases h
    simp
  | cons line ls ih =>
    rw [forall_mem_cons] at hl
    obtain ⟨r,hr,h⟩ := bind_ok h
    obtain ⟨later,hlt,rfl⟩ := map_ok h
    have hln : ∀ e ∈ r.elements, Stamped path e := by
      cases inComment with
      | true => exact (stamped_read _).2 none line r (by simp) hl.1 hr
      | false => exact (stamped_read _).1 line r hl.1 hr
    intro e he
    rcases mem_append.mp he with he | he
    · exact hln e he
    · exact ih hlt hl.2 e he

lemma stamped_readLines {size : Int} {ls : Stream String} {marked : List Element}
  (h : readLines size path ls = .ok marked) : ∀ e ∈ marked, Stamped path e := by
  obtain ⟨expanded,hex,h⟩ := bind_ok h
  obtain ⟨all,ha,h⟩ := bind_ok h
  have hl : ∀ e ∈ expanded, Stamped path e := by
    intro e he
    obtain ⟨e0,he0,hep⟩ := forall₂_mem_right ((mapM_ok_iff _ _ _).mp hex) he
    exact stamped_expandLine hep (stamped_lineElements path _ e0 he0)
  split at h
  · cases h
  · cases h
    exact stamped_readFrom ha hl

structure StampedComment (path : String) (e : Element) : Prop where
  tag : e.tag = "comment"
  tail : e.tail = none
  attributes : ∃ n, e.attributes = [("lineFirst",.text n),("source",.text path)]
  lines : ∀ c ∈ e.children, ∀ l ∈ c.children, Stamped path l

lemma stampedComment_openComment (he : Stamped path e) {ls : List Element}
  (hl : ∀ l ∈ ls, Stamped path l) : StampedComment path (closeComment {} (openComment {} e) ls) := by
  obtain ⟨n,hn⟩ := he.number
  have hnm : e.attribute? "number" = some n := by
    rw [attribute?,hn]
  have ho : openComment {} e =
      { tag := "comment", attributes := [("lineFirst",.text n),("source",.text path)] } := by
    simp only [openComment,hnm,copyAttributes,foldl_cons,he.source]
    rfl
  rw [ho]
  refine ⟨rfl,rfl,⟨n,rfl⟩,fun c hc => ?_⟩
  obtain rfl := mem_singleton.mp hc
  exact hl

def Pending (path : String) (c : Element × List Element) : Prop :=
  (∀ l ∈ c.2, Stamped path l) ∧
    ∀ lines, (∀ l ∈ lines, Stamped path l) → StampedComment path (closeComment {} c.1 lines)

lemma Pending.add {c : Element × List Element} (h : Pending path c) (he : Stamped path e) :
  Pending path (c.1,c.2 ++ [e]) := by
  refine ⟨fun l hl => ?_,h.2⟩
  rcases mem_append.mp hl with hl | hl
  · exact h.1 l hl
  · exact mem_singleton.mp hl ▸ he

lemma stamped_gatherFrom {current : Option (Element × List Element)} (hcr : ∀ c ∈ current, Pending path c)
  (hes : ∀ e ∈ es, Stamped path e) : ∀ e ∈ gatherFrom {} current es, Stamped path e ∨ StampedComment path e := by
  induction es generalizing current with
  | nil =>
    cases current with
    | none => simp [gatherFrom]
    | some c =>
      intro e he
      obtain rfl := mem_singleton.mp he
      exact .inr ((hcr c rfl).2 _ (hcr c rfl).1)
  | cons e es ih =>
    rw [forall_mem_cons] at hes
    have hl : ∀ e ∈ gatherFrom {} none es, Stamped path e ∨ StampedComment path e :=
      ih (by simp) hes.2
    have hg {c : Element × List Element} (hc : Pending path c) (role : Value) :
        ∀ e ∈ (if role = .text "finish" then closeComment {} c.1 c.2 :: gatherFrom {} none es
          else gatherFrom {} (some c) es), Stamped path e ∨ StampedComment path e := by
      split
      · rw [forall_mem_cons]
        exact ⟨.inr (hc.2 _ hc.1),hl⟩
      · refine ih (fun c' hc' => ?_) hes.2
        cases hc'
        exact hc
    cases current with
    | none =>
      have ho : Pending path (openComment {} e,[]) :=
        ⟨by simp,fun ls hln => stampedComment_openComment hes.1 hln⟩
      rw [gatherFrom]
      split
      · exact hg (ho.add hes.1) _
      · rw [forall_mem_cons]
        exact ⟨.inl hes.1,hl⟩
    | some c =>
      have hc := hcr c rfl
      rw [gatherFrom]
      split
      · exact hg (hc.add hes.1) _
      · rw [forall_mem_cons,forall_mem_cons]
        exact ⟨.inr (hc.2 _ hc.1),.inl hes.1,hl⟩

lemma stamped_shuffleLine (h : shuffleLine k e = .ok e') (he : Stamped path e) : Stamped path e' := by
  obtain ⟨marks,-,rfl⟩ := map_ok h
  exact (he.set "shuffles" _).withHead rfl rfl

lemma stamped_checkIndents {found : Option Nat} {i : Indents} (h : checkIndents allLed k found es = .ok i)
  (hes : ∀ e ∈ es, Stamped path e) : ∀ e ∈ i.lines, Stamped path e := by
  induction es generalizing found i with
  | nil =>
    cases h
    simp
  | cons e es ih =>
    rw [forall_mem_cons] at hes
    have hr {found' : Option Nat} {line : Element} (hln : Stamped path line)
        (hc : (do return (← checkIndents allLed k found' es).cons line) = Except.ok i) :
        ∀ e ∈ i.lines, Stamped path e := by
      obtain ⟨j,hj,rfl⟩ := map_ok hc
      exact forall_mem_cons.mpr ⟨hln,ih hj hes.2⟩
    have hs {inPlace : Bool} {found' : Option Nat}
        (hl : (pure ⟨e :: es,inPlace,found'⟩ : Except Fault Indents) = .ok i) :
        ∀ e ∈ i.lines, Stamped path e := by
      cases hl
      exact forall_mem_cons.mpr hes
    rw [checkIndents] at h
    split at h
    · exact hr hes.1 h
    obtain ⟨spaceOnly,-,h⟩ := bind_ok h
    split at h
    · exact hr (hes.1.set "spaceOnly" "continue") h
    split at h
    · dsimp only at h
      split at h
      · split at h
        · exact hr hes.1 h
        · exact hs h
      · split at h
        · exact hr hes.1 h
        · exact hs h
    · cases h

lemma stamped_settleLines {ls ls' : Element} (h : settleLines e ls = .ok (e',ls'))
  (hln : ∀ l ∈ ls.children, Stamped path l) : ∀ l ∈ ls'.children, Stamped path l := by
  have hf {allLed : Bool} {k : Nat} {shuffled : List Element} {f : Indents → Element}
      (hs : ∀ l ∈ shuffled, Stamped path l)
      (hls : (do
        let indents ← checkIndents allLed k none shuffled
        pure (f indents,{ ls with children := indents.lines })) = Except.ok (e',ls')) :
      ∀ l ∈ ls'.children, Stamped path l := by
    obtain ⟨indents,hi,hls⟩ := bind_ok hls
    cases hls
    exact stamped_checkIndents hi hs
  rw [settleLines] at h
  split at h
  · dsimp only at h
    split at h
    · exact hf hln h
    obtain ⟨shuffled,hs,h⟩ := bind_ok h
    refine hf (fun l hl => ?_) h
    obtain ⟨l0,hl0,hsh⟩ := forall₂_mem_right ((mapM_ok_iff _ _ _).mp hs) hl
    split at hsh
    · exact stamped_shuffleLine hsh (hln l0 hl0)
    · obtain rfl := Except.ok.inj hsh
      exact hln l0 hl0
  · obtain ⟨text,-,h⟩ := bind_ok h
    cases h

section

variable (r : Remark) (inPlace : Bool) (found : Option Nat)

lemma complete_noted (h : Complete e) : Complete (noted r inPlace found e) := by
  have hf := complete_set (complete_set (complete_set h "indentStart"
    (toString r.mark.indent.length)) "allHaveSymbol"
    (isTrue r.allLed)) "allIndentedOK" (isTrue inPlace)
  cases found with
  | none => exact complete_set hf "lineLast" (toString r.lastNumber)
  | some n =>
    exact complete_set (complete_set hf "indentContinue" (toString n)) "lineLast"
      (toString r.lastNumber)

lemma noted_tail (e : Element) : (noted r inPlace found e).tail = e.tail := by
  cases found <;> rfl

lemma outline_noted (h : StampedComment path e) : outline (noted r inPlace found e).attributes =
    [("source",.text path),("indentStart",.text (toString r.mark.indent.length))] := by
  obtain ⟨n,hn⟩ := h.attributes
  cases found <;> simp [noted,Element.set,setValue,hn,notes,outline,setKey]

end

lemma StampedComment.complete (h : StampedComment path e) : Complete e := by
  obtain ⟨n,hn⟩ := h.attributes
  intro a ha
  rw [hn] at ha
  rcases mem_cons.mp ha with rfl | ha
  · simp
  · obtain rfl := mem_singleton.mp ha
    simp

lemma complete_leaves (s : Strip) : ∀ c ∈ settledChildren k allLed s, Throughout Complete c := by
  have ho {c : Element} {name text : String} (ha : c.attributes = [(name,.text text)]) (hk : c.children = []) :
      Throughout Complete c := by
    refine throughout_leaf (fun a hm => ?_) hk
    obtain rfl := mem_singleton.mp (ha ▸ hm)
    simp
  exact forall_settledChildren (fun _ _ _ => throughout_leaf (fun a ha => absurd ha not_mem_nil) rfl)
    (fun _ _ => ho rfl rfl) (fun _ => ho rfl rfl) s

lemma complete_settled {s : Strip} (h : IsSettled k allLed s e) (hs : Stamped path e) :
    Throughout Complete e := by
  refine throughout_iff.mpr ⟨hs.complete,?_⟩
  rw [h.children]
  exact complete_leaves s

lemma complete_lines (h : ∀ e ∈ es, Throughout Complete e) : Throughout Complete
    { tag := "lines", children := es } :=
  throughout_iff.mpr ⟨fun _ ha => absurd ha not_mem_nil,h⟩

lemma complete_gathered {p : Passage} (h : IsGathered p e) (hs : Stamped path e ∨ StampedComment path e) :
  Throughout Complete e := by
  cases p with
  | code n cs =>
    have ht : e.tag ≠ "comment" := IsLine.tag_ne h
    exact throughout_leaf (hs.resolve_right fun hs => ht hs.tag).complete (IsLine.children h)
  | comment r =>
    have hst : StampedComment path e := by
      refine hs.resolve_left fun hs => ?_
      have ht := hs.tag.symm.trans (IsComment.tag h)
      simp at ht
    obtain ⟨es,hk,hes⟩ := IsComment.lines h
    refine throughout_iff.mpr ⟨hst.complete,?_⟩
    rw [hk,forall_mem_singleton]
    refine complete_lines fun l hl => ?_
    obtain ⟨s,hs,hsr⟩ := forall₂_mem_right hes hl
    have hln : Stamped path l :=
      hst.lines _ (by rw [hk]; exact mem_cons_self) l hl
    exact complete_settled (isSettled_of_isStrip (k := 0) hsr (r.isCode_strips s hs) (.inl rfl)) hln

structure IsDraft (path : String) (r : Remark) (e : Element) : Prop where
  extracted : IsExtracted r e
  text : e.text = none
  tail : e.tail = none
  outline : outline e.attributes = [("source",.text path),("indentStart",.text (toString r.mark.indent.length))]
  complete : Throughout Complete e

lemma isDraft_extract {r : Remark} (h : IsComment r e) (hs : StampedComment path e) :
    ∃ e', (do extract "extract" "extract" (← settleComment "lines" e)) = Except.ok e' ∧
      IsDraft path r e' := by
  obtain ⟨es,hk,hes⟩ := h.lines
  obtain ⟨inPlace,found,es',hsl,hes'⟩ := settleLines_ok e hes
  have heq := settleComment_eq hk hsl (noted_children ..)
  obtain ⟨settled,hst,his⟩ := settleComment_ok h
  cases heq.symm.trans hst
  have hln : ∀ l ∈ es', Stamped path l :=
    stamped_settleLines hsl (hs.lines _ (by rw [hk]; exact mem_cons_self))
  obtain ⟨e',hex,he'⟩ := extract_ok (p := .comment r) his
  obtain ⟨ts,ht,hls⟩ := bind_ok hex
  obtain ⟨es1,hes1,-⟩ := IsExtracted.children he'
  cases ts with
  | none =>
    cases hls
    cases hes1
  | some ts =>
    cases hls
    refine ⟨_,?_,he',his.text,(noted_tail r _ _ e).trans hs.tail,outline_noted r _ _ hs,
      throughout_iff.mpr ⟨complete_noted r _ _ hs.complete,?_⟩⟩
    · rw [heq]
      exact hex
    · simp only [Element.append,singleton_append,forall_mem_cons]
      refine ⟨complete_lines fun l hl => ?_,?_,forall_mem_nil _⟩
      · obtain ⟨s,-,hst⟩ := forall₂_mem_right hes' hl
        exact complete_settled hst (hln l hl)
      · exact throughout_leaf (fun _ ha => absurd ha not_mem_nil) rfl

def IsDrafted (path : String) : Passage → Element → Prop
  | .code n cs, e => IsLine n cs e ∧ Complete e
  | .comment r, e => IsDraft path r e

lemma isDrafted_extract {p : Passage} (h : IsGathered p e) (hs : Stamped path e ∨ StampedComment path e) :
    ∃ e', (do extract "extract" "extract" (← settleComment "lines" e)) = Except.ok e' ∧
      IsDrafted path p e' := by
  cases p with
  | code n cs =>
    obtain ⟨e',hex,he'⟩ := settle_extract_ok h
    obtain ⟨settled,hst,hl⟩ := bind_ok hex
    obtain rfl := ((settleComment_kept hst).trans (extract_kept hl)).leaf (IsLine.children h)
    exact ⟨e',hex,h,(throughout_iff.mp (complete_gathered h hs)).1⟩
  | comment r =>
    refine isDraft_extract h (hs.resolve_left fun hs => ?_)
    have ht := hs.tag.symm.trans (IsComment.tag h)
    simp at ht

lemma drafts_of_source {text : String} {ps : List Passage} (h : IsSource text ps) (path : String) :
    ∃ marked es, readLines 4 path (Files.Content.text text).lines = .ok marked ∧
      (∀ e ∈ gatherComments {} marked, Throughout Complete e) ∧
      (gatherComments {} marked).mapM (fun e => do
        extract "extract" "extract" (← settleComment "lines" e)) = .ok es ∧
      Forall₂ (IsDrafted path) ps es := by
  obtain ⟨marked,hm,hg⟩ := gathered_source h path
  have hs : ∀ e ∈ gatherComments {} marked, Stamped path e ∨ StampedComment path e :=
    stamped_gatherFrom (by simp) (stamped_readLines hm)
  have hb : Forall₂ (fun p e => IsGathered p e ∧ (Stamped path e ∨ StampedComment path e)) ps
      (gatherComments {} marked) :=
    (forall₂_imp (S := fun e p => IsGathered p e ∧ (Stamped path e ∨ StampedComment path e))
      hg.flip fun e he p hp => ⟨hp,hs e he⟩).flip
  obtain ⟨es,hes,hd⟩ := forall₂_mapM_ok hb fun p _ e he => isDrafted_extract he.1 he.2
  refine ⟨marked,es,hm,fun e he => ?_,hes,hd⟩
  obtain ⟨p,-,hp⟩ := forall₂_mem_right hg he
  exact complete_gathered hp (hs e he)

end Docweave.Tree
