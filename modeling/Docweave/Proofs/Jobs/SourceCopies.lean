import Docweave.Proofs.Jobs.DryReports
import Docweave.Proofs.Jobs.Injection

namespace Docweave

open List
open String (ofList join join_cons toList_append toList_ofList append_empty)

namespace Comment

open Text

def Copied (removed : Bool) : Passage → String → Prop
  | .code _ cs, w => w = ofList cs
  | .comment r, w =>
    if removed then w = ""
    else ∃ indent body : List Char, (∀ c ∈ indent, isBlank c = true) ∧
      w.toList = indent ++ '/' :: '*' :: '*' :: body ∧ (r.finish.isSome = true → ['*','/'] <:+ body)

def Copies (removed : Bool) (ps : List Passage) (text : String) : Prop :=
  ∃ ws, Forall₂ (Copied removed) ps ws ∧ text = join ws

section

variable {removed : Bool} {p : Passage} {ps : List Passage} {text w : String}

lemma copies_nil : Copies removed [] "" := ⟨[],.nil,rfl⟩

lemma Copies.cons (hp : Copied removed p w) (h : Copies removed ps text) :
    Copies removed (p :: ps) (w ++ text) := by
  obtain ⟨ws,hws,rfl⟩ := h
  exact ⟨w :: ws,.cons hp hws,join_cons.symm⟩

lemma copied_comment (r : Remark) {ind : List Char} (inside : List Char) (hb : ∀ c ∈ ind, isBlank c)
    (hw : w.toList = ind ++ '/' :: '*' :: '*' :: (inside ++ ['*','/'])) : Copied false (.comment r) w :=
  ⟨ind,inside ++ ['*','/'],hb,hw,fun _ => suffix_append _ _⟩

lemma copied_carrying {r : Remark} (h : r.Shaped) (label : List Char) :
    Copied false (.comment r) (ofList (r.carrying label)) := by
  refine copied_comment r (r.mark.margin ++ label ++ lineEnd r.mark.after ++ r.lastIndent) h.blank ?_
  simp [Remark.carrying]

lemma Copies.eq_of_code (h : Copies removed ps text) (hps : extracts ps = []) :
    text.toList = (ps.flatMap Passage.strips).flatMap Strip.chars := by
  obtain ⟨ws,hws,rfl⟩ := h
  induction hws with
  | nil => rfl
  | @cons p w ps ws hp _ ih =>
    cases p with
    | comment r => cases hps
    | code n cs =>
      obtain rfl : w = ofList cs := hp
      rw [join_cons,toList_append,ih hps,toList_ofList]
      rfl

end

section

variable {cs cs' rest : List Char}

lemma AsRead.dropBlanks (h : AsRead cs cs') : AsRead (cs.dropWhile isBlank) (cs'.dropWhile isBlank) := by
  have hf : isBlank '\n' := by decide
  induction h with
  | nil => exact .nil
  | @keep c cs cs' ht hrt hr ih =>
    cases hc : isBlank c with
    | true => rwa [dropWhile_cons_of_pos hc,dropWhile_cons_of_pos hc]
    | false =>
      rw [dropWhile_cons_of_neg (by simp [hc]),dropWhile_cons_of_neg (by simp [hc])]
      exact .keep ht hrt hr
  | tab k _ ih =>
    have hs : ∀ c ∈ replicate (k + 1) ' ', isBlank c := by
      intro c hc
      rw [eq_of_mem_replicate hc]
      decide
    rwa [dropWhile_cons_of_pos (by decide),dropWhile_append_of_pos hs]
  | cr _ ih => rwa [dropWhile_cons_of_pos (by decide),dropWhile_cons_of_pos hf]
  | crlf _ ih =>
    rwa [dropWhile_cons_of_pos (by decide),dropWhile_cons_of_pos hf,dropWhile_cons_of_pos hf]

def ClosesAlike (cs cs' : List Char) : Prop :=
  ((splitClose cs).map Prod.snd = none ∧ (splitClose cs').map Prod.snd = none) ∨
    ∃ after after', (splitClose cs).map Prod.snd = some after ∧
      (splitClose cs').map Prod.snd = some after' ∧ AsRead after after'

lemma openRest_eq_none_iff (ind : List Char) : openRest ind rest = none ↔ rest.head? = some '/' := by
  fun_cases openRest ind rest <;> simp_all [head?_eq_some_iff]

lemma splitClose_margin {ind : List Char} {m : OpenMark} (h : openRest ind rest = some m) :
    (splitClose m.after).map Prod.snd = (splitClose rest).map Prod.snd := by
  rw [← (openRest_indent h).2,OpenMark.margin]
  split
  · rw [singleton_append,splitClose_skip (by simp)]
  · rfl

lemma AsRead.uncons {c : Char} (h : AsRead cs (c :: cs')) (hs : c ≠ ' ') (hf : c ≠ '\n') :
    ∃ ds, cs = c :: ds ∧ AsRead ds cs' := by
  generalize hds : c :: cs' = ds at h
  cases h with
  | nil => cases hds
  | keep _ _ hr =>
    cases hds
    exact ⟨_,rfl,hr⟩
  | tab k hr => exact absurd (cons.inj hds).1 hs
  | cr hr => exact absurd (cons.inj hds).1 hf
  | crlf hr => exact absurd (cons.inj hds).1 hf

lemma asRead_mark (h : AsRead cs ('/' :: '*' :: '*' :: rest)) :
    ∃ ds, cs = '/' :: '*' :: '*' :: ds ∧ AsRead ds rest := by
  obtain ⟨cs1,rfl,h1⟩ := h.uncons (by decide) (by decide)
  obtain ⟨cs2,rfl,h2⟩ := h1.uncons (by decide) (by decide)
  obtain ⟨cs3,rfl,h3⟩ := h2.uncons (by decide) (by decide)
  exact ⟨cs3,rfl,h3⟩

lemma openMark?_of_mark (h : cs.dropWhile isBlank = '/' :: '*' :: '*' :: rest) :
    openMark? cs = openRest (cs.takeWhile isBlank) rest := by
  rw [openMark?,h]
  rfl

lemma openMark?_of_no_mark (h : ¬ ∃ rest, cs.dropWhile isBlank =
    '/' :: '*' :: '*' :: rest) : openMark? cs = none := by
  rw [openMark?]
  split
  · rename_i rest hr
    exact absurd ⟨rest,hr⟩ h
  · rfl

lemma openMark?_asRead (h : AsRead cs cs') : (openMark? cs = none ∧ openMark? cs' = none) ∨
    ∃ m m', openMark? cs = some m ∧ openMark? cs' = some m' ∧ ClosesAlike m.after m'.after := by
  have hd := h.dropBlanks
  by_cases hm : ∃ rest, cs'.dropWhile isBlank = '/' :: '*' :: '*' :: rest
  · obtain ⟨rest',hr'⟩ := hm
    obtain ⟨rest,hr,hrd⟩ := asRead_mark (hr' ▸ hd)
    rw [openMark?_of_mark hr,openMark?_of_mark hr']
    cases ho : openRest (cs.takeWhile isBlank) rest with
    | none =>
      have hs := hrd.head_slash.mpr ((openRest_eq_none_iff _).mp ho)
      exact .inl ⟨rfl,(openRest_eq_none_iff _).mpr hs⟩
    | some m =>
      cases ho' : openRest (cs'.takeWhile isBlank) rest' with
      | none =>
        have hs := hrd.head_slash.mp ((openRest_eq_none_iff _).mp ho')
        rw [(openRest_eq_none_iff _).mpr hs] at ho
        cases ho
      | some m' =>
        refine .inr ⟨m,m',rfl,rfl,?_⟩
        rw [ClosesAlike,splitClose_margin ho,splitClose_margin ho']
        exact hrd.splitClose_after
  refine .inl ⟨openMark?_of_no_mark ?_,openMark?_of_no_mark hm⟩
  rintro ⟨rest,hr⟩
  rw [hr] at hd
  obtain ⟨rest',hr'⟩ : ∃ rest', cs'.dropWhile isBlank = '/' :: '*' :: '*' :: rest' := by
    generalize cs'.dropWhile isBlank = ds' at hd
    cases hd with
    | keep _ _ h1 =>
      cases h1 with
      | keep _ _ h2 =>
        cases h2 with
        | keep _ _ _ => exact ⟨_,rfl⟩
  exact hm ⟨rest',hr'⟩

structure CutAlike (c c' : Cut) : Prop where
  inComment : c'.inComment = c.inComment
  gaps : ∀ {ss ss' : List Strip}, Forall₂ AsRead (gaps ss) (gaps ss') →
    Forall₂ AsRead (Comment.gaps (c.strips ++ ss)) (Comment.gaps (c'.strips ++ ss'))

lemma forall₂_prepend {gs gs' : List (List Char)} (h : AsRead cs cs') (hgs : Forall₂ AsRead gs gs') :
    Forall₂ AsRead (prepend cs gs) (prepend cs' gs') := by
  cases hgs with
  | nil => exact .cons h .nil
  | cons hg hr => exact .cons (h.append hg) hr

lemma gaps_inside (n : Nat) (cs : List Char) (ss : List Strip) :
    gaps (Head.inside.strips n cs ++ ss) = gaps ss := by
  cases cs <;> rfl

lemma cutAlike_opened (n : Nat) {m m' : OpenMark}
    (h : CutAlike (cutInside n .inside cs) (cutInside n .inside cs')) :
  CutAlike (cutInside n (.opened m) cs) (cutInside n (.opened m') cs') := by
  refine ⟨?_,fun hss => ?_⟩
  · rw [inComment_any_head,h.inComment,inComment_any_head n (.opened m)]
  · rw [gaps_opened,gaps_opened]
    exact .cons .nil (h.gaps hss)

lemma cutAlike (n : Nat) : (∀ cs cs', AsRead cs cs' → CutAlike (cutOutside n cs) (cutOutside n cs')) ∧
    ∀ (_ : Head) (cs cs' : List Char), ClosesAlike cs cs' →
      CutAlike (cutInside n .inside cs) (cutInside n .inside cs') := by
  refine cut_induction ?_ ?_ ?_ ?_
  · intro cs hc cs' h
    rcases openMark?_asRead h with ⟨-,hc'⟩ | ⟨m,m',hm,-⟩
    · rw [cutOutside_code n hc,cutOutside_code n hc']
      refine ⟨rfl,fun hss => ?_⟩
      by_cases hnl : cs = []
      · rw [if_pos hnl,if_pos (h.eq_nil_iff.mpr hnl)]
        exact hss
      · rw [if_neg hnl,if_neg fun hnl' => hnl (h.eq_nil_iff.mp hnl')]
        exact forall₂_prepend h hss
    · rw [hc] at hm
      cases hm
  · intro cs m hm ih cs' h
    rcases openMark?_asRead h with ⟨hn,-⟩ | ⟨m1,m',hm1,hm',hcl⟩
    · rw [hm] at hn
      cases hn
    · cases hm.symm.trans hm1
      rw [cutOutside_open n hm,cutOutside_open n hm']
      exact cutAlike_opened n (ih _ hcl)
  · intro _ cs hb cs' h
    have hn := closeMark?_eq_none hb
    rcases h with ⟨-,hn'⟩ | ⟨after,after',ha,-⟩
    · have hb' : closeMark? cs' = none := by
        rw [closeMark?,Option.map_eq_none_iff.mp hn']
        rfl
      rw [cutInside_body n _ hb,cutInside_body n _ hb']
      refine ⟨rfl,fun hss => ?_⟩
      rw [gaps_inside,gaps_inside]
      exact hss
    · rw [hn] at ha
      cases ha
  intro _ cs k hk ih cs' h
  obtain ⟨p,hp,ha⟩ : ∃ p, splitClose cs = some p ∧ p.2 = k.after := by
    obtain ⟨p,hp,rfl⟩ := Option.map_eq_some_iff.mp hk
    refine ⟨p,hp,?_⟩
    dsimp only
    split <;> rfl
  rcases h with ⟨hn,-⟩ | ⟨after,after',hs,hs',hr⟩
  · rw [hp] at hn
    cases hn
  obtain ⟨p',hp',rfl⟩ := Option.map_eq_some_iff.mp hs'
  rw [hp,Option.map_some,Option.some.injEq,ha] at hs
  obtain rfl := hs
  have hal := ih _ hr
  rw [← ha] at hal
  have hf : splitClose cs = some (p.1,p.2) := hp
  have hf' : splitClose cs' = some (p'.1,p'.2) := hp'
  have hg (ss : List Strip) := gaps_closed (n := n) hf ss
  have hg' (ss : List Strip) := gaps_closed (n := n) hf' ss
  refine ⟨?_,fun {ss ss'} hss => ?_⟩
  · rw [(hg' []).2,(hg []).2,hal.inComment]
  · rw [(hg ss).1,(hg' ss').1]
    exact hal.gaps hss

lemma gaps_cutFrom_asRead {ls ls' : List (List Char)} (h : Forall₂ AsRead ls ls') (n : Nat)
    (inComment : Bool) : Forall₂ AsRead (gaps (cutFrom n inComment ls)) (gaps (cutFrom n inComment ls')) := by
  induction h generalizing n inComment with
  | nil => exact .cons .nil .nil
  | @cons cs cs' ls ls' hr _ ih =>
    have ha : CutAlike (cutLine n inComment cs) (cutLine n inComment cs') := by
      cases inComment with
      | false => exact (cutAlike n).1 cs cs' hr
      | true => exact (cutAlike n).2 .inside cs cs' hr.splitClose_after
    rw [cutFrom,cutFrom,ha.inComment]
    exact ha.gaps (ih _ _)

end

def outside (text : String) : List Char := (gapsFrom 1 false text.toList).flatten

def codeOf (ss : List Strip) : List Char := (gaps ss).flatten

lemma flatten_prepend (cs : List Char) (gs : List (List Char)) : (prepend cs gs).flatten = cs ++ gs.flatten := by
  cases gs with
  | nil => rw [prepend,flatten_singleton,flatten_nil,append_nil]
  | cons g gs => rw [prepend,flatten_cons,flatten_cons,append_assoc]

lemma mem_codeOf {c : Char} {ss : List Strip} (h : c ∈ codeOf ss) : c ∈ ss.flatMap Strip.chars := by
  induction ss with
  | nil => cases h
  | cons s ss ih =>
    rw [flatMap_cons,mem_append]
    cases s with
    | code n cs =>
      rw [codeOf,gaps,flatten_prepend,mem_append] at h
      exact h.imp_right ih
    | start | middle | finish => exact .inr (ih h)

lemma forall₂_asRead_flatten {gs gs' : List (List Char)} (h : Forall₂ AsRead gs gs') :
    AsRead gs.flatten gs'.flatten := by
  induction h with
  | nil => exact .nil
  | cons hg _ ih => exact hg.append ih

section

variable {text new : String} {ps : List Passage} {removed : Bool}

lemma readLines_expanded (hr : '\r' ∉ text.toList) :
    (readLines 4 text).map String.toList = (fileLinesFrom [] text.toList).map (expandTabsFrom 4 0) := by
  rw [readLines,fileLines,normalizeNewlines_of_no_return hr]
  simp [expandTabs]

lemma IsSource.asRead_code (h : IsSource text ps) (hr : '\r' ∉ text.toList) :
    AsRead (outside text) (codeOf (ps.flatMap Passage.strips)) := by
  have hln : Forall₂ AsRead (fileLinesFrom [] text.toList)
      ((fileLinesFrom [] text.toList).map (expandTabsFrom 4 0)) := by
    rw [forall₂_map_right_iff,forall₂_same]
    exact fun l hl => .expanded (by decide) 0 (withinLine_fileLines hr l hl).no_return
  rw [h.strips,readLines_expanded hr]
  exact forall₂_asRead_flatten (gaps_cutFrom_asRead hln 1 false)

lemma IsSource.code_eq_iff (h : IsSource text ps) (hrt : '\r' ∉ text.toList) :
    codeOf (ps.flatMap Passage.strips) = outside text ↔ '\t' ∉ outside text := by
  have hr := h.asRead_code hrt
  constructor
  · intro hs
    rw [← hs]
    exact hr.no_escapes.2
  · refine fun ht => hr.eq ht fun hm => hrt ?_
    have hc := mem_codeOf hm
    rwa [flatMap_chars_cutFrom,flatten_fileLines] at hc

lemma Copies.eq_iff (hn : Copies removed ps new) (h : IsSource text ps) (hrt : '\r' ∉ text.toList)
    (hps : extracts ps = []) : new = text ↔ '\t' ∉ text.toList := by
  have hr := h.asRead.1
  rw [← hn.eq_of_code hps] at hr
  rw [← String.toList_inj]
  constructor
  · intro hs
    rw [← hs]
    exact hr.no_escapes.2
  · exact fun ht => hr.eq ht hrt

end

end Comment

namespace Comment

open Block

variable {r : Remark} {b : Block}

lemma blank_spaces (n : Nat) : ∀ c ∈ replicate n ' ', Text.isBlank c := by
  intro c hc
  rw [eq_of_mem_replicate hc]
  decide

lemma copied_block_replacement (hb : IsBlock r b) {path name w : String}
    (hok : b.replacement path name = .ok w) : Copied false (.comment r) w := by
  have hs : b.lines.head? = some (lineOf (.start r.number r.mark)) := by
    rw [hb.lines]
    rfl
  cases hf : b.lines.getLast? with
  | none =>
    rw [Block.replacement,hs,hf] at hok
    cases hok
  | some finish =>
    rw [Block.replacement,hs,hf] at hok
    obtain ⟨ind,hi,hr⟩ := Docweave.bind_ok hok
    obtain ⟨symbol,hsy,hr1⟩ := bind_ok hr
    obtain ⟨margin,-,hr2⟩ := bind_ok hr1
    obtain ⟨cl,hcl,hr3⟩ := bind_ok hr2
    obtain rfl : ofList (replicate r.mark.indent.length ' ') = ind := Except.ok.inj hi
    obtain rfl : "/**" = symbol := Except.ok.inj hsy
    obtain rfl := Except.ok.inj hr3
    refine ⟨replicate r.mark.indent.length ' ',(margin ++ ("[doc://" ++ path ++ "#" ++ name ++ "]"
      ++ (lineOf (.start r.number r.mark)).ending.getD "" ++ finish.indentText.getD "" ++ cl
      ++ finish.ending.getD "")).toList,blank_spaces _,?_,fun hc => ?_⟩
    · simp only [toList_append,toList_ofList,append_assoc]
      rfl
    · obtain ⟨p,hp⟩ := Option.isSome_iff_exists.mp hc
      have hst : r.strips = (.start r.number r.mark :: r.middles.map fun q => .middle q.1 q.2) ++
          [.finish p.1 p.2] := by
        simp [Remark.strips,Remark.later,hp]
      have hl : b.lines.getLast? = some (lineOf (.finish p.1 p.2)) := by
        rw [hb.lines,getLast?_map,hst,getLast?_concat]
        rfl
      cases hf.symm.trans hl
      obtain rfl : "*/" = cl := Except.ok.inj hcl
      have he : (lineOf (.finish p.1 p.2)).ending.getD "" = "" := rfl
      rw [he,append_empty,← String.append_assoc,toList_append]
      exact suffix_append _ _

lemma copied_opened (r : Remark) (ind : Int) (middle : List String) (leader : String) :
    Copied false (.comment r) (join (b.opened ind ++ middle ++ ["\n",leader,"*/"])) := by
  refine copied_comment r (((if b.dialect.isSwift then "\n" else " ") ++ join middle ++ "\n"
    ++ leader).toList) (blank_spaces ind.toNat) ?_
  have hs : Text.spacesInt ind = ofList (replicate ind.toNat ' ') := rfl
  simp only [Block.opened,hs,String.join_append,join_cons,String.join_nil,
    toList_append,toList_ofList,append_assoc,cons_append]
  simp

lemma copied_outputs (r : Remark) {wd : Option Int} {ts : List String}
    (h : (b.outputs wd).texts = .ok ts) : Copied false (.comment r) (join ts) := by
  cases hin : b.indentStart with
  | none =>
    rw [Block.outputs,hin] at h
    cases h
  | some ind =>
    cases hi : b.items with
    | none =>
      rw [Block.outputs,hin,hi] at h
      cases h
      have hw := copied_opened (b := b) r ind [] (Text.spacesInt (ind + 1))
      rwa [append_nil] at hw
    | some items =>
      rw [Block.outputs,hin,hi] at h
      dsimp only at h
      cases hf : (b.respell wd.isSome items).fault with
      | some fault =>
        rw [hf] at h
        cases h
      | none =>
        rw [hf] at h
        cases ho : Node.outputAll (wd.map (· - (ind + if b.dialect.isSwift then 2 else 3)))
            (.nodes (b.respell wd.isSome items).items) with
        | error fault =>
          rw [ho] at h
          cases h
        | ok outputs =>
          rw [ho] at h
          cases h
          exact copied_opened r ind _ _

end Comment

namespace Job

open Comment Docweave.Tree Files Store

section

variable {ps : List Passage} {items : List Piece} {text : String} {j j' : Job}
  {target ref : Option String}
variable {src : String} {sheet : Sheet}

lemma copied_replaces {adHoc : Bool} {r : Remark} {path w : String} (hr : r.Shaped)
    (h : Replaces adHoc r path w) :
  Copied false (.comment r) w := by
  cases adHoc with
  | true =>
    obtain ⟨b,hb,hok⟩ := h
    exact copied_block_replacement hb hok
  | false =>
    obtain ⟨-,rfl⟩ := h
    exact copied_carrying hr _

lemma Extracts.copies {adHoc dry : Bool} {ws : List String} (h : Extracts adHoc dry target ref ps j ws j')
    (hps : ∀ s ∈ ps.flatMap Passage.strips, s.Shaped) : Forall₂ (Copied dry) ps ws := by
  induction h with
  | nil => exact .nil
  | code _ ih =>
    rw [flatMap_cons,forall_mem_append] at hps
    exact .cons rfl (ih hps.2)
  | comment _ _ hw _ ih =>
    have hr := shaped_remark hps mem_cons_self
    rw [flatMap_cons,forall_mem_append] at hps
    refine .cons ?_ (ih hps.2)
    cases dry with
    | true => exact hw
    | false =>
      obtain ⟨p,-,hrp⟩ := hw
      exact copied_replaces hr hrp

lemma injectPiece_copied {p : Passage} {piece : Piece} {s s' : Sheet} (hp : IsPiece p piece)
    (h : (injectPiece src s piece).perform j = (.ok s',j')) : ∃ w, s'.text = s.text ++ w ∧ Copied false p w := by
  cases p with
  | code n cs =>
    obtain rfl := isPiece_code hp
    cases h
    exact ⟨ofList cs,congrArg (s.text ++ ·) (outputs_of n _),rfl⟩
  | comment r =>
    obtain ⟨b,rfl,-⟩ := isPiece_comment hp
    obtain ⟨b',j₁,-,hr⟩ := Act.bind_ok h
    obtain ⟨job,j₂,-,hr1⟩ := Act.bind_ok hr
    obtain ⟨_,j3,-,hr2⟩ := Act.bind_ok hr1
    obtain ⟨ts,ht,hl⟩ := Act.ofExcept_bind_ok hr2
    cases hl
    exact ⟨join ts,rfl,copied_outputs r ht⟩

lemma injectPieces_copies {s s' : Sheet} (hi : Forall₂ IsPiece ps items)
    (h : (items.foldlM (injectPiece src) s).perform j = (.ok s',j')) :
    ∃ text, s'.text = s.text ++ text ∧ Copies false ps text := by
  induction hi generalizing s j with
  | nil =>
    cases h
    exact ⟨"",append_empty.symm,copies_nil⟩
  | cons hp _ ih =>
    obtain ⟨s1,j₁,hpc,hr⟩ := Act.bind_ok h
    obtain ⟨w,hw,hc⟩ := injectPiece_copied hp hpc
    obtain ⟨text,ht,hcp⟩ := ih hr
    exact ⟨w ++ text,by rw [ht,hw,String.append_assoc],hcp.cons hc⟩

lemma injectAdHoc_copies (hs : IsSource text ps) (hln : j.store.lines src = (Content.text text).lines)
    (h : (injectAdHoc src).perform j = (.ok sheet,j')) : Copies false ps sheet.text := by
  obtain ⟨stream,j₁,hp,hr⟩ := Act.bind_ok h
  obtain ⟨sheet',j₂,hfl,hl⟩ := Act.bind_ok hr
  cases hf : stream.fault with
  | some fault =>
    rw [hf] at hl
    cases hl
  | none =>
    rw [hf] at hl
    cases hl
    obtain ⟨rfl,hi⟩ := pieces_ok hs hln hp hf
    obtain ⟨text',ht,hc⟩ := injectPieces_copies hi hfl
    rw [ht]
    exact (String.empty_append (s := text')).symm ▸ hc

lemma copied_written {p : Passage} {e : Element} {w : Element × String} (hp : IsGathered p e)
    (hw : IsWritten e w) : Copied false p w.2 := by
  have hwr := writes_of_isWritten hp hw
  cases p with
  | code n cs =>
    have hs : w.2.toList = cs := hwr
    rw [Copied,← hs,String.ofList_toList]
  | comment r =>
    obtain ⟨k,body,k',hr,-,-⟩ := hwr
    refine copied_comment r (body ++ replicate k' ' ') (blank_spaces k) ?_
    rw [hr]

lemma injectStaged_copies (hs : IsSource text ps)
    (hl : j.store.lines (Path.Simple.of src).text = (Content.text text).lines)
    (h : (injectStaged src).perform j = (.ok sheet,j')) : Copies false ps sheet.text := by
  obtain ⟨⟨written,counts⟩,j₁,hr,rfl,rfl⟩ := Act.map_ok h
  obtain ⟨marked,hm,hkp⟩ := renderStaged_kept hr
  obtain ⟨marked1,hm1,hg⟩ := gathered_source hs (Path.Simple.of src).text
  rw [hl] at hm
  cases hm1.symm.trans hm
  refine ⟨written.map Prod.snd,?_,rfl⟩
  rw [forall₂_map_right_iff]
  exact forall₂_comp (fun p e w hp ⟨e',hk,hw⟩ => copied_written hp (isWritten_gathered hp hk hw)) hg hkp

lemma writeSource_copies {r : Report} (hs : Seen j.store r.path text) (hsr : IsSource text ps)
    (h : (writeSource r ref).perform j = (.ok sheet,j')) :
    Copies (r.extract && j.settings.dryRun) ps sheet.text := by
  cases he : r.extract with
  | true =>
    obtain ⟨ws,k,-,hj,hws⟩ := writeSource_extracts he hs hsr h
    exact ⟨ws,hws.copies hsr.shaped,hj⟩
  | false =>
    rw [writeSource,Act.perform_get_bind] at h
    dsimp only at h
    rw [he] at h
    generalize hsh : ({ j with shelf := some (j.shelf.getD {}) } : Job) = j₁
    have hst : (modify fun j : Job => { j with shelf := some (j.shelf.getD {}) } : Act Job Unit).perform j =
        (.ok (),j₁) := congrArg (Prod.mk _) hsh
    have hs1 : Seen j₁.store r.path text := by
      rw [← hsh]
      exact hs
    cases hm : j.settings.adHoc with
    | true =>
      rw [hm] at h
      rw [Act.perform_bind hst] at h
      exact injectAdHoc_copies hsr hs1.lines h
    | false =>
      rw [hm] at h
      rw [Act.perform_bind hst] at h
      exact injectStaged_copies hsr hs1.simple h

end

section

variable {r r' started : Report} {ref : Option String} {sheet : Sheet} {old : List String} {text : String}
  {place : Place} {j j' j₁ j₂ : Job}

lemma sheet_copies (hc : Holds j.store r.path place (.text text))
    (hs : Starts { r with lineTypes := some [] } j (.ok (started,ref)) j₁)
    (hsh : (writeSource started ref).perform (j₁.scratched started.path) = (.ok sheet,j₂))
      {ps : List Passage} (hsr : IsSource text ps) :
    Copies (r.extract && j.settings.dryRun) ps sheet.text ∧ Holds j₂.store started.path place (.text text) ∧
      started.path = r.path ∧ j₂.settings = j.settings := by
  obtain ⟨hp,he⟩ := hs.same_source
  have hp1 : started.path = r.path := hp
  have hc1 : Holds (j₁.scratched started.path).store started.path place (.text text) := by
    rw [hp1]
    exact hs.holds hc
  have ht := writeSource_touches hsh
  have hcp := writeSource_copies (seen_of_holds hc1 rfl) hsr hsh
  have hst : (j₁.scratched started.path).settings = j.settings := hs.settings
  rw [he,hst] at hcp
  exact ⟨hcp,ht.holds hc1 (hs.not_targetAt hc.content),hp1,ht.settings.trans hst⟩

theorem source_copied_as_read (hread : j.store.read r.path = .ok (.text text))
    (hreturn : '\r' ∉ text.toList) (h : (overwriteOne r).perform j = (.ok r', j')) :
    ∃ ps new, IsSource text ps ∧ Copies (r.extract && j.settings.dryRun) ps new ∧
      r'.shows r.path (Content.text text).lines.items new ∧
      (j.settings.dryRun = false → j'.store.read r.path = .ok (.text new)) ∧
      (codeOf (ps.flatMap Passage.strips) = outside text ↔ '\t' ∉ outside text) ∧
      (extracts ps = [] → (new = text ↔ '\t' ∉ text.toList)) := by
  obtain ⟨place, hc⟩ := read_iff_holds.mp hread
  obtain ⟨ps, -, hsource, -, -⟩ := exists_source "" text
  have hall {new : String} (hcopies : Copies (r.extract && j.settings.dryRun) ps new) :
      (codeOf (ps.flatMap Passage.strips) = outside text ↔ '\t' ∉ outside text) ∧
        (extracts ps = [] → (new = text ↔ '\t' ∉ text.toList)) :=
    ⟨hsource.code_eq_iff hreturn, hcopies.eq_iff hsource hreturn⟩
  cases overwriteOne_overwrites h with
  | @discarded started reference sheet old j₁ j₂ hstart hsheet hold hdry =>
      obtain ⟨hcopies, hc₂, hpath, hsettings⟩ := sheet_copies hc hstart hsheet hsource
      refine ⟨ps, sheet.text, hsource, hcopies, ?_, fun hwet => ?_, hall hcopies⟩
      · rw [Report.shows, ← lines_of_holds hc₂ hold, ← hpath]
        rfl
      · rw [hsettings, hwet] at hdry
        cases hdry
  | @written started reference sheet old store j₁ j₂ hstart hsheet hold hdry hstore =>
      obtain ⟨hcopies, hc₂, hpath, hsettings⟩ := sheet_copies hc hstart hsheet hsource
      refine ⟨ps, sheet.text, hsource, hcopies, ?_, fun _ => ?_, hall hcopies⟩
      · rw [Report.shows, ← lines_of_holds hc₂ hold, ← hpath]
        rfl
      · rw [← hpath]
        exact (hc₂.write hstore).1.read

end

theorem source_copied_as_read_at_two_comments : ∃ r' j' ps new,
    (overwriteOne extractReport).perform (extractJob quietText) = (.ok r', j') ∧
      IsSource quietText ps ∧
      Copies false ps new ∧ j'.store.read "d/a.h" = .ok (.text new) ∧
      codeOf (ps.flatMap Passage.strips) = outside quietText := by
  obtain ⟨r', j', hrun, -⟩ := extract_run quietText_target
  obtain ⟨ps, new, hsource, hcopies, -, hnew, hiff, -⟩ :=
    source_copied_as_read (extractJob_read quietText) (by decide) hrun
  refine ⟨r', j', ps, new, hrun, hsource, hcopies, hnew rfl, hiff.mpr fun htab => ?_⟩
  have hchars := mem_codeOf htab
  rw [flatMap_chars_cutFrom, Text.flatten_fileLines] at hchars
  exact absurd hchars (by decide)

def injectReport : Report := { extractReport with extract := false }

def tabText : String := "int\tx;\n"

theorem source_changed_at_tab :
    ∃ r' j', (overwriteOne injectReport).perform (extractJob tabText) = (.ok r', j') ∧
      sourceComments "d/a.h" (Content.text tabText).lines = .ok [] ∧
      j'.store.read "d/a.h" = .ok (.text "int x;\n") := by
  have hrun : ((overwriteOne injectReport).perform (extractJob tabText)).1.toOption.isSome = true := by
    decide +kernel
  have hcomments : (sourceComments "d/a.h" (Content.text tabText).lines).toOption.map List.length = some 0 := by
    decide +kernel
  have hnew : (((overwriteOne injectReport).perform (extractJob tabText)).2.store.read "d/a.h").toOption =
      some (.text "int x;\n") := by
    decide +kernel
  obtain ⟨r', hr'⟩ := Option.isSome_iff_exists.mp hrun
  obtain ⟨xs, hxs, hlength⟩ := Option.map_eq_some_iff.mp hcomments
  obtain rfl := eq_nil_of_length_eq_zero hlength
  exact ⟨r', _, perform_of_toOption hr', ok_of_toOption hxs, ok_of_toOption hnew⟩

example : (sourceElements "a.h" (Content.text "int\tx;\n").lines).toOption.map codeGaps = some ["int x;\n"] := by
  decide +kernel

end Job

end Docweave
