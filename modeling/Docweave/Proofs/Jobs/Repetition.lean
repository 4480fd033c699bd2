import Docweave.Proofs.Jobs.Injection

namespace Docweave.Comment

open Text List

section

variable {pre l : List Char} {m : OpenMark}

lemma splitClose_of_infix {a b : List Char} (h : splitClose b = none) (hab : a <:+: b) : splitClose a = none :=
  splitClose_eq_none_iff.mpr fun hc => splitClose_eq_none_iff.mp h (hc.trans hab)

lemma cutFrom_body (hl : '\n' ∉ l) (hs : splitClose (l ++ ['\n']) = none) (n : Nat) (rest : List Char) :
  cutFrom n true (fileLinesFrom [] (l ++ '\n' :: rest)) =
    .middle n (continueMark (l ++ ['\n'])) :: cutFrom (n + 1) true (fileLinesFrom [] rest) := by
  have hk : closeMark? (l ++ ['\n']) = none := by
    rw [closeMark?,hs]
    rfl
  rw [fileLinesFrom_line hl,cutFrom,cutLine,reverse_nil,nil_append,cutInside_body n _ hk,
    Head.strips_inside n (by simp)]
  rfl

lemma cutText_opened (hl : '\n' ∉ l) (hm : openMark? (l ++ ['\n']) = some m) (hs : splitClose m.after = none)
  (n : Nat) (rest : List Char) :
  cutText n (l ++ '\n' :: rest) = .start n m :: cutFrom (n + 1) true (fileLinesFrom [] rest) := by
  have hk : closeMark? m.after = none := by
    rw [closeMark?,hs]
    rfl
  rw [cutText,fileLinesFrom_line hl,cutFrom,cutLine,reverse_nil,nil_append,cutOutside_open n hm,
    cutInside_body n _ hk]
  rfl

lemma cutFrom_closing_line (hl : '\n' ∉ l) (hs : splitClose l = none) (n : Nat) (rest : List Char) :
  ∃ (middles : List (Nat × ContinueMark)) (ind : Option (List Char)),
    cutFrom n true (fileLinesFrom [] (l ++ '*' :: '/' :: rest)) =
      middles.map (fun p => .middle p.1 p.2) ++ .finish n ind :: cutText n rest := by
  have hf : '\n' ∉ l ++ ['*','/'] := by simp [hl]
  have hne : l ++ ['*','/'] ≠ [] := by simp
  by_cases ha : l.all isIndentChar = true
  · have hln (after : List Char) : cutLine n true (l ++ ['*','/'] ++ after) =
        (cutOutside n after).precede [.finish n (some l)] := by
      have hk := closeMark?_found hs after
      rw [if_pos ha] at hk
      rw [append_assoc,cons_append,cons_append,nil_append,cutLine,cutInside_close n .inside hk]
      rfl
    have hc := cutFrom_front hf hne hln rest
    rw [append_assoc] at hc
    exact ⟨[],some l,hc⟩
  have hne' : l ≠ [] := by
    rintro rfl
    exact ha rfl
  have hln (after : List Char) : cutLine n true (l ++ ['*','/'] ++ after) =
      (cutOutside n after).precede [.middle n (continueMark l),.finish n none] := by
    have hk := closeMark?_found hs after
    rw [if_neg ha] at hk
    rw [append_assoc,cons_append,cons_append,nil_append,cutLine,
      cutInside_close n .inside hk,Head.strips_inside n hne']
    rfl
  have hc := cutFrom_front hf hne hln rest
  rw [append_assoc] at hc
  exact ⟨[(n,continueMark l)],none,hc⟩

lemma cutFrom_closing (hs : splitClose pre = none) (n : Nat) (rest : List Char) :
  ∃ (middles : List (Nat × ContinueMark)) (k : Nat) (indent : Option (List Char)),
    cutFrom n true (fileLinesFrom [] (pre ++ '*' :: '/' :: rest)) =
      middles.map (fun p => .middle p.1 p.2) ++ .finish k indent :: cutText k rest := by
  induction pre using byLines generalizing n with
  | line l later hl ih =>
    have hln : splitClose (l ++ ['\n']) = none :=
      splitClose_of_infix hs ⟨[],later,by simp⟩
    have hlt : splitClose later = none :=
      splitClose_of_infix hs ⟨l ++ ['\n'],[],by simp⟩
    obtain ⟨middles,k,indent,hc⟩ := ih hlt (n + 1)
    refine ⟨(n,continueMark (l ++ ['\n'])) :: middles,k,indent,?_⟩
    rw [append_assoc,cons_append,cutFrom_body hl hln,hc]
    rfl
  | last pre hm =>
    obtain ⟨middles,indent,hc⟩ := cutFrom_closing_line hm hs n rest
    exact ⟨middles,n,indent,hc⟩

end

lemma Rendered.remark {w : List Char} (h : Rendered w) (he : ¬ ClosesEarly w) (n : Nat)
  (rest : List Char) : ∃ r : Remark, r.finish.isSome ∧ r.chars = w ∧
    ∃ n', cutText n (w ++ rest) = r.strips ++ cutText n' rest := by
  obtain ⟨k,l,tail,rfl,hl,hb,y,k',rfl,-⟩ := h.first_line
  -- A part that does not reach to the end cannot hold a closing mark.
  have hp : ∀ a x b, replicate k ' ' ++ '/' :: '*' :: '*' :: (l ++ '\n' ::
      (y ++ replicate k' ' ' ++ ['*','/'])) = a ++ x ++ b → b ≠ [] → splitClose x = none := by
    intro a x b hw hne
    rw [splitClose_eq_none_iff]
    rintro ⟨u,v,rfl⟩
    exact he ⟨a ++ u,v ++ b,by rw [hw]; simp,by simp [hne]⟩
  obtain ⟨m,l',hm,ha,hl'⟩ := openMark?_rendered k hb
  have ho : splitClose m.after = none := by
    have hsp := openMark?_split hm
    refine hp m.head m.after (y ++ replicate k' ' ' ++ ['*','/']) ?_ (by simp)
    rw [hsp]
    simp
  have hpr : splitClose (y ++ replicate k' ' ') = none :=
    hp (replicate k ' ' ++ '/' :: '*' :: '*' :: (l ++ ['\n'])) _ ['*','/'] (by simp) (by simp)
  have hln : '\n' ∉ replicate k ' ' ++ '/' :: '*' :: '*' :: l := by simp [hl]
  obtain ⟨middles,last,ind,hct⟩ := cutFrom_closing hpr (n + 1) rest
  have hf := cutText_opened hln (by simpa using hm) ho n
    (y ++ replicate k' ' ' ++ '*' :: '/' :: rest)
  let r : Remark := ⟨n,m,middles,some (last,ind)⟩
  have hs : cutText n (replicate k ' ' ++ '/' :: '*' :: '*' :: (l ++ '\n' ::
      (y ++ replicate k' ' ' ++ ['*','/'])) ++ rest) = r.strips ++ cutText last rest := by
    rw [hct] at hf
    simpa [r,Remark.strips,Remark.later] using hf
  refine ⟨r,rfl,?_,last,hs⟩
  have hc := congrArg (List.flatMap Strip.chars) hs
  rw [flatMap_append,flatMap_chars_cutText,flatMap_chars_cutText] at hc
  exact (append_cancel_right hc).symm

lemma later_unique {ms ms' : List (Nat × ContinueMark)} {f : Nat × Option (List Char)}
  {f' : Option (Nat × Option (List Char))} {ss ss' : List Strip}
  (h : ms.map (fun p => Strip.middle p.1 p.2) ++ Strip.finish f.1 f.2 :: ss =
    ms'.map (fun p => Strip.middle p.1 p.2) ++ ((f'.map fun p => Strip.finish p.1 p.2).toList ++ ss'))
  (hc : f'.isSome ∨ ss' = []) : ms = ms' ∧ some f = f' ∧ ss = ss' := by
  induction ms generalizing ms' with
  | nil =>
    cases ms' with
    | nil =>
      cases f' with
      | none => simp [hc.resolve_left (by simp)] at h
      | some g =>
        obtain ⟨hfn,rfl⟩ := cons.inj h
        obtain ⟨hn,hi⟩ := Strip.finish.inj hfn
        exact ⟨rfl,congrArg some (Prod.ext hn hi),rfl⟩
    | cons p ms' => cases (cons.inj h).1
  | cons p ms ih =>
    cases ms' with
    | nil =>
      cases f' with
      | none => simp [hc.resolve_left (by simp)] at h
      | some g => cases (cons.inj h).1
    | cons p' ms' =>
      obtain ⟨hm,hr⟩ := cons.inj h
      obtain ⟨hn,hmr⟩ := Strip.middle.inj hm
      obtain ⟨rfl,hf,hss⟩ := ih hr
      exact ⟨congrArg (· :: ms) (Prod.ext hn hmr),hf,hss⟩

lemma Remark.strips_unique {r r' : Remark} {ss ss' : List Strip} (h : r.strips ++ ss = r'.strips ++ ss')
  (hr : r.finish.isSome) (hr' : r'.finish.isSome ∨ ss' = []) : r = r' ∧ ss = ss' := by
  obtain ⟨number,mark,middles,finish⟩ := r
  obtain ⟨number',mark',middles',finish'⟩ := r'
  obtain ⟨f,rfl⟩ := Option.isSome_iff_exists.mp hr
  obtain ⟨hs,hl⟩ := cons.inj h
  obtain ⟨rfl,rfl⟩ := Strip.start.inj hs
  obtain ⟨rfl,rfl,rfl⟩ := later_unique (by simpa [later] using hl) hr'
  exact ⟨rfl,rfl⟩

def Passage.chars (p : Passage) : List Char := p.strips.flatMap Strip.chars

def Stays : Passage → List Char → Prop
  | .code _ cs, w => w = cs
  | .comment _, w => Rendered w ∧ ¬ ClosesEarly w

lemma chars_of_cutText {ps : List Passage} {ws : List (List Char)}
  (hcd : CodeLines (ps.flatMap Passage.strips)) (hps : Composed ps) (h : Forall₂ Stays ps ws) (n : Nat)
  (hc : ps.flatMap Passage.strips = cutText n ws.flatten) : Forall₂ (fun p w => p.chars = w) ps ws := by
  induction h generalizing n with
  | nil => exact .nil
  | @cons p w ps ws hp hr ih =>
    rw [flatten_cons] at hc
    rw [flatMap_cons] at hcd
    cases p with
    | code k cs =>
      obtain rfl : w = cs := hp
      obtain ⟨ho,hln,hlt⟩ := hcd
      refine .cons (by simp [Passage.chars,Passage.strips,Strip.chars]) ?_
      rcases hln with ⟨l,hl,rfl⟩ | ⟨-,hn⟩
      · rw [append_assoc,singleton_append,cutText_line hl ho] at hc
        exact ih hlt hps.2 (n + 1) (cons.inj hc).2
      · obtain rfl := eq_nil_of_strips hn
        obtain rfl := forall₂_nil_left_iff.mp hr
        exact .nil
    | comment r =>
      obtain ⟨r',hcl,hch,n',hc'⟩ := hp.1.remark hp.2 n ws.flatten
      rw [hc'] at hc
      have hls : r.finish.isSome = true ∨ ps.flatMap Passage.strips = [] :=
        hps.1.imp_right fun hn => by rw [hn]; rfl
      obtain ⟨rfl,hlt⟩ := Remark.strips_unique hc.symm hcl hls
      rw [Passage.strips,(r'.gaps_strips _).2] at hcd
      exact .cons hch (ih hcd hps.2 n' hlt.symm)

end Docweave.Comment

namespace Docweave.Job

open Comment Element Docweave.Tree Files List Docweave.Path

variable {src source text path : String} {job job' : Job} {ps : List Passage} {ws : List String}

lemma plain_join_draws {wd : Option Int} (hsr : IsSource text ps) (hb : Unmarked ps)
  (h : Forall₂ (Draws wd path) ps ws) : Tree.Plain (String.join ws) := by
  intro c hc hs
  rw [String.toList_join,mem_flatMap] at hc
  obtain ⟨w,hw,hcw⟩ := hc
  obtain ⟨p,hp,hd⟩ := forall₂_mem_right h hw
  cases p with
  | code n cs =>
    obtain rfl : w = String.ofList cs := hd
    have hr := hsr.asRead.1
    have hch : c ∈ (ps.flatMap Passage.strips).flatMap Strip.chars := by
      rw [String.toList_ofList] at hcw
      exact mem_flatMap.mpr ⟨_,mem_flatMap.mpr ⟨_,hp,mem_singleton_self _⟩,hcw⟩
    rcases hs with rfl | rfl
    · exact hr.no_escapes.2 hch
    · exact hr.no_escapes.1 hch
  | comment r => exact plain_drawn (hb r hp) hd c hcw hs

lemma writable_again {sheet : Sheet} (hr : job.store.read (Simple.of src).text = .ok (.text text))
  (h : (injectStaged src).perform job = (.ok sheet,job')) :
  ∃ store, job'.store.write (Simple.of src).text sheet.text = .ok store ∧
    store.read (Simple.of src).text = .ok (.text sheet.text) ∧
    job'.settings = job.settings ∧ Writable store (.of src) := by
  obtain ⟨out,hrn,-⟩ := injectStaged_ok h
  obtain ⟨hf,hwr⟩ := renderStaged_placed hrn
  obtain ⟨loc,hh⟩ := Store.read_iff_holds.mp hr
  have ht := hf.store.target hh.target
  obtain ⟨store,hw⟩ : ∃ store, job'.store.write (Simple.of src).text sheet.text = .ok store :=
    ⟨_,Store.write_of_target ht sheet.text⟩
  obtain ⟨loc',ht',hc,hcn⟩ := Store.write_ok hw
  have ha : Follows job' { job' with store } := ⟨rfl,hc.folders⟩
  exact ⟨store,hw,Store.Holds.read ⟨hc.folders.target ht',hcn⟩,hf.settings,hwr.follows ha⟩

lemma stays_of_same {out : List (Element × String)} {counts : List (String × Nat)}
  (hr : job.store.read (Simple.of src).text = .ok (.text text)) (hsr : IsSource text ps)
  (ht : '\t' ∉ text.toList) (hrt : '\r' ∉ text.toList)
  (h : (renderStaged src).perform job = (.ok (out,counts),job'))
  (hs : String.join (out.map Prod.snd) = text) : Forall₂ Stays ps (out.map fun w => w.2.toList) := by
  obtain ⟨marked,hm,hkp⟩ := renderStaged_kept h
  rw [Store.lines,hr] at hm
  obtain ⟨marked',hm',hg⟩ := gathered_source hsr (Simple.of src).text
  obtain rfl : marked' = marked := Except.ok.inj (hm'.symm.trans hm)
  have hwt : Forall₂ IsWritten (gatherComments {} marked') out :=
    forall₂_imp hkp fun e he w hkw => by
      obtain ⟨e',hk,hw⟩ := hkw
      obtain ⟨p,-,hp⟩ := forall₂_mem_right hg he
      exact isWritten_gathered hp hk hw
  obtain ⟨marked2,hm2,hi⟩ := codeGaps_written_iff ht hrt _ hm hwt
  rw [hs] at hm2
  obtain rfl : marked2 = marked' := Except.ok.inj (hm2.symm.trans hm)
  have her := hi.mp rfl
  have hb : Forall₂ (fun e w => IsWritten e w ∧ (w.1.tag = "comment" → ¬ ClosesEarly w.2.toList))
      (gatherComments {} marked2) out :=
    (forall₂_imp hwt.flip fun w hw e he => And.intro he (her w hw)).flip
  rw [forall₂_map_right_iff]
  refine forall₂_comp (fun p e w hp hw => ?_) hg hb
  have hwr := writes_of_isWritten hp hw.1
  cases p with
  | code n cs => exact hwr
  | comment r => exact ⟨hwr,hw.2 (hw.1.1.trans (IsComment.tag hp))⟩

lemma draws_texts_iff {wd : Option Int} :
  Forall₂ (Draws wd path) ps (ps.map fun p => String.ofList p.chars) ↔ ∀ r, .comment r ∈ ps →
      drawn wd path r.mark.indent.length (String.ofList r.words) = .ok (String.ofList r.chars) := by
  rw [forall₂_map_right_iff,forall₂_same]
  constructor
  · exact fun h r hr => h _ hr
  · intro h p hp
    cases p with
    | code n cs => simp [Draws,Passage.chars,Passage.strips,Strip.chars]
    | comment r => exact h r hp

lemma unchanged_iff (hrd : job.store.read (Simple.of src).text = .ok (.text text)) (hs : IsSource text ps)
  (hb : Unmarked ps) (hpl : Tree.Plain text) (hw : Writable job.store (.of src)) :
  (∃ sheet job', (injectStaged src).perform job = (.ok sheet,job') ∧ sheet.text = text) ↔
    ∀ r, .comment r ∈ ps → drawn job.settings.width (Simple.of src).text r.mark.indent.length
      (String.ofList r.words) = .ok (String.ofList r.chars) := by
  have htb : '\t' ∉ text.toList := fun hc => hpl _ hc (.inl rfl)
  have hrt : '\r' ∉ text.toList := fun hc => hpl _ hc (.inr rfl)
  obtain ⟨hasRead,hct⟩ := hs.asRead
  have hch := hasRead.eq htb hrt
  constructor
  · rintro ⟨sheet,job',hrn,hsm⟩ r hr
    obtain ⟨out,hre,ht⟩ := injectStaged_ok hrn
    have hj : String.join (out.map Prod.snd) = text := ht.symm.trans hsm
    have hst := stays_of_same hrd hs htb hrt hre hj
    have hf : text.toList = (out.map fun w => w.2.toList).flatten := by
      rw [← hj,String.toList_join,flatMap_def,map_map]
      rfl
    rw [hch,hf] at hct
    have hk := chars_of_cutText hs.codeLines hs.composed hst 1 hct
    have htx : out.map Prod.snd = ps.map fun p => String.ofList p.chars := by
      rw [← forall₂_eq_eq_eq,forall₂_map_left_iff,forall₂_map_right_iff]
      rw [forall₂_map_right_iff] at hk
      refine hk.flip.imp fun w p hp => ?_
      rw [hp,String.ofList_toList]
    have hd := renderStaged_draws hrd hs hb hre
    rw [htx] at hd
    exact draws_texts_iff.mp hd r hr
  · intro hdr
    obtain ⟨sheet,job',hrn,ht⟩ :=
      injectStaged_draws hrd hs hb (draws_texts_iff.mpr hdr) hw
    refine ⟨sheet,job',hrn,String.toList_injective ?_⟩
    rw [ht,← hch,String.toList_join,flatMap_map,flatMap_assoc]
    simp only [Passage.chars,String.toList_ofList]

theorem injection_repeats_iff {sheet : Sheet}
    (hread : job.store.read (Path.Simple.of source).text = .ok (.text text))
    (hsource : IsSource text ps)
    (hbare : Unmarked ps) (h : (injectStaged source).perform job = (.ok sheet, job')) :
    ∃ store qs, job'.store.write (Path.Simple.of source).text sheet.text = .ok store ∧
      IsSource sheet.text qs ∧
      ((Unmarked qs ∧ ∃ sheet' job'', (injectStaged source).perform { job' with store } =
        (.ok sheet', job'') ∧
          sheet'.text = sheet.text) ↔
        ∀ r, .comment r ∈ qs → Unreferring (String.ofList r.words) ∧
          drawn job.settings.width (Path.Simple.of source).text r.mark.indent.length
            (String.ofList r.words) =
            .ok (String.ofList r.chars)) := by
  obtain ⟨store, hwrite, hagain, hsettings, hwritable⟩ := writable_again hread h
  obtain ⟨qs, -, hqs, -, -⟩ := exists_source (Path.Simple.of source).text sheet.text
  obtain ⟨written, hrendered, htext⟩ := injectStaged_ok h
  have hplain : Tree.Plain sheet.text := by
    rw [htext]
    exact plain_join_draws hsource hbare (renderStaged_draws hread hsource hbare hrendered)
  have hagain' : ({ job' with store } : Job).store.read (Path.Simple.of source).text =
      .ok (.text sheet.text) := hagain
  refine ⟨store, qs, hwrite, hqs, ?_⟩
  rw [← hsettings]
  constructor
  · rintro ⟨hbare', hrun⟩ r hr
    exact ⟨hbare' r hr, (unchanged_iff hagain' hqs hbare' hplain hwritable).mp hrun r hr⟩
  · intro hdrawn
    have hbare' : Unmarked qs := fun r hr => (hdrawn r hr).1
    exact ⟨hbare', (unchanged_iff hagain' hqs hbare' hplain hwritable).mpr fun r hr => (hdrawn r hr).2⟩

section

def wrappedText : String := "/** a b */"

def wrappedRemark : Remark := ⟨1,⟨[],true,['a',' ','b',' ']⟩,[],some (1,none)⟩

def rewrappedText : String := "/** a\n/** b\n */"

def rewrappedRemark : Remark :=
  ⟨1,⟨[],true,['a','\n']⟩,[(2,⟨0,.bare,['/','*','*',' ','b','\n']⟩)],some (3,some [' '])⟩

def wrappedJob : Job where
  settings := { width := some 6 }
  store := { home := [], files := [(["a"],.text wrappedText)], folders := [[]] }

lemma wrapped_source : IsSource wrappedText [.comment wrappedRemark] :=
  ⟨⟨.inl rfl,trivial⟩,by with_unfolding_all rfl⟩

lemma rewrapped_source : IsSource rewrappedText [.comment rewrappedRemark] :=
  ⟨⟨.inl rfl,trivial⟩,by with_unfolding_all rfl⟩

lemma wrapped_unmarked : Unmarked [.comment wrappedRemark] :=
  unmarked_singleton (unreferring_of_checked (by decide +kernel))

lemma rewrapped_unmarked : Unmarked [.comment rewrappedRemark] :=
  unmarked_singleton (unreferring_of_checked (by decide +kernel))

lemma wrappedJob_read : wrappedJob.store.read (Simple.of "a").text = .ok (.text wrappedText) := by
  rw [emphasisJob_path]
  exact ok_of_toOption (by with_unfolding_all rfl)

lemma wrappedJob_writable : Writable wrappedJob.store (.of "a") := by
  intro stage hs
  obtain ⟨target,loc,hp,ht⟩ := emphasisJob_writable stage hs
  have hsm : emphasisJob.store.SameFolders wrappedJob.store := ⟨rfl,rfl⟩
  exact ⟨target,loc,hp,hsm.target ht⟩

lemma wrappedJob_run : ∃ sheet job', (injectStaged "a").perform wrappedJob = (.ok sheet,job') ∧
  sheet.text = rewrappedText := by
  exact injectStaged_draws wrappedJob_read wrapped_source wrapped_unmarked
    (draws_singleton (by decide +kernel : _ = some rewrappedText)) wrappedJob_writable

end

theorem injection_repeats_iff_at_wrap : ∃ sheet job' store qs,
    (injectStaged "a").perform wrappedJob = (.ok sheet, job') ∧
    job'.store.write (Path.Simple.of "a").text sheet.text = .ok store ∧ IsSource sheet.text qs ∧
    ((Unmarked qs ∧ ∃ sheet' job'', (injectStaged "a").perform { job' with store } =
      (.ok sheet', job'') ∧
        sheet'.text = sheet.text) ↔
      ∀ r, .comment r ∈ qs → Unreferring (String.ofList r.words) ∧
        drawn (some 6) (Path.Simple.of "a").text r.mark.indent.length (String.ofList r.words) =
          .ok (String.ofList r.chars)) := by
  obtain ⟨sheet, job', hrun, -⟩ := wrappedJob_run
  obtain ⟨store, qs, hwrite, hqs, hiff⟩ :=
    injection_repeats_iff wrappedJob_read wrapped_source wrapped_unmarked hrun
  exact ⟨sheet, job', store, qs, hrun, hwrite, hqs, hiff⟩

theorem injection_changes_again_at_wrap : ∃ sheet job' store sheet' job'',
    wrappedJob.store.read (Path.Simple.of "a").text = .ok (.text "/** a b */") ∧
    (injectStaged "a").perform wrappedJob = (.ok sheet, job') ∧ sheet.text = "/** a\n/** b\n */" ∧
    job'.store.write (Path.Simple.of "a").text sheet.text = .ok store ∧
    (injectStaged "a").perform { job' with store } = (.ok sheet', job'') ∧
    sheet'.text = "/** a\n/** /*\n/** *\n/** b\n */" := by
  obtain ⟨sheet, job', hrun, htext⟩ := wrappedJob_run
  obtain ⟨store, hwrite, hread, hsettings, hwritable⟩ := writable_again wrappedJob_read hrun
  have hagain : ({ job' with store } : Job).store.read (Path.Simple.of "a").text =
      .ok (.text rewrappedText) := by
    rw [← htext]
    exact hread
  have hdraws : Forall₂ (Draws job'.settings.width (Path.Simple.of "a").text)
      [.comment rewrappedRemark] ["/** a\n/** /*\n/** *\n/** b\n */"] := by
    rw [hsettings]
    exact draws_singleton (by decide +kernel)
  obtain ⟨sheet', job'', hrun', htext'⟩ :=
    injectStaged_draws hagain rewrapped_source rewrapped_unmarked hdraws hwritable
  exact ⟨sheet, job', store, sheet', job'', wrappedJob_read, hrun, htext, hwrite, hrun', htext'⟩

-- Read again, a line that was wrapped brings its own opening mark along as words.
example : (drawn (some 6) "a" 0 "a\n/** b\n").toOption = some "/** a\n/** /*\n/** *\n/** b\n */" := by
  decide +kernel

end Docweave.Job
