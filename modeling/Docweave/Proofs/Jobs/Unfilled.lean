import Docweave.Proofs.Jobs.DryReports
import Docweave.Proofs.Jobs.Repetition
import Docweave.Proofs.Layout.LineTexts

namespace Docweave

open List

namespace Tree

open Element Text

variable {wd : Option Int} {dialect lang : Dialect} {e e' : Element} {start next : String}
  {ts : List String}

def plainLines (next : String) : String → List Element → List String
  | _, [] => []
  | start, e :: es => start :: e.text.getD "" :: (ending e ++ plainLines next next es)

def plainComment (dialect : Dialect) (indent : Int) (lines : List Element) : List String :=
  (if dialect.isSwift then [spacesInt indent ++ "/**" ++ "\n"] else []) ++
    plainLines (leader dialect indent false) (leader dialect indent true) lines ++
    ((if lines.isEmpty && !dialect.isSwift then [leader dialect indent true] else []) ++
      ["\n",spacesInt (indent + 1),"*/"])

def Verbatim (e : Element) : Prop := ∀ l ∈ outputLines e, l.attribute? "hanging" = none

def WrittenPlainly (w : Element × String) : Prop :=
  childIndex? "outputs" w.1 = none ∧ w.1.text = some w.2 ∨ ∃ dialect indent,
    standing .final w.1 = .ok (dialect,indent) ∧
      w.2 = String.join (plainComment dialect indent (outputLines w.1))

lemma respellLine_hanging {hang : Option Int} (h : respellLine lang e = .ok (e',hang)) :
    (hang = none ∧ e' = e ∧ e'.attribute? "hanging" = none) ∨ hang.isSome ∧ e'.attribute? "hanging" ≠ none := by
  have hsm : e'.attribute? "hanging" = e.attribute? "hanging" := by
    rw [attribute?,respellLine_value h (by decide) (by decide),attribute?]
  rw [hsm]
  rcases respellLine_ok h with ⟨hn,rfl,rfl⟩ | ⟨hn,hs,-⟩
  · exact .inl ⟨rfl,rfl,hn⟩
  · exact .inr ⟨hs,hn⟩

lemma writeLine_unfilled (h : writeLine wd lang start e = .ok (e',ts)) :
    ((∃ r, writeLine none lang start e = .ok r) → e'.attribute? "hanging" = none) ∧
      (e'.attribute? "hanging" = none → writeLine none lang start e = .ok (e',ts) ∧
        ts = start :: e'.text.getD "" :: ending e') := by
  cases writeLine_ok_iff.mp h with
  | plain hr ht =>
    rcases respellLine_hanging hr with ⟨-,-,hn⟩ | ⟨hs,-⟩
    · exact ⟨fun _ => hn,fun _ => ⟨writeLine_ok_iff.mpr (.plain hr ht),by rw [ht]; rfl⟩⟩
    · cases hs
  | filled hr =>
    rcases respellLine_hanging hr with ⟨hs,-⟩ | ⟨-,hh⟩
    · cases hs
    refine ⟨?_,fun hn => absurd hn hh⟩
    rintro ⟨r,hw⟩
    rw [writeLine,hr] at hw
    cases hw

variable {es : List Element}

lemma writeLinesFrom_unfilled {all : Written}
    (h : writeLinesFrom wd lang next start es none = all) (hok : all.fault = none) :
    ((writeLinesFrom none lang next start es none).fault = none → ∀ l ∈ all.lines, l.attribute? "hanging" = none) ∧
      ((∀ l ∈ all.lines, l.attribute? "hanging" = none) → writeLinesFrom none lang next start es none = all ∧
        all.texts = plainLines next start all.lines) := by
  induction es generalizing start all with
  | nil =>
    subst h
    exact ⟨fun _ => forall_mem_nil _,fun _ => ⟨rfl,rfl⟩⟩
  | cons e es ih =>
    subst h
    obtain ⟨e',ts,hw,hok⟩ := writeLinesFrom_ok hok
    obtain ⟨hfl,hp⟩ := writeLine_unfilled hw
    obtain ⟨hr,hs⟩ := ih rfl hok
    rw [writeLinesFrom_eq hw]
    refine ⟨fun hn => ?_,fun ha => ?_⟩
    · obtain ⟨_,_,hf,hn⟩ := writeLinesFrom_ok hn
      exact forall_mem_cons.mpr ⟨hfl ⟨_,hf⟩,hr hn⟩
    · obtain ⟨hf,ha⟩ := forall_mem_cons.mp ha
      obtain ⟨hs,ht⟩ := hs ha
      obtain ⟨hw',rfl⟩ := hp hf
      rw [writeLinesFrom_eq hw',hs]
      dsimp only
      rw [ht]
      exact ⟨rfl,rfl⟩

lemma writeLinesFrom_lines (h : (writeLinesFrom wd lang next start es none).fault = none) :
    (writeLinesFrom wd lang next start es none).lines.isEmpty = es.isEmpty := by
  cases es with
  | nil => rfl
  | cons e es =>
    obtain ⟨e',ts,hw,-⟩ := writeLinesFrom_ok h
    rw [writeLinesFrom_eq hw]
    rfl

lemma writeComment_unfilled {all : Written} (h : writeComment .final wd e (.ofList es) = all)
    (hok : all.fault = none) :
    ((writeComment .final none e (.ofList es)).fault = none → ∀ l ∈ all.lines, l.attribute? "hanging" = none) ∧
      ((∀ l ∈ all.lines, l.attribute? "hanging" = none) → writeComment .final none e (.ofList es) = all ∧
        ∃ lang ind, standing .final e = .ok (lang,ind) ∧ all.texts = plainComment lang ind all.lines) := by
  obtain ⟨lang,ind,hs⟩ := writeComment_ok (h ▸ hok)
  rw [writeComment_eq hs] at h ⊢
  subst h
  obtain ⟨hf,hp⟩ := writeLinesFrom_unfilled rfl hok
  refine ⟨hf,fun ha => ?_⟩
  obtain ⟨hsm,ht⟩ := hp ha
  dsimp only [Stream.ofList] at hok hsm ht ⊢
  rw [hsm]
  refine ⟨rfl,lang,ind,hs,?_⟩
  rw [ht,hok,plainComment,writeLinesFrom_lines hok]
  rfl

lemma outputLines_modify {i : Nat} (hi : childIndex? "outputs" e = some i) (es : List Element) :
    let e' := { e with children := e.children.modify i fun c => { c with children := es } }
    childIndex? "outputs" e' = some i ∧ outputLines e' = es := by
  obtain ⟨hlt,ht,hb⟩ := findIdx?_eq_some_iff_getElem.mp hi
  have hin : childIndex? "outputs" { e with
      children := e.children.modify i fun c => { c with children := es } } = some i := by
    rw [childIndex?,findIdx?_eq_some_iff_getElem]
    refine ⟨by simpa using hlt,by simpa using ht,fun j hj => ?_⟩
    rw [getElem_modify,if_neg (by omega)]
    exact hb j hj
  refine ⟨hin,?_⟩
  rw [outputLines,hin]
  simp [hlt]

lemma writeElement_unfilled {w : Element × String} (h : writeElement wd e = .ok w) :
    ((∃ r, writeElement none e = .ok r) → Verbatim w.1) ∧
      (Verbatim w.1 → writeElement none e = .ok w ∧ WrittenPlainly w) := by
  cases writeElement_ok_iff.mp h with
  | code hi ht =>
    refine ⟨fun _ l hl => ?_,fun _ => ⟨writeElement_ok_iff.mpr (.code hi ht),.inl ⟨hi,ht⟩⟩⟩
    rw [outputLines,hi] at hl
    cases hl
  | comment hi ha hok =>
    obtain ⟨hf,hp⟩ := writeComment_unfilled ha hok
    obtain ⟨hin,hln⟩ := outputLines_modify hi _
    rw [Verbatim,hln]
    refine ⟨?_,fun hv => ?_⟩
    · rintro ⟨r,hr⟩
      cases writeElement_ok_iff.mp hr with
      | code hi' => cases hi.symm.trans hi'
      | comment _ ha' hok' => exact hf (ha' ▸ hok')
    · obtain ⟨hsm,lang,ind,hs,htx⟩ := hp hv
      refine ⟨writeElement_ok_iff.mpr (.comment hi hsm hok),.inr ⟨lang,ind,hs,?_⟩⟩
      rw [hln,← htx]

lemma inked_unfilled {w : Element × String} (h : inked wd e = .ok w) :
    ((∃ r, inked none e = .ok r) → Verbatim w.1) ∧ (Verbatim w.1 → inked none e = .ok w ∧ WrittenPlainly w) := by
  obtain ⟨made,hm,h⟩ := bind_ok h
  obtain ⟨laid,hl,hw⟩ := bind_ok h
  have hr : inked none e = writeElement none laid := by
    rw [inked,hm,ok_bind,hl]
    rfl
  rw [hr]
  exact writeElement_unfilled hw

lemma mapM_inked_unfilled {ws : List (Element × String)} (h : es.mapM (inked wd) = .ok ws) :
    ((∃ rs, es.mapM (inked none) = .ok rs) → ∀ w ∈ ws, Verbatim w.1) ∧
      ((∀ w ∈ ws, Verbatim w.1) → es.mapM (inked none) = .ok ws ∧ ∀ w ∈ ws, WrittenPlainly w) := by
  simp only [mapM_ok_iff] at h ⊢
  induction h with
  | nil => exact ⟨fun _ => forall_mem_nil _,fun _ => ⟨.nil,forall_mem_nil _⟩⟩
  | cons hw hws ih =>
    obtain ⟨hf,hp⟩ := inked_unfilled hw
    obtain ⟨hrt,ho⟩ := ih
    constructor
    · rintro ⟨_,ha⟩
      obtain ⟨r,rs,hr,hrs,rfl⟩ := forall₂_cons_left_iff.mp ha
      exact forall_mem_cons.mpr ⟨hf ⟨_,hr⟩,hrt ⟨_,hrs⟩⟩
    · intro ha
      obtain ⟨hfr,ha⟩ := forall_mem_cons.mp ha
      obtain ⟨hsm,hh⟩ := hp hfr
      obtain ⟨hs,ht⟩ := ho ha
      exact ⟨.cons hsm hs,forall_mem_cons.mpr ⟨hh,ht⟩⟩

end Tree

namespace Job

open Comment Docweave.Tree Act

variable {src source : String} {j j' : Job} {written out : List (Element × String)}
  {counts : List (String × Nat)}

def unfilled (s : Settings) : Settings := { s with width := none }

lemma renderStaged_unfilled (h : (renderStaged src).perform j = (.ok (out,counts),j')) :
    ((∃ r j0, (renderStaged src).perform (j.altered unfilled) = (.ok r,j0)) → ∀ w ∈ out, Verbatim w.1) ∧
      ((∀ w ∈ out, Verbatim w.1) →
        (renderStaged src).perform (j.altered unfilled) = (.ok (out,counts),j'.altered unfilled) ∧
          ∀ w ∈ out, WrittenPlainly w) := by
  have hP : Stagewise unfilled fun _ α (a : Act Job α) => Blind unfilled a := stagewise_blind
  have hx (stage : String) (es : List Element) := @blind_writeXml unfilled (.of src) stage es
  obtain ⟨es1,s1,h1,h⟩ := Act.bind_ok (Act.get_bind_ok h)
  obtain ⟨es2,s2,h2,h⟩ := Act.bind_ok h
  obtain ⟨es3,s3,h3,h⟩ := Act.bind_ok h
  obtain ⟨es4,s4,h4,h⟩ := Act.bind_ok h
  obtain ⟨es5,s5,h5,h⟩ := Act.bind_ok h
  obtain ⟨es6,s6,h6,h⟩ := Act.bind_ok h
  obtain ⟨out',s7,h7,h⟩ := Act.bind_ok h
  obtain ⟨_,s8,h8,hpr,rfl⟩ := Act.map_ok h
  cases hpr
  obtain ⟨hi,rfl⟩ := perform_mapM_ofExcept_ok h7
  have hrn : (renderStaged src).perform (j.altered unfilled) = (do
      let out ← es6.mapM fun e => Act.ofExcept (inked none e)
      writeXml (.of src) "_output" (out.map Prod.fst)
      return (out,countTags [] es1) : Act Job _).perform (s7.altered unfilled) := by
    have hm : (j.altered unfilled).settings.markers = j.settings.markers := rfl
    rw [renderStaged,perform_get_bind]
    dsimp only
    rw [hm,perform_bind ((hP.readComments fun stage _ => hx stage).of_perform h1),
      perform_bind ((hP.plainStage (hx _) _ _).of_perform h2),
      perform_bind ((hP.stage (hx _) (fun _ => hP.shelf _) _).of_perform h3),
      perform_bind ((hP.plainStage (hx _) _ _).of_perform h4),
      perform_bind ((hP.plainStage (hx _) _ _).of_perform h5),
      perform_bind ((hP.plainStage (hx _) _ _).of_perform h6)]
    rfl
  obtain ⟨hf,hp⟩ := mapM_inked_unfilled hi
  rw [hrn]
  refine ⟨?_,fun hv => ?_⟩
  · rintro ⟨r,j0,hr⟩
    obtain ⟨rs,_,hrs,-⟩ := Act.bind_ok hr
    exact hf ⟨rs,(perform_mapM_ofExcept_ok hrs).1⟩
  · obtain ⟨hs,ha⟩ := hp hv
    refine ⟨?_,ha⟩
    rw [perform_bind (perform_mapM_ofExcept hs),perform_bind ((hx _ _).of_perform h8)]
    rfl

theorem injection_without_width_iff {sheet : Sheet}
    (h : (injectStaged source).perform j = (.ok sheet, j')) :
    ∃ written, (renderStaged source).perform j = (.ok (written, sheet.counts), j') ∧
      ((∃ sheet₀ j₀, (injectStaged source).perform (j.altered unfilled) = (.ok sheet₀, j₀)) ↔
        ∀ w ∈ written, Verbatim w.1) ∧
      ((∀ w ∈ written, Verbatim w.1) →
        (injectStaged source).perform (j.altered unfilled) = (.ok sheet, j'.altered unfilled) ∧
          sheet.text = String.join (written.map Prod.snd) ∧ ∀ w ∈ written, WrittenPlainly w) := by
  obtain ⟨written, hrendered, htext⟩ := injectStaged_ok h
  obtain ⟨hfails, hplain⟩ := renderStaged_unfilled hrendered
  have hsame (hverbatim : ∀ w ∈ written, Verbatim w.1) :
      (injectStaged source).perform (j.altered unfilled) = (.ok sheet, j'.altered unfilled) := by
    rw [injectStaged, perform_bind (hplain hverbatim).1]
    dsimp only
    rw [← htext]
    rfl
  refine ⟨written, hrendered, ⟨?_, fun hverbatim => ⟨_, _, hsame hverbatim⟩⟩, fun hverbatim => ?_⟩
  · rintro ⟨sheet₀, j₀, hrun⟩
    obtain ⟨written₀, hrendered₀, -⟩ := injectStaged_ok hrun
    exact hfails ⟨_, _, hrendered₀⟩
  · exact ⟨hsame hverbatim, htext, (hplain hverbatim).2⟩

def codeRemark : Remark := ⟨1,⟨[],true,[' ',' ',' ',' ','x',' ']⟩,[],some (1,none)⟩

def codeJob : Job where
  settings := { width := some 6 }
  store := { home := [], files := [(["a"],.text "/**     x */")], folders := [[]] }

lemma codeJob_run (hj : j.store = codeJob.store) (hd : (drawn j.settings.width "a"
    codeRemark.mark.indent.length (String.ofList codeRemark.words)).toOption = some "/**     x \n */") :
    ∃ sheet j', (injectStaged "a").perform j = (.ok sheet,j') := by
  have hr : j.store.read (Path.Simple.of "a").text = .ok (.text "/**     x */") :=
    hj ▸ ok_of_toOption (by decide +kernel)
  have hsr : IsSource "/**     x */" [.comment codeRemark] := ⟨⟨.inl rfl,trivial⟩,by decide +kernel⟩
  have hb : Unmarked [.comment codeRemark] := unmarked_singleton (unreferring_of_checked (by decide +kernel))
  have hw : Writable j.store (.of "a") := by
    intro stage hs
    obtain ⟨target,place,hp,ht⟩ := wrappedJob_writable stage hs
    have hsm : wrappedJob.store.SameFolders j.store := hj ▸ ⟨rfl,rfl⟩
    exact ⟨target,place,hp,hsm.target ht⟩
  obtain ⟨sheet,j',h,-⟩ := injectStaged_draws hr hsr hb (draws_singleton hd) hw
  exact ⟨sheet,j',h⟩

theorem injection_without_width_at_code : ∃ sheet job' written,
    (injectStaged "a").perform codeJob = (.ok sheet, job') ∧
    (renderStaged "a").perform codeJob = (.ok (written, sheet.counts), job') ∧
    (∀ w ∈ written, Verbatim w.1) ∧
    (injectStaged "a").perform (codeJob.altered unfilled) = (.ok sheet, job'.altered unfilled) := by
  obtain ⟨sheet, job', hrun⟩ := codeJob_run rfl (by decide +kernel)
  obtain ⟨written, hrendered, hiff, hsame⟩ := injection_without_width_iff hrun
  have hverbatim : ∀ w ∈ written, Verbatim w.1 := hiff.mp (codeJob_run rfl (by decide +kernel))
  exact ⟨sheet, job', written, hrun, hrendered, hverbatim, (hsame hverbatim).1⟩

theorem injection_fails_without_width :
    (∃ sheet job', (injectStaged "a").perform wrappedJob = (.ok sheet, job')) ∧
    ¬∃ sheet job', (injectStaged "a").perform (wrappedJob.altered unfilled) =
      (.ok sheet, job') := by
  obtain ⟨sheet, job', hrun, -⟩ := wrappedJob_run
  refine ⟨⟨sheet, job', hrun⟩, ?_⟩
  rintro ⟨sheet₀, j₀, hrun₀⟩
  obtain ⟨written, hrendered, -⟩ := injectStaged_ok hrun₀
  have hread : (wrappedJob.altered unfilled).store.read (Path.Simple.of "a").text = .ok (.text wrappedText) :=
    wrappedJob_read
  have hdraws := renderStaged_draws hread wrapped_source wrapped_unmarked hrendered
  obtain ⟨t, ts, hdrawn, -, -⟩ := forall₂_cons_left_iff.mp hdraws
  have hnone : (drawn none (Path.Simple.of "a").text wrappedRemark.mark.indent.length
      (String.ofList wrappedRemark.words)).toOption = none := by
    decide +kernel
  have hsome := congrArg Except.toOption hdrawn
  rw [show (wrappedJob.altered unfilled).settings.width = none from rfl, hnone] at hsome
  cases hsome

end Job

end Docweave
