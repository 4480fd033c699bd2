import Docweave.Proofs.Jobs.BareRuns

namespace Docweave.Job

open Comment Element Docweave.Tree List

section

variable {p : Passage} {e e' : Element} {w : Element × String} {width : Option Int}

def IsWritten (e : Element) (w : Element × String) : Prop :=
  w.1.tag = e.tag ∧ if e.tag = "comment" then Rendered w.2.toList else e.text = some w.2

lemma isWritten_gathered (hp : IsGathered p e) (hk : Kept e e')
    (hw : writeElement width e' = .ok w) : IsWritten e w := by
  cases p with
  | code n cs =>
    have hl : e.children = [] := IsLine.children hp
    obtain rfl := hk.leaf hl
    rcases writeElement_text hw with ⟨-,hs,ht⟩ | ⟨ho,-⟩
    · exact ⟨congrArg Element.tag hs,by rwa [if_neg (IsLine.tag_ne hp)]⟩
    · exact absurd (childIndex?_of_leaf "outputs" hl) ho
  | comment r =>
    have htg : e.tag = "comment" := IsComment.tag hp
    have ht : e'.text = none := hk.text.trans (IsComment.text hp)
    rcases writeElement_text hw with ⟨-,-,hsm⟩ | ⟨-,hs,hr⟩
    · rw [ht] at hsm
      cases hsm
    · exact ⟨hs.trans hk.tag,by rwa [if_pos htg]⟩

lemma writes_of_isWritten (hp : IsGathered p e) (hw : IsWritten e w) : Writes p w.2.toList := by
  cases p with
  | code n cs =>
    have ht := hw.2
    rw [if_neg (IsLine.tag_ne hp),IsLine.text hp] at ht
    rw [Writes,← Option.some.inj ht,String.toList_ofList]
  | comment r =>
    have hr := hw.2
    rwa [if_pos (IsComment.tag hp)] at hr

def writtenPortion (w : Element × String) : Portion :=
  if w.1.tag = "comment" then .comment w.2.toList else .code w.2.toList

lemma portion_of_isWritten (hp : IsGathered p e) (hw : IsWritten e w) :
    p.portion w.2.toList = writtenPortion w := by
  rw [writtenPortion,hw.1]
  cases p with
  | code n cs =>
    rw [if_neg (IsLine.tag_ne hp)]
    rfl
  | comment r =>
    rw [if_pos (IsComment.tag hp)]
    rfl

end

section

variable {ps : List Passage} {es : List Element} {out : List (Element × String)}

lemma forall₂_writes (hp : Forall₂ IsGathered ps es) (hw : Forall₂ IsWritten es out) :
    Forall₂ Writes ps (out.map fun w => w.2.toList) ∧
      List.zipWith Passage.portion ps (out.map fun w => w.2.toList) = out.map writtenPortion := by
  induction hp generalizing out with
  | nil =>
    obtain rfl := forall₂_nil_left_iff.mp hw
    exact ⟨.nil,rfl⟩
  | cons hp _ ih =>
    obtain ⟨w,ws,hw1,hws,rfl⟩ := forall₂_cons_left_iff.mp hw
    obtain ⟨hwr,hz⟩ := ih hws
    refine ⟨.cons (writes_of_isWritten hp hw1) hwr,?_⟩
    rw [map_cons,map_cons,zipWith_cons_cons,portion_of_isWritten hp hw1,hz]

lemma plain_written {cs : List Char} (htb : '\t' ∉ cs) (hcr : '\r' ∉ cs)
    (hp : Forall₂ IsGathered ps es)
  (hw : Forall₂ IsWritten es out)
  (hps : ps.flatMap Passage.strips = cutFrom 1 false (Text.fileLinesFrom [] cs)) :
  ∀ q ∈ out.map writtenPortion, q.Clean := by
  intro q hq
  obtain ⟨w,hm,rfl⟩ := mem_map.mp hq
  obtain ⟨e,he,hwe⟩ := forall₂_mem_right hw hm
  obtain ⟨p,hp',hpe⟩ := forall₂_mem_right hp he
  rw [← portion_of_isWritten hpe hwe]
  cases p with
  | comment r => trivial
  | code n line =>
    have hs : Strip.code n line ∈ ps.flatMap Passage.strips :=
      mem_flatMap.mpr ⟨_,hp',mem_singleton_self _⟩
    have hsb : line ⊆ cs := by
      rw [← Text.flatten_fileLines cs,← flatMap_chars_cutFrom _ 1 false,← hps]
      exact fun c hc => mem_flatMap.mpr ⟨_,hs,hc⟩
    have ht : w.2.toList = line := writes_of_isWritten hpe hwe
    rw [ht]
    exact ⟨fun h => htb (hsb h),fun h => hcr (hsb h)⟩

lemma comments_written : (∀ cs, .comment cs ∈ out.map writtenPortion → ¬ ClosesEarly cs) ↔
    ∀ w ∈ out, w.1.tag = "comment" → ¬ ClosesEarly w.2.toList := by
  constructor
  · intro h w hw ht
    exact h _ (mem_map.mpr ⟨w,hw,by rw [writtenPortion,if_pos ht]⟩)
  · intro h cs hcs
    obtain ⟨w,hw,hp⟩ := mem_map.mp hcs
    rw [writtenPortion] at hp
    split at hp
    · rename_i ht
      obtain rfl := Portion.comment.inj hp
      exact h w hw ht
    · cases hp

lemma codeGaps_written_iff {text : String} (htb : '\t' ∉ text.toList) (hcr : '\r' ∉ text.toList) (path : String)
    {marked : List Element} (hr : Tree.readLines 4 path (Files.Content.text text).lines = .ok marked)
    (hw : Forall₂ IsWritten (gatherComments {} marked) out) : ∃ marked', Tree.readLines 4 path
        (Files.Content.text (String.join (out.map Prod.snd))).lines = .ok marked' ∧
      (codeGaps (gatherComments {} marked') = codeGaps (gatherComments {} marked) ↔
        ∀ w ∈ out, w.1.tag = "comment" → ¬ ClosesEarly w.2.toList) := by
  obtain ⟨marked1,ps,cs,hr1,hps,hcs,hc,hg⟩ := codeGaps_readLines path text
  obtain rfl : marked1 = marked := Except.ok.inj (hr1.symm.trans hr)
  obtain rfl : cs = text.toList := hcs.eq htb hcr
  obtain ⟨hwr,hz⟩ := forall₂_writes hps hw
  obtain ⟨hwv,hp,ht⟩ :=
    woven_of_writes (by rw [hc]; exact codeLines_cutFrom _ _ _) hwr
  rw [hz] at hwv hp ht
  obtain ⟨marked',-,cs',hr',-,hcs',-,hg'⟩ :=
    codeGaps_readLines path (String.join (out.map Prod.snd))
  refine ⟨marked',hr',?_⟩
  have hj : (String.join (out.map Prod.snd)).toList = (out.map writtenPortion).flatMap Portion.text := by
    rw [ht,String.toList_join,flatMap_def,map_map]
    rfl
  rw [hj] at hcs'
  obtain ⟨ps',rfl,hs,hwv',hg''⟩ := seenAs_woven hwv (plain_written htb hcr hps hw hc) hcs'
  have hrr := gapsFrom_woven_iff hwv' 1
  rw [hg'',closesEarly_seenAs hs,hp,hc,comments_written] at hrr
  rw [hg,hg',← hrr]
  exact List.map_inj_right fun _ _ => String.ofList_inj.mp

end

theorem injection_keeps_code_iff {source text : String} {job job' : Job} {sheet : Sheet}
    (hread : job.store.read (Path.Simple.of source).text = .ok (.text text))
    (htab : '\t' ∉ text.toList) (hcr : '\r' ∉ text.toList)
    (h : (injectStaged source).perform job = (.ok sheet, job')) : ∃ written marked marked',
      (renderStaged source).perform job = (.ok (written, sheet.counts), job') ∧
      sheet.text = String.join (written.map Prod.snd) ∧
      Tree.readLines 4 (Path.Simple.of source).text (Files.Content.text text).lines = .ok marked ∧
      Tree.readLines 4 (Path.Simple.of source).text (Files.Content.text sheet.text).lines =
        .ok marked' ∧
      List.Forall₂ IsWritten (gatherComments {} marked) written ∧
      (codeGaps (gatherComments {} marked') = codeGaps (gatherComments {} marked) ↔
        ∀ w ∈ written, w.1.tag = "comment" → ¬ ClosesEarly w.2.toList) := by
  obtain ⟨⟨written, counts⟩, job₁, hrendered, rfl, rfl⟩ := Act.map_ok h
  obtain ⟨marked, hmarked, hkept⟩ := renderStaged_kept hrendered
  rw [Files.Store.lines, hread] at hmarked
  obtain ⟨marked₁, ps, -, hmarked₁, hps, -⟩ := codeGaps_readLines (Path.Simple.of source).text text
  obtain rfl : marked₁ = marked := Except.ok.inj (hmarked₁.symm.trans hmarked)
  have hwritten : Forall₂ IsWritten (gatherComments {} marked₁) written :=
    forall₂_imp hkept fun e he w hw => by
      obtain ⟨e', hk, hw⟩ := hw
      obtain ⟨p, -, hp⟩ := forall₂_mem_right hps he
      exact isWritten_gathered hp hk hw
  obtain ⟨marked', hmarked', hiff⟩ :=
    codeGaps_written_iff htab hcr (Path.Simple.of source).text hmarked hwritten
  exact ⟨written, marked₁, marked', hrendered, rfl, hmarked, hmarked', hwritten, hiff⟩

section

def emphasisText : String := "/**_a_/*/"

def emphasisJob : Job where
  settings := { width := some 80 }
  store := { home := [], files := [(["a"],.text emphasisText)], folders := [[]] }

def emphasisRemark : Remark := ⟨1,⟨[],false,['_','a','_','/']⟩,[],some (1,none)⟩

lemma emphasisJob_path : (Path.Simple.of "a").text = "a" := by with_unfolding_all rfl

lemma emphasisJob_read : emphasisJob.store.read "a" = .ok (.text emphasisText) :=
  ok_of_toOption (by with_unfolding_all rfl)

lemma emphasisJob_writable : Writable emphasisJob.store (Path.Simple.of "a") :=
  writable_of_checked (by decide +kernel)

lemma emphasisJob_run : ∃ sheet job',
    (injectStaged "a").perform emphasisJob = (.ok sheet,job') ∧ sheet.text = "/** *a*/\n */" := by
  have hs : IsSource emphasisText [.comment emphasisRemark] := ⟨⟨.inl rfl,trivial⟩,by decide +kernel⟩
  have hb : Unmarked [.comment emphasisRemark] := unmarked_singleton (unreferring_of_checked (by decide +kernel))
  have hr : emphasisJob.store.read (Path.Simple.of "a").text = .ok (.text emphasisText) := by
    rw [emphasisJob_path,emphasisJob_read]
  exact injectStaged_draws hr hs hb (draws_singleton (by decide +kernel : _ = some "/** *a*/\n */"))
    emphasisJob_writable

end

theorem injection_keeps_code_iff_at_emphasis :
    ∃ (sheet : Sheet) (job' : Job) (written : List (Element × String))
      (marked marked' : List Element),
    (injectStaged "a").perform emphasisJob = (.ok sheet, job') ∧
    sheet.text = String.join (written.map Prod.snd) ∧
    Tree.readLines 4 "a" (Files.Content.text emphasisText).lines = .ok marked ∧
    Tree.readLines 4 "a" (Files.Content.text sheet.text).lines = .ok marked' ∧
    (codeGaps (gatherComments {} marked') = codeGaps (gatherComments {} marked) ↔
      ∀ w ∈ written, w.1.tag = "comment" → ¬ ClosesEarly w.2.toList) := by
  obtain ⟨sheet, job', hrun, -⟩ := emphasisJob_run
  obtain ⟨written, marked, marked', -, htext, hread, hread', -, hiff⟩ :=
    injection_keeps_code_iff (by rw [emphasisJob_path]; exact emphasisJob_read) (by decide)
      (by decide) hrun
  rw [emphasisJob_path] at hread hread'
  exact ⟨sheet, job', written, marked, marked', hrun, htext, hread, hread', hiff⟩

theorem injection_changes_code_at_emphasis : ∃ sheet job' marked marked',
    emphasisJob.store.read "a" = .ok (.text emphasisText) ∧
    (injectStaged "a").perform emphasisJob = (.ok sheet, job') ∧
    Tree.readLines 4 "a" (Files.Content.text emphasisText).lines = .ok marked ∧
    Tree.readLines 4 "a" (Files.Content.text sheet.text).lines = .ok marked' ∧
    codeGaps (gatherComments {} marked) = ["", ""] ∧
    codeGaps (gatherComments {} marked') = ["", "\n */"] := by
  obtain ⟨sheet, job', hrun, htext⟩ := emphasisJob_run
  have hpre : ((Tree.readLines 4 "a" (Files.Content.text emphasisText).lines).toOption.map
      fun es => codeGaps (gatherComments {} es)) = some ["", ""] := by
    decide +kernel
  have hafter : ((Tree.readLines 4 "a" (Files.Content.text "/** *a*/\n */").lines).toOption.map
      fun es => codeGaps (gatherComments {} es)) = some ["", "\n */"] := by
    decide +kernel
  obtain ⟨marked, hmarked, hgaps⟩ := Option.map_eq_some_iff.mp hpre
  obtain ⟨marked', hmarked', hgaps'⟩ := Option.map_eq_some_iff.mp hafter
  refine ⟨sheet, job', marked, marked', emphasisJob_read, hrun, ok_of_toOption hmarked, ?_,
    hgaps, hgaps'⟩
  rw [htext]
  exact ok_of_toOption hmarked'

end Docweave.Job
