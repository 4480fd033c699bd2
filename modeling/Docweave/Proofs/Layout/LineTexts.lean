import Docweave.Proofs.Layout.Filling

namespace Docweave.Tree

open Element Text List
open String (join toList_append ofList join_cons join_append)

def physicalLines (texts : List String) : List (List Char) := (join texts).toList.splitOn '\n'

def withoutLeader (start : String) (line : List Char) : List Char :=
  if start.toList.isPrefixOf line then line.drop start.length else line

def lettersShown (start : String) (texts : List String) : List Char :=
  letters ((physicalLines texts).flatMap (withoutLeader start))

def Swallows (width : Int) (start text : String) (hanging : Int) : Prop :=
  ∃ first rest, fill width (start ++ spacesInt hanging) (start ++ text) = .ok (first :: rest) ∧
    first.length < (start ++ spacesInt hanging).length ∧ letters first.toList ≠ letters start.toList

def Unlettered (start : String) : Prop := letters start.toList = [] ∨ IsLeader start

structure Settable (e : Element) : Prop where
  text : e.text.isSome = true
  hanging : ∀ s, e.attribute? "hanging" = some s → ∃ n, whole s = .ok n

section

variable {w hang : Int} {start text : String} {ls : List String}

lemma letters_spacesInt (n : Int) : letters (spacesInt n).toList = [] := by
  rw [spacesInt,spaces,String.toList_ofList,letters_replicate_space]

lemma not_mem_spacesInt (n : Int) : '\n' ∉ (spacesInt n).toList := by
  rw [spacesInt,spaces,String.toList_ofList]
  intro hm
  exact absurd (eq_of_mem_replicate hm) (by decide)

lemma fillLine_lines (text : String) (hw : ((start ++ spacesInt hang).length : Int) < w) :
    ∃ (first : String) (rest : List String), fillLine (some w) start text hang =
        .ok (((if first.length < (start ++ spacesInt hang).length then start ++
          spacesInt hang else first) ::
          rest.map (start ++ spacesInt hang ++ ·)).intersperse "\n") ∧
      letters first.toList ++ letters (join rest).toList = letters start.toList ++
        letters text.toList ∧
      (fill w (start ++ spacesInt hang) (start ++ text) =
        .ok (first :: rest.map (start ++ spacesInt hang ++ ·)) ∨
        fill w (start ++ spacesInt hang) (start ++ text) = .ok [] ∧ first = "" ∧ rest = []) := by
  obtain ⟨bodies,hf,hl⟩ := fill_bodies (start ++ spacesInt hang) (start ++ text) (by omega : 0 < w)
  rw [toList_append,letters_append] at hl
  rw [fillLine]
  rw [hf]
  generalize start ++ spacesInt hang = ind
  cases bodies with
  | nil => exact ⟨"",[],rfl,hl,.inr ⟨rfl,rfl,rfl⟩⟩
  | cons body bodies =>
    have hr : ((bodies.map (ind.toList ++ ·)).map ofList) = (bodies.map ofList).map (ind ++ ·) := by
      rw [map_map]
      simp
    have hk : ((bodies.map ofList).map (ind ++ ·)).map
      (fun line => if line.length < ind.length then ind else line) =
        (bodies.map ofList).map (ind ++ ·) := by
      rw [map_map]
      refine map_congr_left fun line _ => ?_
      rw [Function.comp_apply,if_neg (by rw [String.length_append]; omega)]
    rw [indented,map_cons,hr]
    refine ⟨ofList body,bodies.map ofList,?_,?_,.inl rfl⟩
    · show Except.ok (((ofList body :: (bodies.map ofList).map (ind ++ ·)).map
        (fun line => if line.length < ind.length then ind else line)).intersperse "\n") = _
      rw [map_cons,hk]
    · rw [← hl]
      simp [List.flatMap]

lemma toList_join_intersperse (ls : List String) :
  (join (ls.intersperse "\n")).toList = ['\n'].intercalate (ls.map String.toList) := by
  induction ls with
  | nil => rfl
  | cons line ls ih =>
    cases ls with
    | nil => simp [List.intercalate]
    | cons next ls =>
      rw [intersperse_cons_cons,join_cons,join_cons,toList_append,toList_append,ih]
      simp [List.intercalate]

lemma physicalLines_intersperse (hne : ls ≠ []) (hf : ∀ line ∈ ls, '\n' ∉ line.toList) :
  physicalLines (ls.intersperse "\n") = ls.map String.toList := by
  rw [physicalLines,toList_join_intersperse]
  exact splitOn_intercalate '\n' (by simpa using hf) (by simpa using hne)

lemma join_intersperse_append {later : List String} (hne : ls ≠ []) (hl : later ≠ []) :
  join (ls.intersperse "\n" ++ "\n" :: later.intersperse "\n") = join ((ls ++ later).intersperse "\n") := by
  induction ls with
  | nil => exact absurd rfl hne
  | cons line ls ih =>
    cases ls with
    | nil =>
      obtain ⟨next,later,rfl⟩ := exists_cons_of_ne_nil hl
      simp [join_cons]
    | cons next ls =>
      have hr := ih (cons_ne_nil _ _)
      rw [intersperse_cons_cons,cons_append,cons_append,join_cons,join_cons,hr]
      simp [join_cons]

lemma physicalLines_feed (hne : ls ≠ []) (hf : ∀ line ∈ ls, '\n' ∉ line.toList) :
  physicalLines (ls.intersperse "\n" ++ ["\n"]) = ls.map String.toList ++ [[]] := by
  have hls : join (ls.intersperse "\n" ++ ["\n"]) = join ((ls ++ [""]).intersperse "\n") := by
    rw [← join_intersperse_append hne (cons_ne_nil _ _),join_append,join_append]
    rfl
  rw [physicalLines,hls,← physicalLines,physicalLines_intersperse (by simp)]
  · simp
  intro line hl
  rcases mem_append.mp hl with hl | hl
  · exact hf line hl
  · rw [mem_singleton.mp hl]
    simp

lemma withoutLeader_append (cs : List Char) : withoutLeader start (start.toList ++ cs) = cs := by
  rw [withoutLeader,if_pos (by simp),← String.length_toList,drop_left]

lemma letters_withoutLeader {line : List Char} (h : start.toList <+: line ∨ letters start.toList = []) :
  letters start.toList ++ letters (withoutLeader start line) = letters line := by
  by_cases hl : start.toList <+: line
  · obtain ⟨cs,rfl⟩ := hl
    rw [withoutLeader_append,letters_append]
  · rw [withoutLeader,if_neg (by simpa using hl),h.resolve_left hl,nil_append]

lemma letters_indented (start : String) (hang : Int) (rest : List String) :
  letters (((rest.map (start ++ spacesInt hang ++ ·)).map String.toList).flatMap (withoutLeader start)) =
    letters (join rest).toList := by
  induction rest with
  | nil => rfl
  | cons line rest ih =>
    rw [map_cons,map_cons,flatMap_cons,letters_append,ih,toList_append,
      toList_append,append_assoc,withoutLeader_append,letters_append,letters_spacesInt,
      nil_append,join_cons,toList_append,letters_append]

lemma lettersShown_lines {first : String} {rest : List String} {ending : List String}
  (he : ending = [] ∨ ending = ["\n"])
  (hf : ∀ line ∈ first :: rest.map (start ++ spacesInt hang ++ ·), '\n' ∉ line.toList) :
  lettersShown start ((first :: rest.map (start ++ spacesInt hang ++ ·)).intersperse "\n" ++ ending) =
    letters (withoutLeader start first.toList) ++ letters (join rest).toList := by
  have hn : letters (withoutLeader start []) = [] := by
    rw [withoutLeader]
    split <;> simp
  rw [lettersShown]
  rcases he with rfl | rfl
  · rw [append_nil,physicalLines_intersperse (cons_ne_nil _ _) hf,map_cons,flatMap_cons,
      letters_append,letters_indented]
  · rw [physicalLines_feed (cons_ne_nil _ _) hf,flatMap_append,letters_append,map_cons,
      flatMap_cons,letters_append,letters_indented,flatMap_singleton,hn,append_nil]

lemma not_mem_leads (h : '\n' ∉ start.toList) (hang : Int) : '\n' ∉ (start ++ spacesInt hang).toList := by
  rw [toList_append,mem_append]
  rintro (hm | hm)
  · exact h hm
  · exact not_mem_spacesInt hang hm

lemma swallows_iff {first : String} {rest : List String}
  (hf : fill w (start ++ spacesInt hang) (start ++ text) = .ok (first :: rest)) : Swallows w start text hang ↔
    first.length < (start ++ spacesInt hang).length ∧ letters first.toList ≠ letters start.toList := by
  constructor
  · rintro ⟨first',rest',hf',hs⟩
    cases hf.symm.trans hf'
    exact hs
  · exact fun hs => ⟨first,rest,hf,hs⟩

lemma fillLine_kept_iff (hst : Unlettered start) (hfd : '\n' ∉ start.toList) (text : String)
  (hw : ((start ++ spacesInt hang).length : Int) < w) :
  ∃ ts, fillLine (some w) start text hang = .ok ts ∧ ∀ ending, ending = [] ∨ ending = ["\n"] →
      (lettersShown start (ts ++ ending) = letters text.toList ↔ ¬ Swallows w start text hang) := by
  obtain ⟨first,rest,hln,hl,hf⟩ := fillLine_lines text hw
  have hi := not_mem_leads hfd hang
  refine ⟨_,hln,fun ending he => ?_⟩
  rcases hf with hf | ⟨hf,rfl,rfl⟩
  · obtain ⟨hfr,hr⟩ := forall_mem_cons.mp (fill_oneLine hi hf)
    rw [swallows_iff hf]
    by_cases hs : first.length < (start ++ spacesInt hang).length
    · rw [if_pos hs,lettersShown_lines he (forall_mem_cons.mpr ⟨hi,hr⟩),
        toList_append,withoutLeader_append,letters_spacesInt,nil_append]
      constructor
      · rintro hk ⟨-,hm⟩
        rw [hk] at hl
        exact hm (append_cancel_right hl)
      · intro hn
        have hsm : letters first.toList = letters start.toList := by
          by_contra hm
          exact hn ⟨hs,hm⟩
        rw [hsm] at hl
        exact append_cancel_left hl
    have hld : start.toList <+: first.toList ∨ letters start.toList = [] := by
      refine hst.symm.imp_left fun hlr => ?_
      rw [String.length_append] at hs hw
      obtain ⟨first',rest',hf',hld⟩ :=
        @IsLeader.fill_first w start hlr (start ++ spacesInt hang) text (by omega)
      cases hf.symm.trans hf'
      exact hld (by omega)
    rw [if_neg hs,lettersShown_lines he (forall_mem_cons.mpr ⟨hfr,hr⟩)]
    rw [← letters_withoutLeader hld,append_assoc] at hl
    exact iff_of_true (append_cancel_left hl) (fun hsw => hs hsw.1)
  -- nothing but blanks fills no line, and is shown as the indent
  have hn : ¬ Swallows w start text hang := by
    rintro ⟨first,rest,hf',-⟩
    cases hf.symm.trans hf'
  obtain ⟨hb,ht⟩ := append_eq_nil_iff.mp hl.symm
  have hsh (first : String) (hfr : letters first.toList = []) :
      letters (withoutLeader start first.toList) ++ letters (join []).toList = letters text.toList := by
    rw [← letters_withoutLeader (.inr hb),hb,nil_append] at hfr
    rw [hfr,ht]
    rfl
  refine iff_of_true ?_ hn
  split
  · rw [@lettersShown_lines hang start _ [] ending he (by simpa using hi)]
    refine hsh _ ?_
    rw [toList_append,letters_append,hb,letters_spacesInt]
    rfl
  · rw [@lettersShown_lines hang start _ [] ending he (by simp)]
    exact hsh "" rfl

end

section

variable {dialect lang : Dialect} {e : Element} {w : Option Int}

lemma isSign_slash : IsSign '/' := ⟨by decide,by decide,by decide⟩

lemma isSign_star : IsSign '*' := ⟨by decide,by decide,by decide⟩

lemma isLeader_opening (ind : Int) : IsLeader (spacesInt ind ++ "/**" ++ " ") := by
  refine ⟨ind.toNat,['/','*','*'],by simp,?_,by simp [spacesInt,spaces]⟩
  simp [isSign_slash,isSign_star]

lemma isLeader_next (ind : Int) : IsLeader (spacesInt ind ++ "* ") := by
  refine ⟨ind.toNat,['*'],by simp,?_,by simp [spacesInt,spaces]⟩
  simp [isSign_star]

lemma unlettered_leader (lang : Dialect) (ind : Int) (isFirst : Bool) :
  Unlettered (leader lang ind isFirst) ∧ '\n' ∉ (leader lang ind isFirst).toList := by
  rw [leader]
  split
  · exact ⟨.inl (letters_spacesInt _),not_mem_spacesInt _⟩
  · split
    · exact ⟨.inr (isLeader_opening ind),(isLeader_opening ind).oneLine⟩
    · exact ⟨.inr (isLeader_next _),(isLeader_next _).oneLine⟩

lemma respellLine_settable (lang : Dialect) (he : Settable e) {s : String}
    (hs : e.attribute? "hanging" = some s) :
  ∃ e' hang text, respellLine lang e = .ok (e',some hang) ∧ e'.text = some text := by
  obtain ⟨n,hn⟩ := he.hanging s hs
  obtain ⟨text,ht⟩ := Option.isSome_iff_exists.mp he.text
  simp only [respellLine,hs,hn,ht,bind,Except.bind]
  split
  · refine ⟨_,_,text,rfl,?_⟩
    split
    · exact ht
    · exact ht
  · split
    · exact ⟨_,_,text,rfl,ht⟩
    · exact ⟨_,_,_,rfl,rfl⟩

lemma respellLine_value {e' : Element} {hang : Option Int} (h : respellLine lang e = .ok (e',hang))
  {name : String} (hg : name ≠ "atGroups") (hp : name ≠ "atPrefix") : e'.value? name = e.value? name := by
  rcases respellLine_ok h with ⟨-,-,rfl⟩ | ⟨-,-,hr⟩
  · rfl
  · cases hr with
    | same => rfl
    | warned => rfl
    | grouped => exact value?_setValue_ne e hg _
    | led => exact (value?_set_ne _ hp _).trans (value?_setValue_ne e hg _)

lemma fillLine_ok {w : Int} (hw : 0 < w) (start text : String) (hang : Int) :
  ∃ ts, fillLine (some w) start text hang = .ok ts := by
  rw [fillLine]
  rw [fill,if_neg (by omega)]
  exact ⟨_,rfl⟩

lemma writeLine_settable {w : Int} (hw : 0 < w) (lang : Dialect) (start : String)
  (he : Settable e) : ∃ r, writeLine (some w) lang start e = .ok r := by
  cases hs : e.attribute? "hanging" with
  | none =>
    obtain ⟨text,ht⟩ := Option.isSome_iff_exists.mp he.text
    have hr : respellLine lang e = .ok (e,none) := by
      rw [respellLine,hs]
      rfl
    exact ⟨_,writeLine_ok_iff.mpr (.plain hr ht)⟩
  | some s =>
    obtain ⟨e',hang,text,hr,-⟩ := respellLine_settable lang he hs
    obtain ⟨ts,hf⟩ := fillLine_ok hw start (e'.text.getD "") hang
    exact ⟨_,writeLine_ok_iff.mpr (.filled hr hf)⟩

lemma writeLinesFrom_settable {w : Int} (hw : 0 < w) (lang : Dialect) (next start : String) {es : List Element}
  (hes : ∀ e ∈ es, Settable e) : (writeLinesFrom (some w) lang next start es none).fault = none := by
  induction es generalizing start with
  | nil => rfl
  | cons e es ih =>
    obtain ⟨he,hes⟩ := forall_mem_cons.mp hes
    obtain ⟨⟨e',ts⟩,hwr⟩ := writeLine_settable hw lang start he
    rw [writeLinesFrom_eq hwr]
    exact ih next hes

lemma writeLinesFrom_split {next start : String} {pre after : List Element}
    (ha : (writeLinesFrom w lang next start (pre ++ e :: after) none).fault = none) :
    ∃ front back e' ts, writeLine w lang (if pre.isEmpty then start else next) e = .ok (e',ts) ∧
      (writeLinesFrom w lang next start (pre ++ e :: after) none).texts = front ++ ts ++ back := by
  induction pre generalizing start with
  | nil =>
    obtain ⟨e',ts,hw,-⟩ := writeLinesFrom_ok ha
    exact ⟨[],_,e',ts,hw,by rw [nil_append,writeLinesFrom_eq hw]; rfl⟩
  | cons x pre ih =>
    obtain ⟨x',tx,hx,ha⟩ := writeLinesFrom_ok ha
    obtain ⟨front,back,e',ts,he,ht⟩ := ih ha
    rw [ite_self] at he
    refine ⟨tx ++ front,back,e',ts,he,?_⟩
    rw [cons_append,writeLinesFrom_eq hx]
    simp only [ht,append_assoc]

lemma writeComment_line {comment : Element} {ind : Int} (hst : standing .final comment = .ok (lang,ind))
  {pre after : List Element} (hln : ∀ x ∈ pre ++ e :: after, Settable x) {e' : Element} {hang : Int}
  (hr : respellLine lang e = .ok (e',some hang)) {w : Int} (hw : 0 < w) :
  (writeComment .final (some w) comment (.ofList (pre ++ e :: after))).fault = none ∧
    ∃ front filled back ending, fillLine (some w) (leader lang ind pre.isEmpty) (e'.text.getD "") hang =
        .ok filled ∧ (ending = [] ∨ ending = ["\n"]) ∧
      writeLine (some w) lang (leader lang ind pre.isEmpty) e = .ok (e',filled ++ ending) ∧
      (writeComment .final (some w) comment (.ofList (pre ++ e :: after))).texts =
        front ++ (filled ++ ending) ++ back := by
  obtain ⟨filled,hf⟩ := fillLine_ok hw (leader lang ind pre.isEmpty) (e'.text.getD "") hang
  have hwr := writeLine_ok_iff.mpr (.filled hr hf)
  have ha := writeLinesFrom_settable hw lang (leader lang ind false) (leader lang ind true) hln
  obtain ⟨front,back,e'',ts,hl,hs⟩ := writeLinesFrom_split ha
  have hsr : (if pre.isEmpty then leader lang ind true else leader lang ind false) =
      leader lang ind pre.isEmpty := by
    cases pre.isEmpty <;> rfl
  rw [hsr,hwr] at hl
  cases hl
  rw [writeComment_eq hst]
  dsimp only [Stream.ofList]
  rw [hs,← append_assoc,← append_assoc,append_assoc _ back]
  refine ⟨ha,_,filled,_,_,hf,?_,hwr,rfl⟩
  rw [ending]
  split
  · exact .inl rfl
  · exact .inr rfl

theorem line_text_kept_iff {comment : Element} {indent : Int}
    (hstand : standing .final comment = .ok (dialect, indent)) {before after : List Element}
    (hlines : ∀ x ∈ before ++ e :: after, Settable x) {s : String}
    (hs : e.attribute? "hanging" = some s) :
    ∃ e' hanging text, respellLine dialect e = .ok (e', some hanging) ∧ e'.text = some text ∧
      ∀ width : Int, ((leader dialect indent before.isEmpty ++
        spacesInt hanging).length : Int) < width →
        (writeComment .final (some width) comment (.ofList (before ++ e :: after))).fault = none ∧
        ∃ front texts back,
          writeLine (some width) dialect (leader dialect indent before.isEmpty) e =
            .ok (e', texts) ∧
          (writeComment .final (some width) comment (.ofList (before ++ e :: after))).texts =
            front ++ texts ++ back ∧
          (lettersShown (leader dialect indent before.isEmpty) texts = letters text.toList ↔
            ¬ Swallows width (leader dialect indent before.isEmpty) text hanging) := by
  obtain ⟨e', hanging, text, hrespelled, htext⟩ := respellLine_settable dialect (hlines e (by simp)) hs
  refine ⟨e', hanging, text, hrespelled, htext, fun width hwidth => ?_⟩
  obtain ⟨hleads, hfeed⟩ := unlettered_leader dialect indent before.isEmpty
  obtain ⟨hfault, front, filled, back, ending, hfill, hending, hwrite, hsplit⟩ :=
    writeComment_line hstand hlines hrespelled (by omega : 0 < width)
  obtain ⟨texts, hkeeps, hkept⟩ := fillLine_kept_iff hleads hfeed text hwidth
  rw [htext, Option.getD_some, hkeeps] at hfill
  obtain rfl := Except.ok.inj hfill
  exact ⟨hfault, front, _, back, hwrite, hsplit, hkept ending hending⟩

def marginComment : Element :=
  { tag := "comment", attributes := [("source",.text "a.h"),("indentStart",.text "0")] }

def logicalLine (text : String) : Element :=
  { tag := "output", attributes := [("hanging",.text "0")], text := some text }

lemma settable_logicalLine (text : String) : Settable (logicalLine text) :=
  ⟨rfl,fun _ hs => ⟨0,Option.some.inj hs ▸ ok_of_toOption (by with_unfolding_all rfl)⟩⟩

theorem line_text_kept_below_command : standing .final marginComment = .ok (.plain, 0) ∧
    (∀ x ∈ [logicalLine "Size"] ++ logicalLine "@param size in bytes of the buffer" :: [],
      Settable x) ∧
    ∃ e' texts, writeLine (some 24) .plain (leader .plain 0 false)
        (logicalLine "@param size in bytes of the buffer") = .ok (e', texts) ∧
      lettersShown (leader .plain 0 false) texts =
        letters "@param size in bytes of the buffer".toList := by
  have hstand : standing .final marginComment = .ok (.plain, 0) := ok_of_toOption (by decide +kernel)
  have hlines : ∀ x ∈ [logicalLine "Size"] ++ logicalLine "@param size in bytes of the buffer" :: [],
      Settable x := by
    simp [settable_logicalLine]
  refine ⟨hstand, hlines, ?_⟩
  obtain ⟨e', hanging, text, hrespelled, htext, hwidths⟩ := line_text_kept_iff hstand hlines rfl
  have hsame : (respellLine .plain (logicalLine "@param size in bytes of the buffer")).toOption.map
      (fun r => (r.1.text, r.2)) = some (some "@param size in bytes of the buffer", some 12) := by
    decide +kernel
  rw [hrespelled] at hsame
  obtain ⟨hsameText, hsameHanging⟩ := Prod.mk.inj (Option.some.inj hsame)
  obtain rfl := Option.some.inj (htext.symm.trans hsameText)
  obtain rfl := Option.some.inj hsameHanging
  obtain ⟨-, -, texts, -, hwrite, -, hkept⟩ := hwidths 24 (by decide +kernel)
  have hfill : fill 24 (leader .plain 0 false ++ spacesInt 12)
        (leader .plain 0 false ++ "@param size in bytes of the buffer") =
      .ok [" * @param size in bytes", " *             of the", " *             buffer"] :=
    ok_of_toOption (by decide +kernel)
  refine ⟨e', texts, hwrite, hkept.mpr ?_⟩
  rw [isEmpty_cons, swallows_iff hfill]
  decide +kernel

theorem bare_command_is_lost : standing .final marginComment = .ok (.plain, 0) ∧
    Settable (logicalLine "@return ") ∧
    (respellLine .plain (logicalLine "@return ")).toOption.map (fun r => (r.1.text, r.2)) =
      some (some "@return ", some 8) ∧ (leader .plain 0 true ++ spacesInt 8).length < 80 ∧
    (writeComment .final (some 80) marginComment (.ofList [logicalLine "@return "])).texts =
      ["/**         ", "\n", "\n", " ", "*/"] ∧
    (writeLine (some 80) .plain (leader .plain 0 true) (logicalLine "@return ")).toOption.map
      Prod.snd =
      some ["/**         ", "\n"] ∧
    lettersShown (leader .plain 0 true) ["/**         ", "\n"] ≠ letters "@return ".toList :=
  ⟨ok_of_toOption (by decide +kernel), settable_logicalLine _, by decide +kernel, by decide +kernel,
    by decide +kernel, by decide +kernel, by decide +kernel⟩

end

end Docweave.Tree
