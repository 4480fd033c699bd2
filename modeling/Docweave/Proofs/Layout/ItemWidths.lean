import Docweave.Proofs.Layout.Widths

namespace Docweave

open List
open String (toList_ofList ofList length_toList join join_cons toList_append join_append)

namespace Text

def Unbroken (cs : List Char) : Prop := ∀ c ∈ cs, isLineBreak c = false

structure Narrow (bound : Int) (line : List Char) : Prop where
  unbroken : Unbroken line
  length_le : (line.length : Int) ≤ bound

def lined (line : List Char) (lines : List (List Char)) : List Char := line ++ lines.flatMap ('\n' :: ·)

def Fits (first rest : Int) (cs : List Char) : Prop :=
  ∃ line lines, cs = lined line lines ∧ Narrow first line ∧ ∀ l ∈ lines, Narrow rest l

variable {line next lead cs ds : List Char} {ls : List (List Char)} {first rest bound : Int}

lemma unbroken_append : Unbroken (cs ++ ds) ↔ Unbroken cs ∧ Unbroken ds := forall_mem_append

lemma unbroken_nil : Unbroken [] := forall_mem_nil _

lemma unbroken_of_all (h : cs.all (!isLineBreak ·)) : Unbroken cs := by
  simpa [Unbroken] using h

lemma displayLinesFrom_unbroken (acc rest : List Char) (h : Unbroken line) :
  displayLinesFrom acc (line ++ rest) = displayLinesFrom (line.reverse ++ acc) rest := by
  induction line generalizing acc with
  | nil => rfl
  | cons c line ih =>
    obtain ⟨hc,hl⟩ := forall_mem_cons.mp h
    have hr : c ≠ '\r' := by
      rintro rfl
      exact absurd hc (by decide)
    rw [cons_append,displayLinesFrom.eq_4 _ _ _ (fun _ h _ => hr h),hc,if_neg Bool.false_ne_true,ih _ hl]
    simp

lemma displayLines_feed (rest : List Char) (h : Unbroken line) :
  displayLines (line ++ '\n' :: rest) = ⟨line,['\n']⟩ :: displayLines rest := by
  rw [displayLines,displayLinesFrom_unbroken _ _ h,
    displayLinesFrom.eq_4 _ _ _ (fun _ h _ => absurd h (by decide)),if_pos (by decide),displayLines]
  simp

lemma displayLines_unbroken (hne : line ≠ []) (h : Unbroken line) : displayLines line = [⟨line,[]⟩] := by
  have hs := displayLinesFrom_unbroken [] [] h
  rw [append_nil,append_nil,displayLinesFrom.eq_2 _ (by simpa using hne),reverse_reverse] at hs
  exact hs

lemma body_displayLinesFrom (acc cs : List Char) (h : Unbroken acc) :
  ∀ l ∈ displayLinesFrom acc cs, Unbroken l.body := by
  unfold Unbroken at *
  fun_induction displayLinesFrom acc cs with
  | case1 => exact forall_mem_nil _
  | case2 => simpa using h
  | case3 acc rest ih => simpa using ⟨h,ih (forall_mem_nil _)⟩
  | case4 acc c rest _ hc ih => simpa using ⟨h,ih (forall_mem_nil _)⟩
  | case5 acc c rest _ hc ih => exact ih (forall_mem_cons.mpr ⟨by simpa using hc,h⟩)

lemma lined_cons : lined line (next :: ls) = line ++ '\n' :: lined next ls := rfl

lemma intercalate_lines : ['\n'].intercalate (line :: ls) = lined line ls := by
  induction ls generalizing line with
  | nil => simp [lined]
  | cons next ls ih => simp [lined_cons,← ih]

lemma splitOn_lined (hli : Unbroken line) (hln : ∀ l ∈ ls, Unbroken l) :
  (lined line ls).splitOn '\n' = line :: ls := by
  rw [← intercalate_lines]
  refine splitOn_intercalate _ (fun l hl hf => ?_) (cons_ne_nil _ _)
  exact absurd (forall_mem_cons.mpr ⟨hli,hln⟩ l hl _ hf) (by decide)

lemma Narrow.mono {bound' : Int} (h : Narrow bound line) (hle : bound ≤ bound') : Narrow bound' line :=
  ⟨h.unbroken,h.length_le.trans hle⟩

lemma Narrow.after (h : Narrow bound line) (hl : Unbroken lead) : Narrow (lead.length + bound)
    (lead ++ line) := by
  refine ⟨unbroken_append.mpr ⟨hl,h.unbroken⟩,?_⟩
  have hle := h.length_le
  rw [length_append]
  omega

lemma narrow_nil (hb : 0 ≤ bound) : Narrow bound [] := ⟨unbroken_nil,hb⟩

lemma Narrow.fits (h : Narrow first line) : Fits first rest line := ⟨line,[],by simp [lined],h,forall_mem_nil _⟩

lemma Fits.feed (h : Fits first rest cs) (hd : Fits rest rest ds) : Fits first rest (cs ++ '\n' :: ds) := by
  obtain ⟨line,ls,rfl,hln,hl⟩ := h
  obtain ⟨next,more,rfl,hn,hm⟩ := hd
  refine ⟨line,ls ++ next :: more,by simp [lined],hln,?_⟩
  exact forall_mem_append.mpr ⟨hl,forall_mem_cons.mpr ⟨hn,hm⟩⟩

lemma Fits.after (h : Fits first rest cs) (hld : Unbroken lead) :
    Fits (lead.length + first) rest (lead ++ cs) := by
  obtain ⟨line,ls,rfl,hln,hl⟩ := h
  exact ⟨lead ++ line,ls,by simp [lined],hln.after hld,hl⟩

lemma Fits.mono {first' rest' : Int} (h : Fits first rest cs) (hf : first ≤ first') (hr : rest ≤ rest') :
  Fits first' rest' cs := by
  obtain ⟨line,ls,hln,hli,hls⟩ := h
  exact ⟨line,ls,hln,hli.mono hf,fun l hl => (hls l hl).mono hr⟩

lemma Fits.over (h : Fits first rest cs) (hd : Fits rest rest ds) (hr : 0 ≤ rest) (n : Nat) :
  Fits first rest (cs ++ (replicate (n + 1) '\n' ++ ds)) := by
  refine h.feed ?_
  induction n with
  | zero => exact hd
  | succ n ih => exact (narrow_nil hr).fits.feed ih

def leadAll (lead cs : List Char) : List Char := (displayLines cs).flatMap fun l => lead ++ l.whole

lemma Fits.leadAll (h : Fits first rest cs) (hld : Unbroken lead) :
  Fits (lead.length + first) (lead.length + rest) (leadAll lead cs) := by
  obtain ⟨line,ls,rfl,hl,hln⟩ := h
  induction ls generalizing line first with
  | nil =>
    rw [lined,flatMap_nil,append_nil,Text.leadAll]
    by_cases hne : line = []
    · have hfr : 0 ≤ first := by simpa [hne] using hl.length_le
      rw [hne]
      exact (narrow_nil (by omega)).fits
    · rw [displayLines_unbroken hne hl.unbroken,flatMap_singleton,DisplayLine.whole,append_nil]
      exact (hl.after hld).fits
  | cons next ls ih =>
    obtain ⟨hn,hm⟩ := forall_mem_cons.mp hln
    have hf : Text.leadAll lead (lined line (next :: ls)) =
        lead ++ line ++ '\n' :: Text.leadAll lead (lined next ls) := by
      simp [Text.leadAll,lined_cons,displayLines_feed _ hl.unbroken,DisplayLine.whole]
    rw [hf]
    exact (hl.after hld).fits.feed (ih next hn hm)

def leadLater (lead cs : List Char) : List Char :=
  match displayLines cs with
  | [] => []
  | l :: ls => l.whole ++ ls.flatMap fun l => lead ++ l.whole

lemma leadLater_lined (hl : Unbroken line) (hld : Unbroken lead) (hln : ∀ l ∈ ls, Narrow rest l) :
  ∃ later, leadLater lead (lined line ls) = lined line later ∧ ∀ l ∈ later, Narrow (lead.length + rest) l := by
  cases ls with
  | nil =>
    refine ⟨[],?_,forall_mem_nil _⟩
    rw [lined,flatMap_nil,append_nil,leadLater]
    by_cases hne : line = []
    · rw [hne]
      rfl
    · rw [displayLines_unbroken hne hl]
      simp [DisplayLine.whole]
  | cons next more =>
    obtain ⟨hn,hm⟩ := forall_mem_cons.mp hln
    obtain ⟨line',later,hle,hl',hlt⟩ := Fits.leadAll ⟨next,more,rfl,hn,hm⟩ hld
    refine ⟨line' :: later,?_,forall_mem_cons.mpr ⟨hl',hlt⟩⟩
    rw [lined_cons,lined_cons,← hle,leadLater,displayLines_feed _ hl]
    simp [DisplayLine.whole,leadAll]

lemma Fits.leadLater (h : Fits first rest cs) (hld : Unbroken lead) :
  Fits first (lead.length + rest) (leadLater lead cs) := by
  obtain ⟨line,ls,rfl,hl,hls⟩ := h
  obtain ⟨later,hln,hlt⟩ := leadLater_lined hl.unbroken hld hls
  exact ⟨line,later,hln,hl,hlt⟩

lemma unbroken_of_not_blank {c : Char} (h : isBlank c = false) : isLineBreak c = false := by
  simp only [isBlank,inRanges] at h
  simp only [isLineBreak,inRanges]
  grind

lemma unbroken_spaces (n : Nat) : Unbroken (spaces n).toList := by
  intro c hc
  rw [spaces,toList_ofList] at hc
  rw [eq_of_mem_replicate hc]
  decide

lemma mem_expandTabsFrom {size col : Nat} {c : Char} (h : c ∈ expandTabsFrom size col cs) :
    c = ' ' ∨ c ∈ cs := by
  fun_induction expandTabsFrom size col cs with
  | case1 => cases h
  | case2 col rest wd ih =>
    rcases mem_append.mp h with h | h
    · exact .inl (eq_of_mem_replicate h)
    · exact (ih h).imp_right (mem_cons_of_mem _)
  | case3 col c' rest _ ih =>
    rcases mem_cons.mp h with rfl | h
    · exact .inr mem_cons_self
    · exact (ih h).imp_right (mem_cons_of_mem _)

lemma fill_unbroken {wd : Int} {ind text : String} {filled : List String} (h : fill wd ind text = .ok filled)
  (hi : Unbroken ind.toList) (ht : Unbroken text.toList) : ∀ line ∈ filled, Unbroken line.toList := by
  intro line hl c hc
  rcases Tree.mem_fill h line hl c hc with hc | hc
  · exact hi c hc
  obtain ⟨c,he,rfl⟩ := mem_map.mp hc
  split
  · decide
  · rcases mem_expandTabsFrom he with rfl | hm
    · decide
    · exact ht c hm

lemma fits_intercalate {filled : List String} (hb : 0 ≤ bound) (h : ∀ line ∈ filled, Narrow bound line.toList) :
  Fits bound bound (String.intercalate "\n" filled).toList := by
  cases filled with
  | nil => exact (narrow_nil hb).fits
  | cons line filled =>
    obtain ⟨hln,hl⟩ := forall_mem_cons.mp h
    exact ⟨_,_,String.toList_intercalate.trans intercalate_lines,hln,forall_mem_map.mpr hl⟩

end Text

namespace Node

open Text

variable {w bound : Int} {texts ts : List String}

lemma joinSpans_fits (w : Int) {trait : Trait} {ind : Nat}
  (ht : trait = .none ∧ ind = 0 ∨ trait = .hanging ind) (ts : List String) :
  ∃ text, joinSpans (some w) trait ts = .ok text ∧ Fits (max w (ind + 1)) (max w (ind + 1)) text.toList := by
  obtain ⟨joined,hj⟩ : ∃ joined : String, joinSpans (some w) trait ts = (do
      return String.intercalate "\n" (← fill (max 1 w) (spaces ind) (String.intercalate " "
        ((displayLines joined.toList).map fun l => ofList l.body)))) := by
    rcases ht with ⟨rfl,rfl⟩ | rfl
    · exact ⟨_,rfl⟩
    · exact ⟨_,rfl⟩
  have hbd : Unbroken (String.intercalate " " ((displayLines joined.toList).map fun l =>
    ofList l.body)).toList := by
    intro c hc
    by_cases hs : c = ' '
    · rw [hs]
      decide
    rw [String.toList_intercalate,map_map] at hc
    obtain ⟨_,hb,hm⟩ := (mem_intercalate_iff hs).mp hc
    obtain ⟨l,hl,rfl⟩ := mem_map.mp hb
    rw [Function.comp_apply,toList_ofList] at hm
    exact body_displayLinesFrom [] _ unbroken_nil l hl c hm
  obtain ⟨filled,hf⟩ : ∃ filled, fill (max 1 w) (spaces ind) (String.intercalate " "
      ((displayLines joined.toList).map fun l => ofList l.body)) = .ok filled := by
    rw [fill,if_neg (by omega)]
    exact ⟨_,rfl⟩
  have hln : (spaces ind).length = ind := by simp [spaces]
  refine ⟨_,by rw [hj,hf]; rfl,fits_intercalate (by omega) fun l hl => ?_⟩
  refine ⟨fill_unbroken hf (unbroken_spaces ind) hbd l hl,?_⟩
  have hle := length_fill_le hf l hl
  rw [length_toList]
  omega

inductive IsSpan : Node → Prop
  | text (s : String) : IsSpan (.text s)
  | leaf (kind : SpanKind) (trait : Trait) (s : String) : IsSpan (.item none (some (.span kind)) trait (.text s))
  | nest {kind : SpanKind} {trait : Trait} {ns : List Node} (hkind : kind ≠ .text) (hins : ∀ n ∈ ns, IsSpan n) :
      IsSpan (.item none (some (.span kind)) trait (.nodes ns))

inductive IsProse : BlockKind → Nat → Node → Prop
  | paragraph {depth : Nat} {ns : List Node} (hne : ns ≠ []) (hspans : ∀ n ∈ ns, IsSpan n) :
      IsProse .paragraph depth (.block .paragraph .none ns)
  | list {depth : Nat} {ordered : Bool} {ns : List Node} (hcount : ordered = true → ns.length ≤ 999)
      (hmembers : ∀ n ∈ ns, IsProse .listItem depth n) : IsProse .list depth (.block .list (.ordered ordered) ns)
  | member {depth : Nat} {ns : List Node} (hne : ns ≠ []) (hitems : ∀ n ∈ ns, n.isItem = true)
      (hspans : ∀ n ∈ ns, n.blockKind? = none → IsSpan n)
      (hblks : ∀ n ∈ ns, ∀ k, n.blockKind? = some k → IsProse k depth n) :
      IsProse .listItem (depth + 1) (.block .listItem .none ns)

def spanText (n : Node) : Except Fault String :=
  match n.bareText? with
  | some s => .ok s
  | none => output false none n

lemma spanTexts_cons (n : Node) (ns : List Node) :
    spanTexts (n :: ns) = (do return (← n.spanText) :: (← spanTexts ns)) := by
  rw [spanTexts,spanText]
  cases n.bareText? <;> rfl

lemma outputNodes_span {wd : Option Int} {pending : Option (List String)} {n : Node}
    {ns : List Node} {text : String}
  (hk : ¬ n.blockKind?.isSome) (h : n.spanText = .ok text) :
  outputNodes wd pending (n :: ns) = outputNodes wd (some (pending.getD [] ++ [text])) ns := by
  rw [outputNodes,if_neg hk]
  rw [spanText] at h
  cases hb : n.bareText? with
  | some s =>
    rw [hb] at h
    obtain rfl := Except.ok.inj h
    rfl
  | none =>
    rw [hb] at h
    change (do outputNodes wd (some (pending.getD [] ++ [← output false none n])) ns) = _
    rw [show output false none n = .ok text from h]
    rfl

lemma spanTexts_ok {ns : List Node} (h : ∀ n ∈ ns, ∃ text, n.spanText = .ok text) : ∃ ts,
    spanTexts ns = .ok ts := by
  induction ns with
  | nil => exact ⟨[],by rw [spanTexts]⟩
  | cons n ns ih =>
    obtain ⟨⟨text,htx⟩,hr⟩ := forall_mem_cons.mp h
    obtain ⟨ts,ht⟩ := ih hr
    rw [spanTexts_cons,htx,ht]
    exact ⟨_,rfl⟩

lemma output_span (kind : SpanKind) (trait : Trait) {contents : Contents} {text : String}
  (h : outputSpans none .none contents = .ok text) :
  ∃ shown, (Node.item none (some (.span kind)) trait contents).spanText = .ok shown := by
  show ∃ shown, output false none _ = .ok shown
  rw [output,h]
  cases kind <;> exact ⟨_,rfl⟩

lemma IsSpan.spanText_ok {n : Node} (h : IsSpan n) : n.blockKind? = none ∧ ∃ text, n.spanText = .ok text := by
  induction h with
  | text s => exact ⟨rfl,s,rfl⟩
  | leaf kind trait s =>
    have hs : outputSpans none .none (.text s) = .ok (join [dropNewlines s]) := by
      rfl
    exact ⟨rfl,output_span kind trait hs⟩
  | @nest kind trait ns _ _ ih =>
    obtain ⟨ts,ht⟩ := spanTexts_ok fun n hn => (ih n hn).2
    refine ⟨rfl,?_⟩
    cases ts with
    | nil => exact output_span kind trait (by rw [outputSpans,ht]; rfl)
    | cons text ts => exact output_span kind trait (by rw [outputSpans,ht]; rfl)

def Prints (w first rest : Int) (n : Node) : Prop :=
  ∃ body ends, (∀ isLast, output isLast (some w) n = .ok (body ++ if isLast then "" else newlines (ends + 1))) ∧
    Fits first rest body.toList

lemma outputNodes_fits {ns : List Node} (hbn : max 1 w ≤ bound) (hs : ∀ n ∈ ns, n.blockKind? = none → IsSpan n)
  (hb : ∀ n ∈ ns, n.blockKind?.isSome → Prints w bound bound n) (pending : Option (List String)) :
  ∃ ts, outputNodes (some w) pending ns = .ok ts ∧ Fits bound bound (join ts).toList := by
  have hjn (ts : List String) : ∃ text, joinSpans (some w) .none ts = .ok text ∧
    Fits bound bound text.toList := by
    obtain ⟨text,ht,hf⟩ := joinSpans_fits w (.inl ⟨rfl,rfl⟩) ts
    exact ⟨text,ht,hf.mono (by omega) (by omega)⟩
  induction ns generalizing pending with
  | nil =>
    cases pending with
    | none => exact ⟨[],by rw [outputNodes],(narrow_nil (by omega)).fits⟩
    | some ts =>
      obtain ⟨text,ht,hf⟩ := hjn ts
      exact ⟨[text],by rw [outputNodes,ht]; rfl,by simpa [join_cons] using hf⟩
  | cons n ns ih =>
    obtain ⟨hsp,hs⟩ := forall_mem_cons.mp hs
    obtain ⟨hbl,hb⟩ := forall_mem_cons.mp hb
    by_cases hk : n.blockKind?.isSome = true
    · obtain ⟨body,ends,hbd,hf⟩ := hbl hk
      obtain ⟨ts,htx,hr⟩ := ih hs hb none
      have hj : Fits bound bound (join ((body ++ if ns.isEmpty then "" else newlines
        (ends + 1)) :: ts)).toList := by
        cases ns with
        | nil =>
          cases htx
          simpa [join_cons] using hf
        | cons m ns => simpa [newlines] using hf.over hr (by omega) ends
      rw [outputNodes,if_pos hk]
      cases pending with
      | none =>
        refine ⟨_,by rw [hbd,htx]; rfl,?_⟩
        exact hj
      | some before =>
        obtain ⟨text,ht,hp⟩ := hjn before
        refine ⟨_,by dsimp only; rw [ht,hbd,htx]; rfl,?_⟩
        simpa [join_cons] using hp.feed hj
    · obtain ⟨-,text,ht⟩ := (hsp (by simpa using hk)).spanText_ok
      obtain ⟨ts,htx,hf⟩ := ih hs hb (some (pending.getD [] ++ [text]))
      exact ⟨ts,by rw [outputNodes_span hk ht,htx],hf⟩

lemma length_listMark {ord : Bool} {idx : Nat} (h : ord → idx < 999) : (listMark ord idx).length = 4 := by
  have hm : (markText ord idx).length ≤ 4 := length_markText_le (by decide) fun ho => by
    have hi := h ho
    omega
  show (markText ord idx ++ spaces (4 - (markText ord idx).length)).length = 4
  rw [String.length_append,spaces,String.length_ofList,length_replicate]
  omega

lemma unbroken_listMark (ord : Bool) (idx : Nat) : Unbroken (listMark ord idx).toList := by
  show Unbroken (markText ord idx ++ spaces (4 - (markText ord idx).length)).toList
  rw [toList_append,unbroken_append]
  refine ⟨fun c hc => ?_,unbroken_spaces _⟩
  rcases mem_markText hc with hc | rfl | rfl
  · exact unbroken_of_not_blank (not_isBlank_of_isDigit hc)
  · decide
  · decide

lemma markMembers_fits {ord : Bool} {ns : List Node} {idx : Nat} (hbn : 0 ≤ bound)
    (hc : ord → idx + ns.length ≤ 999)
  (hm : ∀ n ∈ ns, n.blockKind?.isSome ∧ Prints w (bound - 4) bound n) :
  ∃ ts marked, outputNodes (some w) none ns = .ok ts ∧
    markMembers (.ordered ord) idx ts = .ok marked ∧ Fits bound bound (join marked).toList := by
  induction ns generalizing idx with
  | nil => exact ⟨[],[],by rw [outputNodes],by rw [markMembers],(narrow_nil (by omega)).fits⟩
  | cons n ns ih =>
    obtain ⟨⟨hk,body,ends,hb,hft⟩,hm⟩ := forall_mem_cons.mp hm
    rw [length_cons] at hc
    obtain ⟨ts,marked,ht,hmk,hr⟩ := @ih (idx + 1) (fun h => by have := hc h; omega) hm
    have hf := hft.after (unbroken_listMark ord idx)
    rw [length_toList,length_listMark (fun h => by have := hc h; omega)] at hf
    refine ⟨_,_,by rw [outputNodes,if_pos hk]; dsimp only; rw [hb,ht]; rfl,by rw [nil_append,markMembers,hmk]; rfl,?_⟩
    cases ns with
    | nil =>
      cases ht
      cases hmk
      simpa [join_cons] using hf.mono (by omega) le_rfl
    | cons m ns =>
      have ha := (hf.mono (show _ ≤ bound by omega) le_rfl).over hr (by omega) ends
      simpa [newlines] using ha

lemma prints_paragraph {ns : List Node} (hs : ∀ n ∈ ns, IsSpan n) {trait : Trait} {ind : Nat}
  (htr : trait = .none ∧ ind = 0 ∨ trait = .hanging ind) (w : Int) :
  Prints w (max w (ind + 1)) (max w (ind + 1)) (.item (some .paragraph) none trait (.nodes ns)) := by
  obtain ⟨ts,ht⟩ := spanTexts_ok fun n hn => (hs n hn).spanText_ok.2
  obtain ⟨text,htx,hf⟩ := joinSpans_fits (max 1 w) htr ts
  refine ⟨text,1,fun isLast => ?_,hf.mono (by omega) (by omega)⟩
  rw [output,outputSpans,ht]
  show (joinSpans (some (max 1 w)) trait ts >>= fun t => pure _) = _
  rw [htx]
  rfl

lemma toList_hangLines (text : String) : (hangLines text).toList = leadLater (spaces 4).toList text.toList := by
  rw [hangLines,leadLater]
  cases displayLines text.toList with
  | nil => rfl
  | cons l ls => exact toList_ofList

lemma IsProse.prints {kind : BlockKind} {depth : Nat} {n : Node} (h : IsProse kind depth n) (w : Int) :
    n.blockKind? = some kind ∧
      Prints w (max w (4 * depth + 1) - if kind = .listItem then 4 else 0) (max w (4 * depth + 1)) n := by
  induction h generalizing w with
  | @paragraph depth ns hne hs =>
    obtain ⟨text,ends,ho,hf⟩ := prints_paragraph hs (.inl ⟨rfl,rfl⟩) w
    exact ⟨rfl,text,ends,ho,hf.mono (by simp; omega) (by simp; omega)⟩
  | @list depth ord ns hc hm ih =>
    have hsm : max (max 1 (max 1 w)) (4 * depth + 1 : Int) = max w (4 * depth + 1) := by omega
    obtain ⟨texts,marked,ht,hmk,hf⟩ := @markMembers_fits (max 1 (max 1 w)) (max w (4 * depth + 1))
      ord ns 0 (by omega) (by simpa using hc) fun n hn => by
        obtain ⟨hkn,hp⟩ := ih n hn (max 1 (max 1 w))
        rw [hsm] at hp
        exact ⟨by rw [hkn]; rfl,hp⟩
    refine ⟨rfl,join marked,1,fun isLast => ?_,hf.mono (by simp) le_rfl⟩
    show (outputNodes (some (max 1 (max 1 w))) none ns >>= fun ts =>
      markMembers (.ordered ord) 0 ts >>= fun m => pure _) = _
    rw [ht]
    show (markMembers (.ordered ord) 0 texts >>= fun m => pure _) = _
    rw [hmk]
    rfl
  | @member depth ns hne hit hs hb ih =>
    have hsm : max (max 1 (max 1 w - 4)) (4 * depth + 1 : Int) = max w (4 * (depth + 1) + 1) - 4 := by omega
    obtain ⟨texts,ht,hf⟩ := @outputNodes_fits (max 1 (max 1 w - 4)) (max w (4 * (depth + 1) + 1) - 4) ns
      (by omega) hs (fun n hn hkn => by
        obtain ⟨k,hk⟩ := Option.isSome_iff_exists.mp hkn
        obtain ⟨-,text,ends,ho,hf⟩ := ih n hn k hk (max 1 (max 1 w - 4))
        refine ⟨text,ends,ho,hf.mono ?_ hsm.le⟩
        split
        · omega
        · omega) none
    obtain ⟨last,hl⟩ := getLast?_isSome.mpr hne |> Option.isSome_iff_exists.mp
    obtain ⟨ends,he⟩ : ∃ b, endsInParagraph (.nodes ns) = .ok b := by
      have hi := hit last (mem_of_getLast? hl)
      rw [endsInParagraph,hl]
      cases last with
      | item => exact ⟨_,rfl⟩
      | text s => cases hi
      | number n => cases hi
    have hh := @Fits.leadLater (spaces 4).toList _ _ _ hf (unbroken_spaces 4)
    rw [← toList_hangLines] at hh
    refine ⟨rfl,hangLines (join texts),if ends then 1 else 0,fun isLast => ?_,hh.mono ?_ ?_⟩
    · rw [block]
      show (outputNodes (some (max 1 (max 1 w - 4))) none ns >>= fun ts =>
        endsInParagraph (.nodes ns) >>= fun b => pure _) = _
      rw [ht]
      rw [he]
      cases ends <;> rfl
    · rw [if_pos rfl]
      omega
    · show (((4 : Nat) : Int) + _) ≤ _
      omega

def leadingText? : Node → Option String
  | .item (some .paragraph) _ _ (.nodes (.item _ (some (.span .text)) _ (.text s) :: _)) => some s
  | _ => none

end Node

namespace Comment.Block

open Text Node

variable {b : Block} {n : Node} {items : List Node} {room bound : Int} {depth : Nat}

lemma respellParagraph_prints {kind : BlockKind} (hp : IsProse kind depth n) (hk : kind ≠ .listItem)
  (hrm : room ≤ bound) (hd : (4 * depth + 1 : Int) ≤ bound)
  (hc : ∀ s head after, n.leadingText? = some s → Command.respell? b.dialect s = some (head,after) →
    (head.length + 1 : Int) ≤ bound) :
  ∃ n' printed, b.respellParagraph true n = (n',printed,none) ∧ n'.blockKind?.isSome ∧
    Prints room bound bound n' := by
  obtain ⟨hb,text,ends,ho,hf⟩ := hp.prints room
  have hs : n.blockKind?.isSome = true ∧ Prints room bound bound n :=
    ⟨by rw [hb]; rfl,text,ends,ho,hf.mono (by omega) (by omega)⟩
  cases hp with
  | member => exact absurd rfl hk
  | list => exact ⟨_,_,rfl,hs⟩
  | @paragraph _ ns hne hsp =>
    obtain ⟨first,rest,rfl⟩ := exists_cons_of_ne_nil hne
    have hu (h : ∀ fb ft contents, first ≠ .item fb (some (.span .text)) ft contents) :
        b.respellParagraph true (.block .paragraph .none (first :: rest)) =
          (.block .paragraph .none (first :: rest),"",none) := by
      refine respellParagraph.eq_5 _ _ _ _ _ (cons_ne_nil _ _) ?_ ?_
      · exact fun fb ft s rest hs => h fb ft _ (cons.inj hs).1
      · exact fun fb ft ns rest hs => h fb ft _ (cons.inj hs).1
    cases hsp first mem_cons_self with
    | text s => exact ⟨_,_,hu fun _ _ _ hs => (by cases hs),hs⟩
    | nest hk hi => exact ⟨_,_,hu fun _ _ _ hs => hk (by cases hs; rfl),hs⟩
    | leaf kind trait s =>
      by_cases ht : kind = .text
      · subst ht
        rw [Node.block,respellParagraph]
        cases hr : Command.respell? b.dialect s with
        | none => exact ⟨_,_,rfl,hs⟩
        | some spelt =>
          obtain ⟨head,after⟩ := spelt
          refine ⟨_,_,rfl,rfl,?_⟩
          obtain ⟨text,ends,ho,hf⟩ := prints_paragraph (forall_mem_cons.mpr
            ⟨.leaf .text trait (head ++ after),(forall_mem_cons.mp hsp).2⟩) (.inr rfl) room
          have hh := hc s head after rfl hr
          exact ⟨text,ends,ho,hf.mono (by omega) (by omega)⟩
      · exact ⟨_,_,hu fun _ _ _ hs => ht (by cases hs; rfl),hs⟩

structure HasRoom (b : Block) (depth : Nat) (items : List Node) (columns : Int) : Prop where
  depth : (4 * depth + 1 : Int) ≤ columns
  commands : ∀ n ∈ items, ∀ s head after, n.leadingText? = some s →
    Command.respell? b.dialect s = some (head,after) → (head.length + 1 : Int) ≤ columns

lemma respell_prints (hp : ∀ n ∈ items, IsProse .paragraph depth n ∨ IsProse .list depth n)
  (hr : room ≤ bound) (h : HasRoom b depth items bound) : (b.respell true items).fault = none ∧
    ∀ n ∈ (b.respell true items).items, n.blockKind?.isSome ∧ Prints room bound bound n := by
  obtain ⟨hd,hc⟩ := h
  induction items with
  | nil => exact ⟨rfl,forall_mem_nil _⟩
  | cons n items ih =>
    obtain ⟨hn,hp⟩ := forall_mem_cons.mp hp
    obtain ⟨hcm,hc⟩ := forall_mem_cons.mp hc
    obtain ⟨hf,hi⟩ := ih hp hc
    obtain ⟨n',printed,hrs,hpr⟩ : ∃ n' printed, b.respellParagraph true n = (n',printed,none) ∧
        n'.blockKind?.isSome = true ∧ Prints room bound bound n' := by
      rcases hn with hn | hn
      · exact respellParagraph_prints hn (by decide) hr hd hcm
      · exact respellParagraph_prints hn (by decide) hr hd hcm
    rw [respell,hrs]
    exact ⟨hf,forall_mem_cons.mpr ⟨hpr,hi⟩⟩

lemma toList_leadLines (b : Block) (leader text : String) :
    (join (b.leadLines leader text)).toList =
  if b.dialect.isSwift then leadAll leader.toList text.toList else leadLater
    (leader.toList ++ ['*',' ']) text.toList := by
  rw [leadLines,leadAll,leadLater]
  cases displayLines text.toList with
  | nil => simp
  | cons l ls => cases hs : b.dialect.isSwift <;> simp [flatMap_assoc]

lemma length_spacesInt (n : Int) : (spacesInt n).length = n.toNat := by simp [spacesInt,spaces]

section

variable {ind wd : Int} {text : String}

lemma closed_fits_iff (hcl : 0 ≤ ind) {first : List Char} {ls : List (List Char)} {ts : List String}
  (heq : (join ts).toList = lined first ls) (hf : Unbroken first) (hln : ∀ l ∈ ls, Narrow wd l) :
  (∀ line ∈ Tree.physicalLines (ts ++ ["\n",spacesInt (ind + 1),"*/"]), (line.length : Int) ≤ wd) ↔
    (first.length : Int) ≤ wd ∧ ind + 3 ≤ wd := by
  have hc : Unbroken (spacesInt (ind + 1) ++ "*/").toList := by
    rw [toList_append,unbroken_append]
    exact ⟨unbroken_spaces _,unbroken_of_all (by decide)⟩
  have ha : (join (ts ++ ["\n",spacesInt (ind + 1),"*/"])).toList =
      lined first (ls ++ [(spacesInt (ind + 1) ++ "*/").toList]) := by
    rw [join_append,toList_append,heq]
    simp [join_cons,lined]
  have hlg : ((spacesInt (ind + 1) ++ "*/").toList.length : Int) = ind + 3 := by
    rw [length_toList,String.length_append,length_spacesInt]
    show (((ind + 1).toNat + 2 : Nat) : Int) = ind + 3
    omega
  rw [Tree.physicalLines,ha,splitOn_lined hf
    (forall_mem_append.mpr ⟨fun l hl => (hln l hl).unbroken,forall_mem_singleton.mpr hc⟩),
    forall_mem_cons,forall_mem_append,forall_mem_singleton,hlg]
  exact ⟨fun h => ⟨h.1,h.2.2⟩,fun h => ⟨h.1,fun l hl => (hln l hl).length_le,h.2⟩⟩

lemma swift_fits_iff (hs : b.dialect = .swift) (hc : 0 ≤ ind)
  (hf : Fits (wd - (ind + 1)) (wd - (ind + 1)) text.toList) :
  (∀ line ∈ Tree.physicalLines (b.opened ind ++ b.leadLines (spacesInt (ind + 1)) text ++
      ["\n",spacesInt (ind + 1),"*/"]), (line.length : Int) ≤ wd) ↔ ind + 3 ≤ wd := by
  obtain ⟨line,ls,hld,hli,hln⟩ :=
    @Fits.leadAll (spacesInt (ind + 1)).toList _ _ _ hf (unbroken_spaces _)
  rw [length_toList,length_spacesInt] at hli hln
  have heq : (join (b.opened ind ++ b.leadLines (spacesInt (ind + 1)) text)).toList =
      lined (spacesInt ind ++ "/**").toList (line :: ls) := by
    rw [join_append,toList_append,toList_leadLines,hs,if_pos (by decide),hld,opened,hs]
    simp [Dialect.isSwift,lined]
  have ho : Unbroken (spacesInt ind ++ "/**").toList := by
    rw [toList_append,unbroken_append]
    exact ⟨unbroken_spaces _,unbroken_of_all (by decide)⟩
  rw [closed_fits_iff hc heq ho (forall_mem_cons.mpr ⟨hli.mono (by omega),
    fun l hl => (hln l hl).mono (by omega)⟩),length_toList,String.length_append,length_spacesInt]
  show ((ind.toNat + 3 : Nat) : Int) ≤ wd ∧ _ ↔ _
  omega

lemma plain_fits_iff (hp : b.dialect = .plain) (hc : 0 ≤ ind)
  (hft : Fits (wd - (ind + 3)) (wd - (ind + 3)) text.toList) :
  (∀ line ∈ Tree.physicalLines (b.opened ind ++ b.leadLines (spacesInt (ind + 1)) text ++
      ["\n",spacesInt (ind + 1),"*/"]), (line.length : Int) ≤ wd) ↔
    (((Tree.physicalLines [text]).headD []).length : Int) < wd - (ind + 3) := by
  obtain ⟨line,ls,ht,hln,hls⟩ := hft
  have hld : Unbroken ((spacesInt (ind + 1)).toList ++ ['*',' ']) :=
    unbroken_append.mpr ⟨unbroken_spaces _,unbroken_of_all (by decide)⟩
  obtain ⟨later,hle,hlt⟩ := leadLater_lined hln.unbroken hld hls
  have hf : (Tree.physicalLines [text]).headD [] = line := by
    rw [Tree.physicalLines]
    simp [ht,splitOn_lined hln.unbroken fun l hl => (hls l hl).unbroken]
  have heq : (join (b.opened ind ++ b.leadLines (spacesInt (ind + 1)) text)).toList =
      lined ((spacesInt ind ++ "/** ").toList ++ line) later := by
    rw [join_append,toList_append,toList_leadLines,hp,if_neg (by decide),ht,hle,opened,hp]
    simp [Dialect.isSwift,lined]
  have ho : Unbroken ((spacesInt ind ++ "/** ").toList ++ line) := by
    rw [toList_append,append_assoc,unbroken_append,unbroken_append]
    exact ⟨unbroken_spaces _,unbroken_of_all (by decide),hln.unbroken⟩
  rw [length_append,length_toList,length_spacesInt] at hlt
  rw [closed_fits_iff hc heq ho fun l hl => (hlt l hl).mono (by simp; omega)]
  rw [hf,length_append,length_toList,String.length_append,length_spacesInt]
  show ((ind.toNat + 4 + line.length : Nat) : Int) ≤ wd ∧ _ ↔ _
  omega

end

theorem block_fits_width_iff {indent width : Int} (hindent : b.indentStart = some indent)
    (hcolumn : 0 ≤ indent)
    (hitems : b.items = some items)
    (hprose : ∀ n ∈ items, IsProse .paragraph depth n ∨ IsProse .list depth n)
    (hroom : HasRoom b depth items (width - (indent + if b.dialect.isSwift then 1 else 3))) :
    ∃ outputs texts, outputAll (some (width - (indent + if b.dialect.isSwift then 2 else 3)))
          (.nodes (b.respell true items).items) = .ok outputs ∧
          (b.outputs (some width)).texts = .ok texts ∧
      ((∀ line ∈ Tree.physicalLines texts, (line.length : Int) ≤ width) ↔
        if b.dialect.isSwift then indent + 3 ≤ width
        else (((Tree.physicalLines outputs).headD []).length : Int) < width - (indent + 3)) := by
  have hbound : max 1 (width - (indent + if b.dialect.isSwift then 2 else 3)) ≤
      width - (indent + if b.dialect.isSwift then 1 else 3) := by
    have hdepth := hroom.depth
    split at hdepth <;> rename_i hswift
    · rw [if_pos hswift, if_pos hswift]
      omega
    · rw [if_neg hswift, if_neg hswift]
      omega
  obtain ⟨hfault, hprints⟩ := respell_prints hprose hbound hroom
  obtain ⟨outputs, houtputs, hfits⟩ := outputNodes_fits (max_le (le_of_max_le_left hbound) hbound)
    (fun n hn hkind => absurd (hprints n hn).1 (by rw [hkind]; simp)) (fun n hn _ => (hprints n hn).2) none
  have hall : outputAll (some (width - (indent + if b.dialect.isSwift then 2 else 3)))
      (.nodes (b.respell true items).items) = .ok outputs := by
    rw [outputAll]
    exact houtputs
  refine ⟨outputs, b.opened indent ++ b.leadLines (spacesInt (indent + 1)) (String.join outputs) ++
    ["\n", spacesInt (indent + 1), "*/"], hall, ?_, ?_⟩
  · simp only [Block.outputs, hindent, hitems, Option.isSome_some, hfault, Option.map_some, hall]
    rfl
  · have hjoined : Tree.physicalLines [String.join outputs] = Tree.physicalLines outputs := by
      simp [Tree.physicalLines, String.join_cons]
    cases hdialect : b.dialect with
    | swift =>
      rw [hdialect] at hfits
      exact swift_fits_iff hdialect hcolumn hfits
    | plain =>
      rw [hdialect] at hfits
      rw [← hjoined]
      exact plain_fits_iff hdialect hcolumn hfits

def proseBlock (indent : Int) (items : List Node) : Block where
  lines := []
  indentStart := some indent
  indentMiddle := none
  allHaveSymbol := true
  allIndented := true
  dialect := .plain
  source := "a.h"
  items := some items

def proseText (s : String) : Node := .item none (some (.span .text)) .none (.text s)

def octetItems : List Node :=
  [.block .paragraph .none [proseText "@return the size"],
    .block .list (.ordered true) [.block .listItem .none [proseText "of octets",.block .list (.ordered false)
      [.block .listItem .none [.block .paragraph .none [proseText "well-known octets"]]]]]]

lemma isProse_proseText (depth : Nat) (s : String) :
  IsProse .paragraph depth (.block .paragraph .none [proseText s]) :=
  .paragraph (cons_ne_nil _ _) (forall_mem_singleton.mpr (.leaf .text .none s))

lemma isProse_octetItems : ∀ n ∈ octetItems, IsProse .paragraph 2 n ∨ IsProse .list 2 n := by
  have hi : IsProse .list 1 (.block .list (.ordered false)
      [.block .listItem .none [.block .paragraph .none [proseText "well-known octets"]]]) := by
    refine .list (by simp) (forall_mem_singleton.mpr (.member (cons_ne_nil _ _) ?_ ?_ ?_))
    · simp [Node.block,isItem]
    · simp [Node.block,blockKind?]
    · refine forall_mem_singleton.mpr fun k hk => ?_
      cases hk
      exact isProse_proseText 0 _
  refine forall_mem_cons.mpr ⟨.inl (isProse_proseText 2 _),forall_mem_singleton.mpr (.inr ?_)⟩
  refine .list (by simp) (forall_mem_singleton.mpr (.member (cons_ne_nil _ _) ?_ ?_ ?_))
  · simp [Node.block,isItem,proseText]
  · refine forall_mem_cons.mpr ⟨fun _ => .leaf .text .none _,?_⟩
    simp [Node.block,blockKind?]
  · refine forall_mem_cons.mpr ⟨fun k hk => (by cases hk),forall_mem_singleton.mpr fun k hk => ?_⟩
    cases hk
    exact hi

lemma hasRoom_octetItems : HasRoom (proseBlock 2 octetItems) 2 octetItems 15 := by
  refine ⟨by decide,forall_mem_cons.mpr ⟨?_,forall_mem_singleton.mpr fun s head after h => (by cases h)⟩⟩
  intro s head after hs hr
  cases hs
  have hl : (Command.respell? .plain "@return the size").map (·.1.length) = some 8 := by decide +kernel
  rw [show Command.respell? .plain "@return the size" = some (head,after) from hr] at hl
  have hh : head.length = 8 := Option.some.inj hl
  rw [hh]
  decide

theorem block_fits_width_at_nested_list :
    (∀ n ∈ octetItems, IsProse .paragraph 2 n ∨ IsProse .list 2 n) ∧
      HasRoom (proseBlock 2 octetItems) 2 octetItems 15 ∧
      ∃ texts, ((proseBlock 2 octetItems).outputs (some 20)).texts = .ok texts ∧
        ∀ line ∈ Tree.physicalLines texts, (line.length : Int) ≤ 20 := by
  refine ⟨isProse_octetItems, hasRoom_octetItems, ?_⟩
  obtain ⟨outputs, texts, houtputs, htexts, hiff⟩ :=
    @block_fits_width_iff (proseBlock 2 octetItems) octetItems 2 2 20 rfl (by decide) rfl isProse_octetItems
      hasRoom_octetItems
  have hfirst : (outputAll (some 15) (.nodes ((proseBlock 2 octetItems).respell true
    octetItems).items)).toOption.map
      (fun outputs => ((Tree.physicalLines outputs).headD []).length) = some 11 := by
    decide +kernel
  rw [show outputAll (some 15) _ = _ from houtputs] at hfirst
  have hlength : ((Tree.physicalLines outputs).headD []).length = 11 := Option.some.inj hfirst
  refine ⟨texts, htexts, hiff.mpr ?_⟩
  rw [if_neg (by decide), hlength]
  decide

theorem block_exceeds_width_on_opening_line :
    let items := [.block .paragraph .none [proseText "abcdefg h"]]
    (∀ n ∈ items, IsProse .paragraph 0 n ∨ IsProse .list 0 n) ∧ HasRoom (proseBlock 0 items) 0 items 7 ∧
      ∃ texts, ((proseBlock 0 items).outputs (some 10)).texts = .ok texts ∧
        "/** abcdefg".toList ∈ Tree.physicalLines texts ∧ 10 < "/** abcdefg".toList.length := by
  intro items
  refine ⟨forall_mem_singleton.mpr (.inl (isProse_proseText 0 _)), ⟨by decide, ?_⟩,
    ["", "/**", " ", "abcdefg\n", " ", "* ", "h", "\n", " ", "*/"], ok_of_toOption (by decide +kernel),
    by decide +kernel, by decide⟩
  refine forall_mem_singleton.mpr fun s head after hs hrespelled => ?_
  obtain rfl := Option.some.inj hs
  have hnone : Command.respell? .plain "abcdefg h" = none := by decide +kernel
  rw [show Command.respell? .plain "abcdefg h" = _ from hrespelled] at hnone
  cases hnone

end Comment.Block

end Docweave
