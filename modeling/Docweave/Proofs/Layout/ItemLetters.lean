import Docweave.Proofs.Layout.ItemWidths

namespace Docweave

open List
open String (ofList join join_cons toList_append toList_ofList)

namespace Text

variable {lead : List Char}

lemma letters_leadAll (hl : letters lead = []) (cs : List Char) : letters (leadAll lead cs) = letters cs := by
  conv_rhs => rw [← flatten_displayLines cs,← flatMap_def]
  simp [leadAll,letters_flatMap,hl]

lemma letters_leadLater (hl : letters lead = []) (cs : List Char) :
    letters (leadLater lead cs) = letters cs := by
  conv_rhs => rw [← flatten_displayLines cs,← flatMap_def]
  rw [leadLater]
  cases displayLines cs with
  | nil => rfl
  | cons l ls => simp [letters_flatMap,hl]

lemma letters_ending (acc cs : List Char) : ∀ l ∈ displayLinesFrom acc cs, letters l.ending = [] := by
  have hbr (c : Char) (hc : isLineBreak c = true) : letters [c] = [] := letters_of_blank (by
    by_contra hb
    exact Bool.false_ne_true ((unbroken_of_not_blank (by simpa using hb)).symm.trans hc))
  fun_induction displayLinesFrom acc cs with
  | case1 => exact forall_mem_nil _
  | case2 => simp
  | case3 acc rest ih => exact forall_mem_cons.mpr ⟨by rfl,ih⟩
  | case4 acc c rest _ hc ih => exact forall_mem_cons.mpr ⟨hbr c hc,ih⟩
  | case5 acc c rest _ _ ih => exact ih

lemma letters_intercalate {sep : List Char} (hs : letters sep = []) (ls : List (List Char)) :
  letters (sep.intercalate ls) = letters ls.flatten := by
  induction ls with
  | nil => rfl
  | cons l ls ih =>
    cases ls with
    | nil => simp
    | cons m ls => simp [intercalate_cons_cons,hs,ih]

lemma letters_oneLine (cs : List Char) :
  letters (String.intercalate " " ((displayLines cs).map fun l => ofList l.body)).toList = letters cs := by
  conv_rhs => rw [← flatten_displayLines cs,← flatMap_def,letters_flatMap]
  rw [String.toList_intercalate,letters_intercalate (by decide),map_map,← flatMap_def,letters_flatMap]
  refine flatMap_congr fun l hl => ?_
  simp [DisplayLine.whole,letters_ending [] cs l hl]

lemma letters_indented_bodies {ind : String} (hi : letters ind.toList = []) (bodies : List (List Char)) :
  letters (String.intercalate "\n" ((indented ind.toList true bodies).map ofList)).toList =
    letters bodies.flatten := by
  rw [String.toList_intercalate,letters_intercalate (by decide),map_map,← flatMap_def,letters_flatMap]
  cases bodies with
  | nil => rfl
  | cons body bodies =>
    rw [flatten_cons,letters_append,← flatMap_id,letters_flatMap]
    simp [indented,flatMap_map,hi]

end Text

namespace Node

open Text

def dropFirstNewlines : List String → List String
  | [] => []
  | t :: ts => dropNewlines t :: ts

lemma letters_dropFirstNewlines (texts : List String) :
  letters (join (dropFirstNewlines texts)).toList = letters (join texts).toList := by
  cases texts with
  | nil => rfl
  | cons t ts =>
    have hb : letters (t.toList.takeWhile isNewline) = [] := letters_of_blank (all_eq_true.mpr fun c hc => by
      have hn := mem_takeWhile_imp hc
      rw [isNewline,Bool.or_eq_true,beq_iff_eq,beq_iff_eq] at hn
      rcases hn with rfl | rfl <;> decide)
    have hd := letters_append (t.toList.takeWhile isNewline) (t.toList.dropWhile isNewline)
    rw [takeWhile_append_dropWhile,hb,nil_append] at hd
    simp [dropFirstNewlines,join_cons,dropNewlines,hd]

lemma joinSpans_letters {trait : Trait} (ht : trait = .none ∨ ∃ n, trait = .hanging n) (width : Option Int)
  (ts : List String) : ∃ text, joinSpans width trait ts = .ok text ∧
    letters text.toList = letters (join ts).toList := by
  rw [← letters_dropFirstNewlines]
  cases width with
  | none => exact ⟨_,by cases ts <;> rfl,rfl⟩
  | some w =>
    obtain ⟨ind,hb,hj⟩ : ∃ ind : String, letters ind.toList = [] ∧
        joinSpans (some w) trait ts = (do return String.intercalate "\n" (← fill (max 1 w) ind
          (String.intercalate " " ((displayLines (join (dropFirstNewlines ts)).toList).map fun l =>
            ofList l.body)))) := by
      rcases ht with rfl | ⟨n,rfl⟩
      · exact ⟨"",rfl,by cases ts <;> rfl⟩
      · exact ⟨_,Tree.letters_spacesInt n,by cases ts <;> rfl⟩
    generalize join (dropFirstNewlines ts) = joined at hj
    obtain ⟨bodies,hf,hk⟩ := @fill_bodies (max 1 w) ind (String.intercalate " "
      ((displayLines joined.toList).map fun l => ofList l.body)) (by omega)
    refine ⟨_,by rw [hj,hf]; rfl,?_⟩
    rw [letters_indented_bodies hb,hk,letters_oneLine]

def spanMark : SpanKind → String
  | .emphasis => "*"
  | .strong => "**"
  | .code => "`"
  | .text | .html | .autolink => ""

def opening : Option BlockKind → Option ItemKind → Trait → String
  | _, some (.span kind), _ => spanMark kind
  | some .header, none, .fields (some level) _ => ofList (replicate level.toNat '#')
  | _, _, _ => ""

def closing : Option ItemKind → String
  | some (.span kind) => spanMark kind
  | _ => ""

def orderIn : Option BlockKind → Trait → Option Bool
  | some .list, .fields _ ordered => ordered
  | _, _ => none

mutual

def spelled : Node → List Char
  | .text s => letters s.toList
  | .number _ => []
  | .item block span trait contents =>
    (opening block span trait).toList ++ spelledIn (orderIn block trait) contents ++ (closing span).toList

def spelledIn (order : Option Bool) : Contents → List Char
  | .text s => letters s.toList
  | .nodes ns => spelledAll order 0 ns

def spelledAll (order : Option Bool) : Nat → List Node → List Char
  | _, [] => []
  | index, n :: ns =>
    (order.elim [] fun ordered => (markText ordered index).toList) ++ spelled n ++
      spelledAll order (index + 1) ns

end

def members : Contents → List Node
  | .text _ => []
  | .nodes ns => ns

def Suits (trait : Trait) (contents : Contents) : BlockKind → Prop
  | .header => ∃ level ordered, trait = .fields (some level) ordered
  | .paragraph => trait = .none ∨ ∃ n, trait = .hanging n
  | .list => (∃ level ordered, trait = .fields level (some ordered)) ∧
      ∃ ns, contents = .nodes ns ∧ ∀ n ∈ ns, n.blockKind? = some .listItem
  | .listItem => ∃ ns last, contents = .nodes (ns ++ [last]) ∧ last.isItem = true
  | .code => True
  | .included => False

inductive Sound : Node → Prop
  | text (s : String) : Sound (.text s)
  | span (kind : SpanKind) (trait : Trait) {contents : Contents} (h : ∀ n ∈ members contents, Sound n) :
      Sound (.item none (some (.span kind)) trait contents)
  | block {kind : BlockKind} {trait : Trait} {contents : Contents} (hsuits : Suits trait contents kind)
      (h : ∀ n ∈ members contents, Sound n) : Sound (.item (some kind) none trait contents)

def LettersKept (n : Node) : Prop :=
  (∃ text, n.spanText = .ok text ∧ letters text.toList = spelled n) ∧
    (n.isItem = true → ∀ isLast width, ∃ text, output isLast width n = .ok text ∧
      letters text.toList = spelled n)

section

variable {ns : List Node} {contents : Contents} {trait : Trait}

lemma spelledAll_none (idx : Nat) (ns : List Node) : spelledAll none idx ns = ns.flatMap spelled := by
  induction ns generalizing idx with
  | nil => rfl
  | cons n ns ih => simp [spelledAll,ih]

lemma spanTexts_kept (h : ∀ n ∈ ns, LettersKept n) :
  ∃ ts, spanTexts ns = .ok ts ∧ letters (join ts).toList = ns.flatMap spelled := by
  induction ns with
  | nil => exact ⟨[],by rw [spanTexts],rfl⟩
  | cons n ns ih =>
    obtain ⟨⟨⟨text,htx,hl⟩,-⟩,hr⟩ := forall_mem_cons.mp h
    obtain ⟨ts,ht,ha⟩ := ih hr
    refine ⟨text :: ts,by rw [spanTexts_cons,htx,ht]; rfl,?_⟩
    rw [join_cons,toList_append,letters_append,hl,ha,flatMap_cons]

lemma outputSpans_kept (htr : trait = .none ∨ ∃ n, trait = .hanging n) (w : Option Int)
  (h : ∀ n ∈ members contents, LettersKept n) :
  ∃ text, outputSpans w trait contents = .ok text ∧ letters text.toList = spelledIn none contents := by
  cases contents with
  | text s =>
    obtain ⟨text,ht,hl⟩ := joinSpans_letters htr w [s]
    exact ⟨text,by rw [outputSpans,ht],by simpa [spelledIn] using hl⟩
  | nodes ns =>
    obtain ⟨ts,htx,ha⟩ := @spanTexts_kept ns h
    obtain ⟨text,ht,hl⟩ := joinSpans_letters htr w ts
    exact ⟨text,by rw [outputSpans,htx]; exact ht,by rw [hl,ha,spelledIn,spelledAll_none]⟩

lemma outputNodes_kept (w : Option Int) (h : ∀ n ∈ ns, LettersKept n) (pending : Option (List String)) :
  ∃ ts, outputNodes w pending ns = .ok ts ∧
    letters (join ts).toList = letters (join (pending.getD [])).toList ++ ns.flatMap spelled := by
  have hj := joinSpans_letters (.inl rfl) w
  induction ns generalizing pending with
  | nil =>
    cases pending with
    | none => exact ⟨[],by rw [outputNodes],rfl⟩
    | some ts =>
      obtain ⟨text,ht,hl⟩ := hj ts
      exact ⟨[text],by rw [outputNodes,ht]; rfl,by simpa [join_cons] using hl⟩
  | cons n ns ih =>
    obtain ⟨⟨⟨text,ht,hl⟩,hi⟩,hr⟩ := forall_mem_cons.mp h
    by_cases hk : n.blockKind?.isSome = true
    · obtain ⟨body,hb,hl⟩ := hi (by cases n <;> first | rfl | cases hk) ns.isEmpty w
      obtain ⟨ts,htx,ha⟩ := ih hr none
      rw [outputNodes,if_pos hk,hb,htx]
      cases pending with
      | none => exact ⟨_,rfl,by simpa [join_cons,hl] using ha⟩
      | some before =>
        obtain ⟨text,ht,hp⟩ := hj before
        refine ⟨_,by dsimp only; rw [ht]; rfl,?_⟩
        have hf : letters "\n".toList = [] := by decide
        simp only [singleton_append,join_cons,toList_append,letters_append,hp,hf,hl,ha,append_nil,flatMap_cons]
        rfl
    · obtain ⟨ts,htx,ha⟩ := ih hr (some (pending.getD [] ++ [text]))
      refine ⟨ts,?_,by simpa [String.join_append,hl] using ha⟩
      rw [outputNodes_span hk ht,htx]

lemma outputAll_kept (w : Option Int) (h : ∀ n ∈ members contents, LettersKept n) :
  ∃ ts, outputAll w contents = .ok ts ∧ letters (join ts).toList = spelledIn none contents := by
  cases contents with
  | text s =>
    obtain ⟨text,htx,hl⟩ := joinSpans_letters (.inl rfl) (atLeastOne w) [s]
    exact ⟨[text],by rw [outputAll,htx]; rfl,by simpa [join_cons,spelledIn] using hl⟩
  | nodes ns =>
    obtain ⟨ts,ht,ha⟩ := @outputNodes_kept ns (atLeastOne w) h none
    exact ⟨ts,by rw [outputAll,ht],by rw [ha,spelledIn,spelledAll_none]; rfl⟩

lemma letters_listMark (ord : Bool) (idx : Nat) :
    letters (listMark ord idx).toList = (markText ord idx).toList := by
  show letters (markText ord idx ++ spaces (4 - (markText ord idx).length)).toList = _
  rw [toList_append,letters_append,spaces,toList_ofList,letters_replicate_space,append_nil]
  refine filter_eq_self.mpr fun c hc => ?_
  rcases mem_markText hc with hc | rfl | rfl
  · rw [not_isBlank_of_isDigit hc]
    rfl
  · decide
  · decide

lemma markMembers_kept (w : Option Int) (lvl : Option Int) (ord : Bool) (idx : Nat)
  (h : ∀ n ∈ ns, LettersKept n ∧ n.blockKind? = some .listItem) : ∃ ts marked, outputNodes w none ns = .ok ts ∧
    markMembers (.fields lvl (some ord)) idx ts = .ok marked ∧
    letters (join marked).toList = spelledAll (some ord) idx ns := by
  induction ns generalizing idx with
  | nil => exact ⟨[],[],by rw [outputNodes],by rw [markMembers],rfl⟩
  | cons n ns ih =>
    obtain ⟨⟨⟨-,hi⟩,hk⟩,hr⟩ := forall_mem_cons.mp h
    obtain ⟨body,hb,hl⟩ := hi (by cases n <;> first | rfl | cases hk) ns.isEmpty w
    obtain ⟨ts,marked,ht,hm,ha⟩ := ih (idx + 1) hr
    refine ⟨body :: ts,(listMark ord idx ++ body) :: marked,?_,by rw [markMembers,hm]; rfl,?_⟩
    · rw [outputNodes,if_pos (by rw [hk]; rfl),hb,ht]
      rfl
    · simp only [join_cons,toList_append,letters_append,letters_listMark,hl,ha,spelledAll]
      rfl

lemma letters_finished (text : String) (isLast : Bool) (ends : Nat) :
    letters (text ++ if isLast then "" else newlines ends).toList = letters text.toList := by
  have hf : letters (replicate ends '\n') = [] :=
    letters_of_blank (all_eq_true.mpr fun c hc => by rw [eq_of_mem_replicate hc]; decide)
  rw [toList_append,letters_append]
  cases isLast with
  | true => exact append_nil _
  | false => rw [if_neg Bool.false_ne_true,newlines,toList_ofList,hf,append_nil]

lemma kept_item {block : Option BlockKind} {span : Option ItemKind} (h : ∀ isLast w, ∃ text,
  output isLast w (.item block span trait contents) = .ok text ∧
    letters text.toList = spelled (.item block span trait contents)) : LettersKept
      (.item block span trait contents) :=
  ⟨h false none,fun _ => h⟩

lemma kept_span (kind : SpanKind) (trait : Trait) (h : ∀ n ∈ members contents, LettersKept n) :
  LettersKept (.item none (some (.span kind)) trait contents) := by
  obtain ⟨text,ht,hl⟩ := outputSpans_kept (.inl rfl) none h
  have hmk : marked (.span kind) text = some (spanMark kind ++ text ++ spanMark kind) := by
    cases kind <;> simp [marked,spanMark]
  have hm : letters (spanMark kind).toList = (spanMark kind).toList := by
    cases kind <;> decide
  refine kept_item fun isLast w => ⟨spanMark kind ++ text ++ spanMark kind,?_,?_⟩
  · rw [output,ht]
    dsimp only [bind,Except.bind]
    rw [hmk]
    rfl
  · rw [spelled,toList_append,toList_append,letters_append,letters_append,hm,hl]
    rfl

lemma endsInParagraph_ok (ns : List Node) {last : Node} (h : last.isItem) :
  ∃ b, endsInParagraph (.nodes (ns ++ [last])) = .ok b := by
  rw [endsInParagraph,getLast?_concat]
  cases last with
  | item => exact ⟨_,rfl⟩
  | text | number => cases h

lemma kept_block {kind : BlockKind} (hs : Suits trait contents kind)
    (h : ∀ n ∈ members contents, LettersKept n) :
  LettersKept (.item (some kind) none trait contents) := by
  refine kept_item fun isLast w => ?_
  have hp : spelled (.item (some kind) none trait contents) =
      (opening (some kind) none trait).toList ++ spelledIn (orderIn (some kind) trait) contents := by
    rw [spelled]
    exact append_nil _
  rw [hp]
  cases kind with
  | header =>
    obtain ⟨lvl,ord,rfl⟩ := hs
    obtain ⟨text,htx,hl⟩ := outputSpans_kept (.inl rfl) none h
    refine ⟨_,by rw [output,htx]; rfl,?_⟩
    rw [letters_finished]
    have hmr : letters (replicate lvl.toNat '#') = replicate lvl.toNat '#' :=
      filter_eq_self.mpr fun c hc => by rw [eq_of_mem_replicate hc]; decide
    have hsp : letters " ".toList = [] := by decide
    rw [toList_append,toList_append,letters_append,letters_append,hsp,hl,append_nil,opening,toList_ofList,hmr]
    rfl
  | paragraph =>
    obtain ⟨text,htx,hl⟩ := outputSpans_kept hs (atLeastOne w) h
    exact ⟨_,by rw [output,htx]; rfl,(letters_finished _ _ _).trans hl⟩
  | list =>
    obtain ⟨⟨lvl,ord,rfl⟩,ns,rfl,hm⟩ := hs
    obtain ⟨ts,marked,ht,hmk,ha⟩ := @markMembers_kept ns (atLeastOne (atLeastOne w)) lvl ord 0
      fun n hn => ⟨h n hn,hm n hn⟩
    refine ⟨_,by rw [output,outputAll,ht]; dsimp only [bind,Except.bind]; rw [hmk]; rfl,?_⟩
    exact (letters_finished _ _ _).trans ha
  | listItem =>
    obtain ⟨ns,last,rfl,hls⟩ := hs
    obtain ⟨ends,he⟩ := endsInParagraph_ok ns hls
    obtain ⟨ts,ht,ha⟩ := outputAll_kept ((atLeastOne w).map (· - 4)) h
    refine ⟨_,by rw [output,ht,he]; rfl,?_⟩
    rw [letters_finished,toList_hangLines,letters_leadLater (by decide),ha]
    rfl
  | code =>
    obtain ⟨ts,ht,ha⟩ := outputAll_kept none h
    refine ⟨_,by rw [output,ht]; rfl,?_⟩
    have hln : (indentLines (join ts)).toList = leadAll (spaces 4).toList (join ts).toList :=
      toList_ofList.trans flatMap_def.symm
    rw [letters_finished,hln,letters_leadAll (by decide),ha]
    rfl
  | included => exact hs.elim

lemma Sound.kept {n : Node} (h : Sound n) : LettersKept n := by
  induction h with
  | text s => exact ⟨⟨s,rfl,by rw [spelled]⟩,fun hi => by cases hi⟩
  | span kind trait _ ih => exact kept_span kind trait ih
  | block hs _ ih => exact kept_block hs ih

theorem output_keeps_letters (h : ∀ n ∈ members contents, Sound n) (width : Option Int) :
    ∃ texts, outputAll width contents = .ok texts ∧
    letters (String.join texts).toList = spelledIn none contents :=
  outputAll_kept width fun n hn => (h n hn).kept

end

def lettersSample : List Node :=
  [.block .header (.level 2) [ofText " Two\nlines"],.text "loose ",span .emphasis (.text "leading\nword"),
    .block .list (.ordered true)
      [.block .listItem .none [ofText "long-hyphenated-word",.block .code .none [ofText "x =\u2028 1\n"]],
        .block .listItem .none [.block .paragraph (.hanging 7) [span .code (.text "a\tb"),ofText " c"]]]]

theorem output_keeps_letters_at_columns : (∀ n ∈ lettersSample, Sound n) ∧
    (∀ w ∈ [none, some 1, some 20, some (-3)], ∃ texts,
      outputAll w (.nodes lettersSample) = .ok texts ∧
      letters (String.join texts).toList = "##Twolinesloose*leadingword*1.long-hyphenated-wordx=12.`ab`c".toList) := by
  have hsound : ∀ n ∈ lettersSample, Sound n := by
    have htext (s : String) : Sound (ofText s) := .span _ _ (forall_mem_nil _)
    have hspan (kind : SpanKind) (s : String) : Sound (span kind (.text s)) := .span _ _ (forall_mem_nil _)
    refine forall_mem_cons.mpr ⟨.block ⟨2, none, rfl⟩ ?_,
      forall_mem_cons.mpr ⟨.text _, forall_mem_cons.mpr ⟨hspan _ _,
      forall_mem_singleton.mpr (.block ⟨⟨none, true, rfl⟩, _, rfl, ?_⟩ ?_)⟩⟩⟩
    · exact forall_mem_singleton.mpr (htext _)
    · exact forall_mem_cons.mpr ⟨rfl, forall_mem_singleton.mpr rfl⟩
    · refine forall_mem_cons.mpr ⟨.block ⟨[_], _, rfl, rfl⟩ ?_,
        forall_mem_singleton.mpr (.block ⟨[], _, rfl, rfl⟩ ?_)⟩
      · exact forall_mem_cons.mpr ⟨htext _, forall_mem_singleton.mpr
          (.block trivial (forall_mem_singleton.mpr (htext _)))⟩
      · exact forall_mem_singleton.mpr (.block (.inr ⟨7, rfl⟩) (forall_mem_cons.mpr ⟨hspan _ _,
          forall_mem_singleton.mpr (htext _)⟩))
  refine ⟨hsound, fun w _ => ?_⟩
  obtain ⟨texts, htexts, hletters⟩ := @output_keeps_letters (.nodes lettersSample) hsound w
  exact ⟨texts, htexts, hletters.trans (by decide +kernel)⟩

end Node

end Docweave
