import Docweave.Job.Extract
import Docweave.Proofs.Comments.Outline
import Docweave.Proofs.Sections.Shelves

namespace Docweave

open List
open String (toList_ofList join join_cons join_nil append_empty toList_append ofList ofList_toList)

namespace Text

variable {p : Char → Bool} {cs : List Char}

lemma dropEndWhile_append (p : Char → Bool) (cs cs' : List Char) : dropEndWhile p (cs ++ cs') =
      if dropEndWhile p cs' = [] then dropEndWhile p cs else cs ++ dropEndWhile p cs' := by
  rw [dropEndWhile,reverse_append,dropWhile_append]
  by_cases h : cs'.reverse.dropWhile p = []
  · simp [dropEndWhile,h]
  · simp [dropEndWhile,h]

lemma dropEndWhile_of_all (h : ∀ c ∈ cs, p c) : dropEndWhile p cs = [] := by
  rw [dropEndWhile]
  simpa using h

lemma dropEndWhile_cons_of_neg {c : Char} (hc : p c = false) (cs : List Char) :
  dropEndWhile p (c :: cs) = c :: dropEndWhile p cs := by
  have ho : dropEndWhile p [c] = [c] := by simp [dropEndWhile,hc]
  rw [← singleton_append,dropEndWhile_append,ho]
  split
  · rename_i hn
    rw [hn]
  · rfl

lemma length_dropEndWhile_le (p : Char → Bool) (cs : List Char) : (dropEndWhile p cs).length ≤ cs.length := by
  rw [dropEndWhile,length_reverse]
  exact (dropWhile_suffix p).length_le.trans_eq length_reverse

lemma dropEndWhile_split (p : Char → Bool) (cs : List Char) :
  ∃ end', cs = dropEndWhile p cs ++ end' ∧ ∀ c ∈ end', p c := by
  refine ⟨(cs.reverse.takeWhile p).reverse,?_,?_⟩
  · rw [dropEndWhile,← reverse_append,takeWhile_append_dropWhile,reverse_reverse]
  · intro c hc
    exact mem_takeWhile_imp (mem_reverse.mp hc)

lemma dropEndWhile_of_none (h : ∀ c ∈ cs, p c = false) : dropEndWhile p cs = cs := by
  obtain ⟨last,hs,hl⟩ := dropEndWhile_split p cs
  cases last with
  | nil => simpa using hs.symm
  | cons c last =>
    have hc := hl c mem_cons_self
    rw [h c (by rw [hs]; simp)] at hc
    cases hc

lemma dropWhile_of_none (h : ∀ c ∈ cs, p c = false) : cs.dropWhile p = cs := by
  cases cs with
  | nil => rfl
  | cons c cs => rw [dropWhile_cons_of_neg (by simp [h c mem_cons_self])]

lemma trim_of_no_blank (h : ∀ c ∈ cs, isBlank c = false) : trim cs = cs := by
  rw [trim,dropWhile_of_none h,dropEndWhile_of_none h]

lemma fileLinesFrom_append_line (line cs rest : List Char) : fileLinesFrom line (cs ++ '\n' :: rest) =
    fileLinesFrom line (cs ++ ['\n']) ++ fileLinesFrom [] rest := by
  induction cs generalizing line with
  | nil => simp [fileLinesFrom]
  | cons c cs ih =>
    by_cases hc : c = '\n'
    · subst hc
      simp [fileLinesFrom,ih]
    · rw [cons_append,cons_append,fileLinesFrom.eq_4 _ _ _ hc,fileLinesFrom.eq_4 _ _ _ hc,ih]

lemma not_isBlank_of_isDigit {c : Char} (h : c.isDigit) : isBlank c = false := by
  rw [Char.isDigit,Bool.and_eq_true,decide_eq_true_eq,decide_eq_true_eq] at h
  have hl : 48 ≤ c.toNat := h.1
  have hh : c.toNat ≤ 57 := h.2
  rw [isBlank]
  simp only [inRanges]
  repeat rw [if_neg (by omega)]
  rw [if_pos (by omega)]
  rfl

lemma digitValue_digitChar : ∀ d < 10, digitValue (Nat.digitChar d) = some d := by decide

lemma digitsFrom_concat (h : '_' ∉ cs) (n : Nat) (c : Char) (hc : c ≠ '_') : digitsFrom n (cs ++ [c]) =
    (digitsFrom n cs).bind fun m => (digitValue c).map fun d => m * 10 + d := by
  induction cs generalizing n with
  | nil =>
    rw [nil_append,digitsFrom.eq_3 _ _ _ (fun _ _ h _ => hc h)]
    cases digitValue c <;> simp [digitsFrom]
  | cons b cs ih =>
    rw [mem_cons,not_or] at h
    have hb : b ≠ '_' := fun hb => h.1 hb.symm
    rw [cons_append,digitsFrom.eq_3 _ _ _ (fun _ _ h _ => hb h),digitsFrom.eq_3 _ _ _ (fun _ _ h _ => hb h)]
    cases digitValue b with
    | none => rfl
    | some d => exact ih h.2 _

lemma natural?_toDigits (n : Nat) : natural? (Nat.toDigits 10 n) = some n := by
  induction n using Nat.strongRecOn with
  | ind n ih =>
    rw [Nat.toDigits_eq_if (by decide)]
    split
    · rename_i hsm
      rw [natural?,digitValue_digitChar n hsm]
      rfl
    rename_i hl
    have hdg := digitValue_digitChar (n % 10) (Nat.mod_lt n (by decide))
    have hm : Nat.digitChar (n % 10) ≠ '_' := by
      intro h
      rw [h,show digitValue '_' = none by decide] at hdg
      cases hdg
    have hih := ih (n / 10) (Nat.div_lt_self (by omega) (by decide))
    cases hcs : Nat.toDigits 10 (n / 10) with
    | nil =>
      rw [hcs] at hih
      cases hih
    | cons c cs =>
      have hs := @Nat.underscore_not_in_toDigits (n / 10)
      rw [hcs] at hih hs
      rw [mem_cons,not_or] at hs
      obtain ⟨d,hd,hr⟩ := Option.bind_eq_some_iff.mp hih
      rw [cons_append,natural?,hd,Option.bind_some,digitsFrom_concat hs.2 _ _ hm,hr,hdg]
      simp only [Option.bind_some,Option.map_some,Option.some.injEq]
      omega

lemma whole_toString (n : Nat) : whole (toString n) = .ok (n : Int) := by
  have hl : (toString n).toList = Nat.toDigits 10 n := by
    rw [Nat.toString_eq_ofList_toDigits,toList_ofList]
  have hb : ∀ c ∈ Nat.toDigits 10 n, isBlank c = false := fun c hc =>
    not_isBlank_of_isDigit (Nat.isDigit_of_mem_toDigits (by decide) (by decide) hc)
  have hs : whole? (toString n) = some (n : Int) := by
    rw [whole?,hl,trim_of_no_blank hb]
    split
    · rename_i rest hd
      exact absurd (Nat.isDigit_of_mem_toDigits (by decide) (by decide)
        (hd ▸ mem_cons_self : '-' ∈ Nat.toDigits 10 n)) (by decide)
    · rename_i rest hd
      exact absurd (Nat.isDigit_of_mem_toDigits (by decide) (by decide)
        (hd ▸ mem_cons_self : '+' ∈ Nat.toDigits 10 n)) (by decide)
    · rw [natural?_toDigits]
      rfl
  rw [whole,hs]

end Text

namespace Section

open Text

variable {path name : String} {ls rest : List String} {err : Option Fault}

lemma heading?_of_other {line : String} (h : line.toList.head? ≠ some '#') : heading? line = none := by
  rw [heading?]
  split
  · rename_i hl
    rw [hl] at h
    exact absurd rfl h
  · rfl

lemma fault_gather (path : String) (current : Option (String × List String)) (ls : List String)
  (err : Option Fault) : (gather path current ls err).fault = err := by
  induction ls generalizing current with
  | nil => cases current <;> cases err <;> rfl
  | cons line ls ih =>
    cases current with
    | none => exact ih _
    | some p =>
      rw [gather]
      split <;> exact ih _

lemma fault_gather_none (path : String) (current : Option (String × List String)) (ls : List String) :
    (gather path current ls none).fault = none := fault_gather path current ls none

lemma gather_before (h : ∀ line ∈ ls, heading? line = none) :
  gather path none (ls ++ rest) err = gather path none rest err := by
  induction ls with
  | nil => rfl
  | cons line ls ih =>
    rw [forall_mem_cons] at h
    rw [cons_append,gather,h.1]
    exact ih h.2

lemma gather_body {kept : List String} (h : ∀ line ∈ ls, isTop line = false) :
  gather path (some (name,kept)) (ls ++ rest) err = gather path (some (name,kept ++ ls)) rest err := by
  induction ls generalizing kept with
  | nil => rw [nil_append,append_nil]
  | cons line ls ih =>
    rw [forall_mem_cons] at h
    rw [cons_append,gather,h.1,append_cons kept line ls]
    exact ih h.2

lemma gather_top {line : String} (h : isTop line) : gather path (some (name,ls)) (line :: rest) err =
    .cons ⟨path,name,closeLines ls⟩ (gather path none (line :: rest) err) := by
  rw [gather,gather,if_pos h]

lemma dropEndNewlines_closeLines (ls : List String) :
  dropEndNewlines (join (closeLines ls)) = dropEndNewlines (join ls) := by
  induction ls with
  | nil => rfl
  | cons line ls ih =>
    cases ls with
    | nil =>
      obtain ⟨last,hln,hl⟩ := dropEndWhile_split isNewline line.toList
      simp only [closeLines,dropEndNewlines,join_cons,join_nil,append_empty,toList_ofList]
      conv_rhs => rw [hln,dropEndWhile_append,if_pos (dropEndWhile_of_all hl)]
    | cons next ls =>
      have hih := congrArg String.toList ih
      simp only [dropEndNewlines,toList_ofList] at hih
      rw [closeLines]
      simp only [dropEndNewlines,join_cons,toList_append] at hih ⊢
      rw [dropEndWhile_append,hih,← dropEndWhile_append]
      exact nofun

lemma closeLines_cons (line : String) (h : ls ≠ []) : closeLines (line :: ls) = line :: closeLines ls := by
  cases ls with
  | nil => exact absurd rfl h
  | cons next rest => rfl

lemma length_closeLines (ls : List String) : (closeLines ls).length = ls.length := by
  induction ls with
  | nil => rfl
  | cons line ls ih =>
    cases ls with
    | nil => rfl
    | cons next rest => rw [closeLines_cons line (cons_ne_nil _ _),length_cons,length_cons,ih]

lemma fileLinesFrom_feed (cs : List Char) : ('\n' ∉ cs ∧ fileLinesFrom [] (cs ++ ['\n']) = [cs ++ ['\n']]) ∨
    ∃ l rest, cs = l ++ '\n' :: rest ∧ fileLinesFrom [] (rest ++ ['\n']) ≠ [] ∧
      fileLinesFrom [] (cs ++ ['\n']) = (l ++ ['\n']) :: fileLinesFrom [] (rest ++ ['\n']) := by
  by_cases hf : '\n' ∈ cs
  · obtain ⟨l,rest,rfl,hl⟩ := eq_append_cons_of_mem hf
    refine .inr ⟨l,rest,rfl,fun hn => ?_,?_⟩
    · have hfl := flatten_fileLines (rest ++ ['\n'])
      rw [hn] at hfl
      simp at hfl
    · rw [append_assoc,cons_append,Comment.fileLinesFrom_line hl]
      rfl
  · exact .inl ⟨hf,Comment.fileLinesFrom_line hf [] []⟩

lemma length_fileLines_feed (s : String) : (fileLines (s ++ "\n")).length = 1 ↔ '\n' ∉ s.toList := by
  rw [fileLines,length_map,toList_append]
  rcases fileLinesFrom_feed s.toList with ⟨hf,hl⟩ | ⟨l,rest,hs,hne,hl⟩
  · exact iff_of_true (congrArg List.length hl) hf
  · refine iff_of_false (fun ho => ?_) (by simp [hs])
    have hln := (congrArg List.length hl).symm.trans ho
    rw [length_cons,Nat.succ_inj,length_eq_zero_iff] at hln
    exact hne hln

lemma join_closeLines {cs : List Char} (hr : '\r' ∉ cs) :
  join (closeLines ((fileLinesFrom [] (cs ++ ['\n'])).map ofList)) = ofList cs := by
  induction hn : cs.length using Nat.strong_induction_on generalizing cs with
  | _ n ih =>
    rcases fileLinesFrom_feed cs with ⟨hf,hl⟩ | ⟨l,rest,rfl,hne,hl⟩
    · have hnn : ∀ c ∈ cs, isNewline c = false := by
        intro c hc
        have hne : c ≠ '\n' ∧ c ≠ '\r' := ⟨fun h => hf (h ▸ hc),fun h => hr (h ▸ hc)⟩
        simpa [isNewline] using hne
      have he : dropEndWhile isNewline ['\n'] = [] := by decide
      rw [hl,map_singleton,closeLines,join_cons,join_nil,append_empty,
        dropEndNewlines,toList_ofList,dropEndWhile_append,if_pos he,dropEndWhile_of_none hnn]
    have hs : rest.length < n := by
      rw [← hn,length_append,length_cons]
      omega
    have hr' : '\r' ∉ rest := fun h => hr (by simp [h])
    rw [hl,map_cons,closeLines_cons _ (by simpa using hne),join_cons,ih _ hs hr' rfl,← String.ofList_append]
    simp

lemma heading?_name (h : ∀ c ∈ name.toList, isBlank c = false) (hne : name ≠ "")
  (hs : name.toList.head? ≠ some '#') : heading? ("# " ++ name ++ "\n") = some name := by
  have ht : trim (' ' :: (name.toList ++ ['\n'])) = name.toList := by
    have hf : (' ' :: (name.toList ++ ['\n'])).dropWhile isBlank = name.toList ++ ['\n'] := by
      rw [dropWhile_cons_of_pos (by decide)]
      cases hn : name.toList with
      | nil => exact absurd (String.toList_eq_nil_iff.mp hn) hne
      | cons c cs =>
        simp [h c (by simp [hn])]
    rw [trim,hf,dropEndWhile_append,if_pos (dropEndWhile_of_all (forall_mem_singleton.mpr (by decide))),
      dropEndWhile_of_none h]
  have hfl : name.toList ≠ [] := fun hnl => hne (String.toList_eq_nil_iff.mp hnl)
  rw [heading?]
  simp [ht,hfl,hs]

lemma isTop_name (name : String) : isTop ("# " ++ name ++ "\n") := by
  have hl : ("# " ++ name ++ "\n").toList = '#' :: ' ' :: (name.toList ++ ['\n']) := by
    simp
  rw [isTop,hl]
  rfl

lemma exists_first_top (h : ¬ ∀ line ∈ ls, isTop line = false) :
  ∃ pre line after, ls = pre ++ line :: after ∧ (∀ l ∈ pre, isTop l = false) ∧ isTop line := by
  induction ls with
  | nil => simp at h
  | cons first ls ih =>
    cases hf : isTop first with
    | true => exact ⟨[],first,ls,rfl,by simp,hf⟩
    | false =>
      have hr : ¬ ∀ line ∈ ls, isTop line = false := by
        intro hl
        exact h (forall_mem_cons.mpr ⟨hf,hl⟩)
      obtain ⟨pre,line,after,rfl,hp,hln⟩ := ih hr
      exact ⟨first :: pre,line,after,rfl,forall_mem_cons.mpr ⟨hf,hp⟩,hln⟩

lemma isTop_append_feed (cs : List Char) : isTop (ofList (cs ++ ['\n'])) = isTop (ofList cs) := by
  simp only [isTop,toList_ofList]
  match cs with
  | [] => rfl
  | [c] =>
    by_cases hc : c = '#'
    · subst hc
      rfl
    · simp [hc]
  | c :: d :: cs =>
    by_cases hc : c = '#'
    · subst hc
      by_cases hd : d = '#'
      · subst hd
        rfl
      · simp [hd]
    · simp [hc]

lemma isTop_lines_append_feed (line cs : List Char) :
  (∀ l ∈ fileLinesFrom line (cs ++ ['\n']), isTop (ofList l) = false) ↔
    ∀ l ∈ fileLinesFrom line cs, isTop (ofList l) = false := by
  induction cs generalizing line with
  | nil =>
    cases line with
    | nil => simp [fileLinesFrom,isTop]
    | cons c line =>
      have hf : ('\n' :: c :: line).reverse = (c :: line).reverse ++ ['\n'] :=
        reverse_cons
      simp only [nil_append,fileLinesFrom,forall_mem_singleton,hf,isTop_append_feed]
  | cons c cs ih =>
    by_cases hc : c = '\n'
    · subst hc
      simp [fileLinesFrom,ih]
    · rw [cons_append,fileLinesFrom.eq_4 _ _ _ hc,fileLinesFrom.eq_4 _ _ _ hc]
      exact ih _

end Section

namespace Tree.Extracted

open Text Section

variable {xs : List Extracted}

def name (x : Extracted) : String := "line-" ++ toString x.first ++ "-" ++ toString x.last

def body (x : Extracted) : String := x.text.getD ""

def fragment (x : Extracted) : String := "# " ++ x.name ++ "\n" ++ x.body ++ "\n"

def fragmentLines (x : Extracted) : List String :=
  ("# " ++ x.name ++ "\n") :: fileLines (x.body ++ "\n")

def isNameChar (c : Char) : Bool := c.isDigit || "line-".toList.contains c

lemma isNameChar_toString (n : Int) : ∀ c ∈ (toString n).toList, isNameChar c := by
  have hd (m : Nat) : ∀ c ∈ m.repr.toList, isNameChar c := by
    intro c hc
    rw [Nat.repr_eq_ofList_toDigits,toList_ofList] at hc
    have hdg := Nat.isDigit_of_mem_toDigits (by decide) (by decide) hc
    simp [isNameChar,hdg]
  cases n with
  | ofNat m => exact hd m
  | negSucc m =>
    intro c hc
    have hr : (toString (Int.negSucc m)).toList = '-' :: m.succ.repr.toList := by
      have hn : toString (Int.negSucc m) = "-" ++ m.succ.repr := rfl
      rw [hn,toList_append]
      rfl
    rw [hr] at hc
    rcases mem_cons.mp hc with rfl | hc
    · decide
    · exact hd _ c hc

lemma isNameChar_name (x : Extracted) : ∀ c ∈ x.name.toList, isNameChar c := by
  intro c hc
  simp only [name,toList_append,mem_append] at hc
  rcases hc with ((hc | hc) | hc) | hc
  · have ha : "line-".toList.all isNameChar := by decide
    exact all_eq_true.mp ha c hc
  · exact isNameChar_toString _ c hc
  · have ha : "-".toList.all isNameChar := by decide
    exact all_eq_true.mp ha c hc
  · exact isNameChar_toString _ c hc

lemma not_isBlank_of_isNameChar {c : Char} (h : isNameChar c) : isBlank c = false := by
  rw [isNameChar,Bool.or_eq_true] at h
  rcases h with h | h
  · exact not_isBlank_of_isDigit h
  · have ha : "line-".toList.all (fun c => !isBlank c) := by decide
    simpa using all_eq_true.mp ha c (by simpa using h)

lemma head?_name (x : Extracted) : x.name.toList.head? = some 'l' := by
  simp [name]

lemma heading?_fragment (x : Extracted) : heading? ("# " ++ x.name ++ "\n") = some x.name := by
  refine heading?_name (fun c hc => not_isBlank_of_isNameChar (isNameChar_name x c hc)) ?_ ?_
  · intro he
    have hh := x.head?_name
    rw [he] at hh
    cases hh
  · rw [head?_name]
    decide

def ReadsAs (x : Extracted) (s : Section) : Prop :=
  s.name = x.name ∧ dropEndNewlines (join s.lines) = dropEndNewlines x.body

lemma names_of_named {sections : List Section} (h : Forall₂ (fun x s => s.name = x.name) xs sections) :
  sections.map Section.name = xs.map name := by
  induction h with
  | nil => rfl
  | cons hx _ ih => rw [map_cons,map_cons,hx,ih]

lemma names_of_reads {sections : List Section} (h : Forall₂ ReadsAs xs sections) :
  sections.map Section.name = xs.map name :=
  names_of_named (h.imp fun _ _ hx => hx.1)

def Quiet (x : Extracted) : Prop := ∀ line ∈ fileLines x.body, isTop line = false

instance (x : Extracted) : Decidable x.Quiet :=
  inferInstanceAs (Decidable (∀ line ∈ fileLines x.body, isTop line = false))

lemma quiet_iff (x : Extracted) : x.Quiet ↔ ∀ line ∈ fileLines (x.body ++ "\n"), isTop line = false := by
  have hl (s : String) : (∀ line ∈ fileLines s, isTop line = false) ↔
      ∀ l ∈ fileLinesFrom [] s.toList, isTop (ofList l) = false := by
    rw [fileLines,forall_mem_map]
  rw [Quiet,hl,hl,toList_append]
  exact (isTop_lines_append_feed [] x.body.toList).symm

lemma join_fileLines (s : String) : join (fileLines s) = s := by
  rw [fileLines,join_map_ofList (fun l => l),flatMap_id',flatten_fileLines,ofList_toList]

lemma dropEndNewlines_feed (s : String) : dropEndNewlines (s ++ "\n") = dropEndNewlines s := by
  have hf : dropEndWhile isNewline "\n".toList = [] :=
    dropEndWhile_of_all (forall_mem_singleton.mpr (by decide))
  rw [dropEndNewlines,dropEndNewlines,toList_append,dropEndWhile_append,if_pos hf]

lemma not_reads_of_top {x : Extracted} {pre after : List String} {line path : String}
  (hls : fileLines (x.body ++ "\n") = pre ++ line :: after) (ht : isTop line) :
  ¬ ReadsAs x ⟨path,x.name,closeLines pre⟩ := by
  rintro ⟨-,hs⟩
  have hb : x.body ++ "\n" = join pre ++ (line ++ join after) := by
    rw [← join_fileLines (x.body ++ "\n"),hls,String.join_append,join_cons]
  obtain ⟨rest,hli⟩ : ∃ rest, line.toList = '#' :: rest := by
    rw [isTop] at ht
    split at ht
    · cases ht
    · exact ⟨_,‹_›⟩
    · cases ht
  rw [dropEndNewlines_closeLines,← dropEndNewlines_feed x.body,hb] at hs
  have hl := congrArg String.toList hs
  simp only [dropEndNewlines,toList_ofList,toList_append,hli,cons_append] at hl
  have hsg : dropEndWhile isNewline ('#' :: (rest ++ (join after).toList)) =
      '#' :: dropEndWhile isNewline (rest ++ (join after).toList) :=
    dropEndWhile_cons_of_neg (by decide) _
  rw [dropEndWhile_append,hsg,if_neg (cons_ne_nil _ _)] at hl
  have hln := congrArg List.length hl
  have hle := length_dropEndWhile_le isNewline (join pre).toList
  simp only [length_append,length_cons] at hln
  omega

lemma flatMap_fragmentLines (x : Extracted) (xs : List Extracted) : (x :: xs).flatMap fragmentLines =
    ("# " ++ x.name ++ "\n") :: (fileLines (x.body ++ "\n") ++ xs.flatMap fragmentLines) := rfl

lemma gather_next (path name : String) (ls : List String) (x : Extracted) (xs : List Extracted) :
  gather path (some (name,ls)) ((x :: xs).flatMap fragmentLines) none =
    .cons ⟨path,name,closeLines ls⟩ (gather path none ((x :: xs).flatMap fragmentLines) none) := by
  rw [flatMap_fragmentLines,gather_top (isTop_name _)]

lemma gather_fragment (path : String) (x : Extracted) (xs : List Extracted) :
  gather path none ((x :: xs).flatMap fragmentLines) none =
    gather path (some (x.name,[])) (fileLines (x.body ++ "\n") ++ xs.flatMap fragmentLines) none := by
  rw [flatMap_cons,fragmentLines,cons_append,gather,heading?_fragment]
  rfl

lemma gather_quiet (path : String) (h : ∀ x ∈ xs, x.Quiet) :
  Forall₂ (fun x s => s.name = x.name ∧ (s.lines = fileLines (x.body ++ "\n") ∨
    s.lines = closeLines (fileLines (x.body ++ "\n")))) xs
    (gather path none (xs.flatMap fragmentLines) none).items := by
  induction xs with
  | nil => exact .nil
  | cons x xs ih =>
    rw [forall_mem_cons,quiet_iff] at h
    rw [gather_fragment,gather_body h.1]
    cases xs with
    | nil => exact .cons ⟨rfl,.inl rfl⟩ .nil
    | cons y ys =>
      rw [gather_next]
      exact .cons ⟨rfl,.inr rfl⟩ (ih h.2)

lemma gather_fragments (path : String) (xs : List Extracted) :
  Forall₂ ReadsAs xs (gather path none (xs.flatMap fragmentLines) none).items ↔ ∀ x ∈ xs, x.Quiet := by
  induction xs with
  | nil => simp [gather]
  | cons x xs ih =>
    rw [forall_mem_cons,gather_fragment,quiet_iff]
    by_cases hq : ∀ line ∈ fileLines (x.body ++ "\n"), isTop line = false
    · have hr (ls : List String) (hl : dropEndNewlines (join ls) =
            dropEndNewlines (join (fileLines (x.body ++ "\n")))) :
          ReadsAs x ⟨path,x.name,ls⟩ := by
        refine ⟨rfl,?_⟩
        rw [hl,join_fileLines,dropEndNewlines_feed]
      rw [gather_body hq,nil_append]
      cases xs with
      | nil =>
        exact iff_of_true (.cons (hr _ rfl) .nil) ⟨hq,forall_mem_nil _⟩
      | cons y ys =>
        rw [gather_next]
        simp only [Stream.cons,forall₂_cons]
        rw [ih]
        exact and_congr_left fun _ =>
          iff_of_true (hr _ (dropEndNewlines_closeLines _)) hq
    obtain ⟨pre,line,after,hl,hp,ht⟩ := exists_first_top hq
    refine iff_of_false ?_ fun h => hq h.1
    rw [hl,append_assoc,gather_body hp,cons_append,gather_top ht]
    simp only [Stream.cons,forall₂_cons]
    exact fun h => not_reads_of_top hl ht h.1

lemma no_feed_name (x : Extracted) : '\n' ∉ x.name.toList := fun h =>
  absurd (isNameChar_name x _ h) (by decide)

lemma no_return_name (x : Extracted) : '\r' ∉ x.name.toList := fun h =>
  absurd (isNameChar_name x _ h) (by decide)

lemma fileLines_fragments (xs : List Extracted) :
    fileLines (join (xs.map fragment)) = xs.flatMap fragmentLines := by
  induction xs with
  | nil => rfl
  | cons x xs ih =>
    have hl : (join ((x :: xs).map fragment)).toList =
        ("# " ++ x.name).toList ++ '\n' :: (x.body.toList ++ '\n' :: (join (xs.map fragment)).toList) := by
      simp [fragment]
    have hn : '\n' ∉ ("# " ++ x.name).toList := by
      simp [no_feed_name]
    rw [fileLines] at ih ⊢
    rw [hl,Comment.fileLinesFrom_line hn,fileLinesFrom_append_line,map_cons,map_append,
      ih,flatMap_cons,fragmentLines,fileLines,reverse_nil,nil_append,
      String.ofList_append,ofList_toList,toList_append]
    rfl

end Tree.Extracted

namespace Datum

open Text

def Inline (s : String) : Prop := '\n' ∉ s.toList ∧ '\r' ∉ s.toList

instance (s : String) : Decidable (Inline s) := inferInstanceAs (Decidable (_ ∧ _))

lemma inline_append {s t : String} (hs : Inline s) (ht : Inline t) : Inline (s ++ t) := by
  simp only [Inline,toList_append,mem_append,not_or] at hs ht ⊢
  exact ⟨⟨hs.1,ht.1⟩,hs.2,ht.2⟩

lemma mem_hexDigits {w n : Nat} {c : Char} (h : c ∈ hexDigits w n) : c ≠ '\n' ∧ c ≠ '\r' := by
  induction w generalizing n with
  | zero => cases h
  | succ w ih =>
    rcases mem_append.mp h with h | h
    · exact ih h
    · obtain rfl := mem_singleton.mp h
      have ha : ∀ m < 16, Nat.digitChar m ≠ '\n' ∧ Nat.digitChar m ≠ '\r' := by decide
      exact ha _ (Nat.mod_lt n (by decide))

lemma mem_jsonEscape {c d : Char} (h : d ∈ jsonEscape c) : d ≠ '\n' ∧ d ≠ '\r' := by
  have hu {k : Nat} (hd : d ∈ ['\\','u'] ++ hexDigits 4 k) : d ≠ '\n' ∧ d ≠ '\r' := by
    rcases mem_append.mp hd with hd | hd
    · rcases mem_pair.mp hd with rfl | rfl <;> decide
    · exact mem_hexDigits hd
  have hp {x : Char} (hx : x ≠ '\n' ∧ x ≠ '\r') (hd : d ∈ ['\\',x]) : d ≠ '\n' ∧ d ≠ '\r' := by
    rcases mem_pair.mp hd with rfl | rfl
    · decide
    · exact hx
  rw [jsonEscape] at h
  repeat' split at h
  all_goals first
    | exact hp (by decide) h
    | skip
  · rename_i hf hr _ _ _ _
    obtain rfl := mem_singleton.mp h
    exact ⟨hf,hr⟩
  · exact hu h
  · rcases mem_append.mp h with h | h
    · exact hu h
    · exact hu h

lemma inline_jsonText (s : String) : Inline (jsonText s) := by
  have hm {d : Char} (hd : d ∈ (jsonText s).toList) : d ≠ '\n' ∧ d ≠ '\r' := by
    rw [jsonText,toList_ofList,cons_append,mem_cons,mem_append,mem_singleton] at hd
    rcases hd with rfl | hd | rfl
    · decide
    · obtain ⟨c,-,hc⟩ := mem_flatMap.mp hd
      exact mem_jsonEscape hc
    · decide
  exact ⟨fun h => (hm h).1 rfl,fun h => (hm h).2 rfl⟩

end Datum

namespace Job

open Text Datum Section

variable {rest : List Char} {r : Report} {tgt : String}

def Headless (cs : List Char) : Prop :=
  '\r' ∉ cs ∧ ∀ line ∈ fileLinesFrom [] cs, line.head? ≠ some '#'

lemma headless_nil : Headless [] := by
  simp [Headless,fileLinesFrom]

lemma headless_line {l : List Char} (hf : '\n' ∉ l) (hrt : '\r' ∉ l) (hs : l.head? ≠ some '#')
  (hr : Headless rest) : Headless (l ++ '\n' :: rest) := by
  refine ⟨?_,?_⟩
  · simp [hrt,hr.1]
  · rw [Comment.fileLinesFrom_line hf,forall_mem_cons]
    refine ⟨?_,hr.2⟩
    cases l with
    | nil => simp
    | cons c l => simpa using hs

lemma headless_members {members : List String} (hne : members ≠ []) (h : ∀ m ∈ members, Inline m)
  (hrs : Headless rest) : Headless (("  " ++ ",\n  ".intercalate members).toList ++ '\n' :: rest) := by
  induction members with
  | nil => exact absurd rfl hne
  | cons m members ih =>
    rw [forall_mem_cons] at h
    obtain ⟨hf,hr⟩ := h.1
    cases members with
    | nil =>
      exact headless_line (by simp [hf]) (by simp [hr]) (by simp) hrs
    | cons n members =>
      have hn := headless_line (l := ("  " ++ m ++ ",").toList) (by simp [hf])
        (by simp [hr]) (by simp) (ih (cons_ne_nil _ _) h.2)
      have hs : ("  " ++ ",\n  ".intercalate (m :: n :: members)).toList ++ '\n' :: rest =
          ("  " ++ m ++ ",").toList ++ '\n' ::
            (("  " ++ ",\n  ".intercalate (n :: members)).toList ++ '\n' :: rest) := by
        simp
      rw [hs]
      exact hn

def startedFields (r : Report) (target : String) : List (String × Datum) :=
  [("path",.text r.path),("extension",.ofText? r.extension),("overwrote",.bool r.overwrote),
    ("extract",.bool r.extract),("lineTypes",.record []),("extractPath",.text target)]

lemma datum_started (hc : r.lineTypes = some []) (ht : r.extractPath = some (some tgt)) :
    r.datum = .record (startedFields r tgt) := by
  simp only [startedFields,Report.datum,hc,ht,Report.counts,ofOption,ofText?,Option.map_some,
    Option.toList_some,map_nil,cons_append,nil_append]

lemma inline_field (name : String) {d : Datum} {lvl : Nat} (h : Inline (d.jsonAt (.indented 2) lvl)) :
  Inline (jsonText name ++ ": " ++ d.jsonAt (.indented 2) lvl) :=
  inline_append (inline_append (inline_jsonText name) (by decide)) h

lemma inline_fields (lvl : Nat) :
    ∀ m ∈ jsonFieldsAt (.indented 2) lvl (startedFields r tgt), Inline m := by
  have hb (b : Bool) : Inline ((Datum.bool b).jsonAt (.indented 2) lvl) := by
    cases b <;> (rw [jsonAt]; decide)
  have hr : Inline ((Datum.record []).jsonAt (.indented 2) lvl) := by
    have hem : (Datum.record []).jsonAt (.indented 2) lvl = "\x7b\x7d" := by
      rfl
    rw [hem]
    decide
  have ht (s : String) : Inline ((Datum.text s).jsonAt (.indented 2) lvl) := by
    exact inline_jsonText s
  have he : Inline ((ofText? r.extension).jsonAt (.indented 2) lvl) := by
    cases r.extension with
    | none =>
      rw [ofText?,ofOption,jsonAt]
      decide
    | some s => exact ht s
  simp only [startedFields,jsonFieldsAt,forall_mem_cons]
  exact ⟨inline_field _ (ht _),inline_field _ he,inline_field _ (hb _),
    inline_field _ (hb _),inline_field _ hr,inline_field _ (ht _),
    forall_mem_nil _⟩

lemma title_line : ∃ l : List Char, "Automatic extraction by the Doctor.\n".toList = l ++ ['\n'] ∧
  ('\n' ∉ l ∧ '\r' ∉ l ∧ l.head? ≠ some '#') :=
  ⟨"Automatic extraction by the Doctor.".toList,rfl,by decide⟩

lemma time_line : ∃ l : List Char, "Extract time (ISO 8601): 1970-01-01T00:00:00+0000\n".toList = l ++ ['\n'] ∧
  ('\n' ∉ l ∧ '\r' ∉ l ∧ l.head? ≠ some '#') :=
  ⟨"Extract time (ISO 8601): 1970-01-01T00:00:00+0000".toList,rfl,by decide⟩

lemma headless_header (hcn : r.lineTypes = some []) (ht : r.extractPath = some (some tgt))
  (hr : Headless rest) : Headless ((extractHeader r).toList ++ rest) := by
  obtain ⟨fields,hfl⟩ : ∃ fields, r.datum = .record fields ∧
    (∀ m ∈ jsonFieldsAt (.indented 2) 1 fields, Inline m) ∧
      jsonFieldsAt (.indented 2) 1 fields ≠ [] :=
    ⟨_,datum_started hcn ht,inline_fields 1,nofun⟩
  obtain ⟨hd,hi,hne⟩ := hfl
  have hj : r.datum.json (.indented 2) = "\x7b" ++ "\n" ++
      ("  " ++ ",\n  ".intercalate (jsonFieldsAt (.indented 2) 1 fields)) ++ "\n" ++ "\x7d" := by
    have he : (jsonFieldsAt (.indented 2) 1 fields).isEmpty = false := by simpa using hne
    have hmm : "\x7b" ++ (JsonLayout.indented 2).newline 1 = "\x7b" ++ "\n" ++ "  " := by decide
    have hcm : (JsonLayout.indented 2).comma ++ (JsonLayout.indented 2).newline 1 = ",\n  " := by
      decide
    have hen : (JsonLayout.indented 2).newline 0 = "\n" := by decide
    rw [hd,json,jsonAt,bracketed,Nat.zero_add,he,if_neg Bool.false_ne_true,hmm,hcm,hen]
    simp only [String.append_assoc]
  obtain ⟨first,hf,hf'⟩ := title_line
  obtain ⟨second,hs,hs'⟩ := time_line
  have ho : "\x7b".toList = ['\x7b'] := by decide
  have hc : "\x7d".toList = ['\x7d'] := by decide
  have hl : "\n\n".toList = [] ++ ['\n','\n'] := by decide
  have hfd : "\n".toList = ['\n'] := by decide
  have hm := headless_members hne hi (headless_line (l := ['\x7d']) (by decide) (by decide) (by decide)
      (headless_line (l := []) (by decide) (by decide) (by decide) hr))
  have ha := headless_line hf'.1 hf'.2.1 hf'.2.2 (headless_line hs'.1 hs'.2.1 hs'.2.2
      (headless_line (l := ['\x7b']) (by decide) (by decide) (by decide) hm))
  unfold extractHeader
  simp only [hj,toList_append,hf,hs,ho,hc,hl,hfd,append_assoc,cons_append,nil_append] at ha ⊢
  exact ha

lemma extractHeader_ends (r : Report) : ∃ cs, (extractHeader r).toList = cs ++ ['\n'] := by
  have hl : "\n\n".toList = ['\n'] ++ ['\n'] := by decide
  unfold extractHeader
  rw [toList_append,hl,← append_assoc]
  exact ⟨_,rfl⟩

end Job

namespace Tree.Extracted

open Text Section Files Job

structure ReadsBack (store : Store) (path : String) (xs : List Extracted) : Prop where
  loads : ∀ shelf, ∃ shelf', (Shelf.loadFile store path).perform shelf = (.ok (),shelf')
  names : (xs.map name).Nodup
  sections : Forall₂ ReadsAs xs (Section.read path (store.lines path)).items

variable {r : Report} {tgt path : String} {xs : List Extracted} {fs : Store}

lemma lines_extract (hc : r.lineTypes = some []) (ht : r.extractPath = some (some tgt))
  (hb : ∀ x ∈ xs, '\r' ∉ x.body.toList) : ∃ pre, (∀ line ∈ pre, heading? line = none) ∧
    (Content.text (extractHeader r ++ join (xs.map fragment))).lines =
      ⟨pre ++ xs.flatMap fragmentLines,none⟩ := by
  obtain ⟨hr,hh⟩ := headless_header hc ht headless_nil
  rw [append_nil] at hr hh
  obtain ⟨cs,hcs⟩ := extractHeader_ends r
  have hf (x : Extracted) (hx : x ∈ xs) : '\r' ∉ x.fragment.toList := by
    simp [fragment,no_return_name,hb x hx]
  have hj : '\r' ∉ (extractHeader r ++ join (xs.map fragment)).toList := by
    rw [toList_append,mem_append,not_or]
    refine ⟨hr,fun h => ?_⟩
    rw [← ofList_flatten_toList,toList_ofList,map_map] at h
    obtain ⟨l,hl,hm⟩ := mem_flatten.mp h
    obtain ⟨x,hx,rfl⟩ := mem_map.mp hl
    exact hf x hx hm
  refine ⟨fileLines (extractHeader r),?_,?_⟩
  · intro line hln
    obtain ⟨l,hl,rfl⟩ := mem_map.mp hln
    exact heading?_of_other (by rw [toList_ofList]; exact hh l hl)
  · rw [Content.lines,normalizeNewlines_of_no_return hj,ofList_toList,fileLines,
      toList_append,hcs,append_assoc,singleton_append,
      fileLinesFrom_append_line,map_append,← hcs,← fileLines_fragments]
    rfl

lemma read_extract (hc : r.lineTypes = some []) (ht : r.extractPath = some (some tgt))
  (hb : ∀ x ∈ xs, '\r' ∉ x.body.toList)
  (hr : fs.read path = .ok (.text (extractHeader r ++ join (xs.map fragment)))) :
  Section.read path (fs.lines path) = gather path none (xs.flatMap fragmentLines) none := by
  obtain ⟨pre,hp,hl⟩ := lines_extract hc ht hb
  have hs : fs.lines path = ⟨pre ++ xs.flatMap fragmentLines,none⟩ := by
    rw [Store.lines,hr]
    exact hl
  rw [hs]
  exact gather_before hp

lemma readsBack_iff (hc : r.lineTypes = some []) (ht : r.extractPath = some (some tgt))
  (hb : ∀ x ∈ xs, '\r' ∉ x.body.toList)
  (hr : fs.read path = .ok (.text (extractHeader r ++ join (xs.map fragment)))) :
  ReadsBack fs path xs ↔ (∀ x ∈ xs, x.Quiet) ∧ (xs.map name).Nodup := by
  have hs := read_extract hc ht hb hr
  rw [← gather_fragments path xs,← hs]
  constructor
  · exact fun h => ⟨h.sections,h.names⟩
  · rintro ⟨h,hn⟩
    refine ⟨fun shelf => ?_,hn,h⟩
    by_cases hf : path ∈ shelf.files
    · exact ⟨_,Shelf.loadFile_ok_iff.mpr (.inl ⟨hf,rfl⟩)⟩
    refine ⟨_,Shelf.loadFile_ok_iff.mpr (.inr ⟨hf,?_,?_,rfl⟩)⟩
    · rw [Shelf.sectionsOf,hs]
      exact fault_gather_none _ _ _
    · rw [Shelf.sectionsOf,names_of_reads h]
      exact hn

end Tree.Extracted

end Docweave
