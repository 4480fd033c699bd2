import Docweave.Comment.Marks
import Docweave.Proofs.Base.Matching
import Mathlib.Data.List.TakeWhile

namespace Docweave.Comment

open Pattern List Cursor

structure OpenMark where
  indent : List Char
  spaced : Bool
  after : List Char
  deriving DecidableEq, Repr, Inhabited

namespace OpenMark

def margin (m : OpenMark) : List Char := if m.spaced then [' '] else []

def head (m : OpenMark) : List Char := m.indent ++ ['/','*','*'] ++ m.margin

def found (m : OpenMark) : Found where
  before := []
  matched := m.head
  after := m.after
  captures :=
    [("margin",⟨m.indent.length + 3,m.indent.length + 3 + m.margin.length⟩),
      ("symbol",⟨m.indent.length,m.indent.length + 3⟩),("indent",⟨0,m.indent.length⟩)]

end OpenMark

def openRest (indent : List Char) : List Char → Option OpenMark
  | '/' :: _ => none
  | ' ' :: '/' :: after => some ⟨indent,false,' ' :: '/' :: after⟩
  | ' ' :: after => some ⟨indent,true,after⟩
  | after => some ⟨indent,false,after⟩

def openMark? (cs : List Char) : Option OpenMark :=
  match cs.dropWhile Text.isBlank with
  | '/' :: '*' :: '*' :: rest => openRest (cs.takeWhile Text.isBlank) rest
  | _ => none

lemma anchored_opening : Anchored opening.pattern :=
  ((((anchored_textStart.seq _).seq _).seq _).seq _)

def openingTail : Pattern :=
  capture "margin" (.run true isSpace 0 (some 1)) ++ (lastLineEnd ||| ahead (one (noneOf "/")))

lemma openingTail_meet (ind : List Char) (c : Cursor) :
    openingTail.meet c some = (openRest ind c.rest).map fun m =>
    (c.skip m.margin m.after).record "margin" c.offset := by
  obtain ⟨pre,rest,offset,captures⟩ := c
  simp only [openingTail,meet_append,meet_capture,meet_lineEnd_or_ahead "/" _ (by decide),record,skip]
  rcases rest with _ | ⟨ch,rest⟩
  · simp [meet,runGreedy,openRest,OpenMark.margin]
  by_cases hs : ch = ' '
  · subst hs
    rcases rest with _ | ⟨d,rest⟩
    · simp [meet,runGreedy,isSpace,advance,openRest,OpenMark.margin]
    by_cases hd : d = '/'
    · subst hd
      simp [meet,runGreedy,advance,openRest,OpenMark.margin]
    · simp [meet,runGreedy,isSpace,advance,openRest,OpenMark.margin,hd]
  · by_cases hd : ch = '/'
    · subst hd
      simp [meet,runGreedy,isSpace,openRest]
    · simp [meet,runGreedy,isSpace,openRest,OpenMark.margin,hs,hd]

lemma openRest_indent {ind rest : List Char} {m : OpenMark}
  (h : openRest ind rest = some m) : m.indent = ind ∧ m.margin ++ m.after = rest := by
  fun_cases openRest ind rest <;> simp_all [openRest,OpenMark.margin] <;> subst h <;> simp_all

lemma opening_search (cs : List Char) : opening.pattern.search cs = (openMark? cs).map OpenMark.found := by
  have hmt : opening.pattern.meet (start cs) some = runGreedy Text.isBlank (fun c' =>
        ((c'.record "indent" 0).take? ['/','*','*']).bind fun c'' =>
          openingTail.meet (c''.record "symbol" c'.offset) some) 0 none cs (start cs) := rfl
  have hbl : ∀ c' : Cursor, (∃ ch rest, c'.rest = ch :: rest ∧ Text.isBlank ch = true) →
      (((c'.record "indent" 0).take? ['/','*','*']).bind fun c'' =>
        openingTail.meet (c''.record "symbol" c'.offset) some) = none := by
    rintro c' ⟨ch,rest,hr,hb⟩
    have hne : '/' ≠ ch := by
      rintro rfl
      exact absurd hb (by decide)
    rw [take?_eq_none]
    · rfl
    · simp [record,hr,hne]
  rw [search_anchored anchored_opening,matchStart,foundAt_still,hmt,runGreedy_eq _ _ hbl cs (start cs) rfl]
  simp only [openMark?]
  generalize cs.takeWhile Text.isBlank = ind
  generalize cs.dropWhile Text.isBlank = rest
  by_cases hp : ['/','*','*'] <+: rest
  · obtain ⟨after,rfl⟩ := hp
    rw [take?_append ['/','*','*'] after]
    · simp only [Option.bind_some,openingTail_meet ind,Option.map_map,cons_append,
        nil_append,record,skip]
      cases hm : openRest ind after with
      | none => rfl
      | some m =>
        obtain ⟨rfl,rfl⟩ := openRest_indent hm
        have he := Found.between_start cs m.head m.after m.found.captures
        simpa [OpenMark.found,OpenMark.head,start,Nat.add_assoc,Nat.add_comm m.margin.length 3] using he
    · rfl
  rw [take?_eq_none]
  · split
    · rename_i h
      exact absurd ⟨_,rfl⟩ hp
    · rfl
  · exact hp

def splitClose : List Char → Option (List Char × List Char)
  | '*' :: '/' :: rest => some ([],rest)
  | c :: rest => (splitClose rest).map fun p => (c :: p.1,p.2)
  | [] => none

def isIndentChar : Char → Bool := oneOf " \t"

structure CloseMark where
  before : List Char
  indent : Option (List Char)
  after : List Char
  deriving DecidableEq, Repr

namespace CloseMark

def indentChars (m : CloseMark) : List Char := m.indent.getD []

def found (m : CloseMark) : Found where
  before := m.before
  matched := m.indentChars ++ ['*','/']
  after := m.after
  captures :=
    ("symbol",⟨m.before.length + m.indentChars.length,m.before.length + m.indentChars.length + 2⟩)
      :: (m.indent.map fun i => ("indent",⟨0,i.length⟩)).toList

end CloseMark

def closeMark? (cs : List Char) : Option CloseMark :=
  (splitClose cs).map fun (before,after) =>
    if before.all isIndentChar then ⟨[],some before,after⟩ else ⟨before,none,after⟩

lemma splitClose_of_dropWhile {cs after : List Char} (h : cs.dropWhile isIndentChar = '*' :: '/' :: after) :
  splitClose cs = some (cs.takeWhile isIndentChar,after) := by
  induction cs with
  | nil => simp at h
  | cons ch cs ih =>
    cases hp : isIndentChar ch with
    | true =>
      have hne : ch ≠ '*' := by
        rintro rfl
        exact absurd hp (by decide)
      rw [dropWhile_cons,hp] at h
      rw [takeWhile_cons,hp,splitClose,ih h]
      · rfl
      · simp [hne]
    | false =>
      rw [dropWhile_cons,hp] at h
      simp only [Bool.false_eq_true,if_false] at h
      rw [takeWhile_cons,hp,h]
      rfl

lemma dropWhile_of_splitClose {cs pre after : List Char} (h : splitClose cs = some (pre,after))
  (hb : pre.all isIndentChar) : cs.dropWhile isIndentChar = '*' :: '/' :: after := by
  fun_induction splitClose cs generalizing pre with
  | case1 rest =>
    simp only [Option.some.injEq,Prod.mk.injEq] at h
    rw [← h.2]
    rfl
  | case2 c rest _ ih =>
    obtain ⟨⟨b,a⟩,hs,he⟩ := Option.map_eq_some_iff.mp h
    cases he
    simp only [all_cons,Bool.and_eq_true] at hb
    rw [dropWhile_cons,hb.1]
    exact ih hs hb.2
  | case3 => simp at h

lemma closing_meet (c : Cursor) : closing.pattern.meet c some =
    ((capture "indent" (textStart ++ many isIndentChar)).meet c fun c' =>
      (c'.take? ['*','/']).map fun c'' => c''.record "symbol" c'.offset).orElse fun _ =>
        (c.take? ['*','/']).map fun c' => c'.record "symbol" c.offset := by
  have he (c' : Cursor) : (capture "symbol" (lit "*/")).meet c' some =
      (c'.take? ['*','/']).map fun c'' => c''.record "symbol" c'.offset := by
    rw [Option.map_eq_bind]
    rfl
  simp only [closing,meet_append,meet_optional,he]
  rfl

lemma closing_meet_later (c : Cursor) (hb : c.before ≠ []) : closing.pattern.meet c some =
    (c.take? ['*','/']).map fun c' => c'.record "symbol" c.offset := by
  rw [closing_meet]
  simp [meet_append,meet,hb]

lemma closing_meet_start (cs : List Char) :
  (capture "indent" (textStart ++ many isIndentChar)).meet (start cs) (fun c' =>
      (c'.take? ['*','/']).map fun c'' => c''.record "symbol" c'.offset) =
    ((((start cs).skip (cs.takeWhile isIndentChar) (cs.dropWhile isIndentChar)).record
      "indent" 0).take? ['*','/']).map fun c' => c'.record "symbol" (cs.takeWhile isIndentChar).length := by
  have hrn := runGreedy_eq isIndentChar (fun c' =>
      ((c'.record "indent" 0).take? ['*','/']).map fun c'' => c''.record "symbol" c'.offset) (by
    rintro c' ⟨ch,rest,hr,hp⟩
    have hne : '*' ≠ ch := by
      rintro rfl
      exact absurd hp (by decide)
    rw [take?_eq_none]
    · rfl
    · simp [record,hr,hne]) cs (start cs) rfl
  have ho : ((start cs).skip (cs.takeWhile isIndentChar)
      (cs.dropWhile isIndentChar)).offset = (cs.takeWhile isIndentChar).length := by
    simp [skip,start]
  rw [← ho]
  exact hrn

lemma take?_eq_none_of_not_close {c : Cursor}
  (h : ∀ after, c.rest ≠ '*' :: '/' :: after) : c.take? ['*','/'] = none := by
  refine take?_eq_none _ _ ?_
  rintro ⟨after,ha⟩
  exact h after ha.symm

lemma searchFrom_closing (rest : List Char) (c : Cursor) (hr : c.rest = rest) (hb : c.before ≠ [])
  (ho : c.offset = c.before.length) (hc : c.captures = []) : closing.pattern.searchFrom false rest c =
    (splitClose rest).map fun p => (⟨c.before.reverse ++ p.1,none,p.2⟩ : CloseMark).found := by
  fun_induction splitClose rest generalizing c with
  | case1 rest =>
    rw [searchFrom,foundAt_still,closing_meet_later c hb,take?_append _ rest c hr]
    simp [Found.between,CloseMark.found,CloseMark.indentChars,record,skip,ho,hc]
  | case2 ch rest hne ih =>
    have hn := take?_eq_none_of_not_close (c := c) (by
      rw [hr]
      intro after ha
      obtain ⟨h1,h2⟩ := cons.inj ha
      exact hne after h1 h2)
    rw [searchFrom,foundAt_still,closing_meet_later c hb,hn]
    rw [ih (c.advance ch rest) rfl (by simp [advance]) (by simp [advance,ho])
      (by simp [advance,hc])]
    simp [Function.comp_def,advance]
  | case3 =>
    have hn := take?_eq_none_of_not_close (c := c) (by simp [hr])
    rw [searchFrom,foundAt_still,closing_meet_later c hb,hn]
    rfl

lemma closing_search (cs : List Char) : closing.pattern.search cs = (closeMark? cs).map CloseMark.found := by
  by_cases hd : ∃ after, cs.dropWhile isIndentChar = '*' :: '/' :: after
  · obtain ⟨after,hd⟩ := hd
    have he := Found.between_start cs (cs.takeWhile isIndentChar ++ ['*','/']) after
      (⟨[],some (cs.takeWhile isIndentChar),after⟩ : CloseMark).found.captures
    have hf : closing.pattern.foundAt false (start cs) =
        some (⟨[],some (cs.takeWhile isIndentChar),after⟩ : CloseMark).found := by
      rw [foundAt_still,closing_meet,closing_meet_start,take?_append _ after _ hd]
      simpa [CloseMark.found,CloseMark.indentChars,record,skip,start] using he
    rw [closeMark?,splitClose_of_dropWhile hd,search,searchFrom.eq_def]
    simp only [hf,all_takeWhile,if_true,Option.map_some]
  have hst : ∀ after, cs ≠ '*' :: '/' :: after := by
    rintro after rfl
    exact hd ⟨after,rfl⟩
  have hn : closing.pattern.foundAt false (start cs) = none := by
    rw [foundAt_still,closing_meet,closing_meet_start,
      take?_eq_none_of_not_close (fun after h => hd ⟨after,h⟩),take?_eq_none_of_not_close hst]
    rfl
  cases cs with
  | nil => simp [search,searchFrom,hn,closeMark?,splitClose]
  | cons ch rest =>
    have hsp : splitClose (ch :: rest) = (splitClose rest).map fun p => (ch :: p.1,p.2) := by
      rw [splitClose]
      rintro after rfl rfl
      exact hst after rfl
    rw [search,searchFrom,hn]
    rw [searchFrom_closing rest _ rfl (by simp [advance]) rfl rfl,closeMark?]
    cases hs : splitClose rest with
    | none => rw [hsp,hs]; rfl
    | some p =>
      have hb : ¬ (ch :: p.1).all isIndentChar := fun hb =>
        hd ⟨p.2,dropWhile_of_splitClose (by rw [hsp,hs]; rfl) hb⟩
      rw [hsp,hs]
      simp only [Option.map_some,hb]
      rfl

inductive Leader where
  | bare
  | star
  | starSpace
  deriving DecidableEq, Repr

namespace Leader

def symbol : Leader → List Char
  | bare => []
  | star | starSpace => ['*']

def margin : Leader → List Char
  | bare | star => []
  | starSpace => [' ']

end Leader

structure ContinueMark where
  indent : Nat
  leader : Leader
  after : List Char
  deriving DecidableEq, Repr

namespace ContinueMark

def atEnd (m : ContinueMark) : Bool := m.after.isEmpty || m.after == ['\n']

def captures (m : ContinueMark) : List (String × Span) :=
  match m.leader with
  | .bare => [(if m.atEnd then "EOL" else "nonSymbol",⟨m.indent,m.indent⟩)]
  | .star => [(if m.atEnd then "symbolEOL" else "symbolNonSlash",⟨m.indent,m.indent + 1⟩)]
  | .starSpace => [("margin",⟨m.indent + 1,m.indent + 2⟩),("symbolMargin",⟨m.indent,m.indent + 1⟩)]

def head (m : ContinueMark) : List Char :=
  replicate m.indent ' ' ++ m.leader.symbol ++ m.leader.margin

def found (m : ContinueMark) : Found where
  before := []
  matched := m.head
  after := m.after
  captures := m.captures ++ [("indent",⟨0,m.indent⟩)]

end ContinueMark

def continueRest (indent : Nat) : List Char → ContinueMark
  | '*' :: ' ' :: after => ⟨indent,.starSpace,after⟩
  | '*' :: after => ⟨indent,.star,after⟩
  | after => ⟨indent,.bare,after⟩

@[simp] lemma continueRest_indent (n : Nat) (rest : List Char) : (continueRest n rest).indent = n := by
  fun_cases continueRest n rest <;> rfl

def continueMark (cs : List Char) : ContinueMark :=
  continueRest (cs.takeWhile isSpace).length (cs.dropWhile isSpace)

lemma anchored_continuation : Anchored continuation.pattern :=
  (anchored_textStart.seq _).seq _

def continuationTail : Pattern :=
  (capture "symbolEOL" (lit "*") ++ lastLineEnd)
    ||| (capture "symbolMargin" (lit "*") ++ capture "margin" (lit " "))
    ||| (capture "symbolNonSlash" (lit "*") ++ ahead (one (noneOf "/")))
    ||| (capture "EOL" empty ++ lastLineEnd)
    ||| (capture "nonSymbol" empty ++ ahead (one (noneOf "* ")))

lemma continuationTail_space (c : Cursor) (ch : Char) (rest : List Char)
  (hr : c.rest = ch :: rest) (hs : isSpace ch) : continuationTail.meet c some = none := by
  simp only [isSpace,beq_iff_eq] at hs
  subst hs
  simp [continuationTail,meet_or,meet_append,meet_lit,meet,take?,hr,noneOf,record]

lemma continuationTail_meet (c : Cursor) (h : ¬ ['*','/'] <+: c.rest)
    (hs : ∀ ch rest, c.rest = ch :: rest → isSpace ch = false) :
    continuationTail.meet c some = let m := continueRest c.offset c.rest
      some { c.skip (m.leader.symbol ++ m.leader.margin) m.after with
        captures := m.captures ++ c.captures } := by
  obtain ⟨pre,rest,offset,captures⟩ := c
  simp only [continuationTail,meet_or,meet_append,meet_capture,meet_lit]
  rcases rest with _ | ⟨ch,rest⟩
  · simp [meet,take?,record,skip,continueRest,Leader.symbol,Leader.margin,
      ContinueMark.captures,ContinueMark.atEnd]
  have hsp : ch ≠ ' ' := by simpa [isSpace] using hs ch rest rfl
  by_cases hst : ch = '*'
  · subst hst
    rcases rest with _ | ⟨d,rest⟩
    · simp [meet,take?,record,skip,advance,continueRest,
        Leader.symbol,Leader.margin,ContinueMark.captures,ContinueMark.atEnd]
    have hsl : d ≠ '/' := by
      rintro rfl
      exact h ⟨rest,rfl⟩
    by_cases hd : d = ' '
    · subst hd
      simp [meet,take?,record,skip,advance,continueRest,
        Leader.symbol,Leader.margin,ContinueMark.captures]
    by_cases hn : d = '\n' ∧ rest = []
    · obtain ⟨rfl,rfl⟩ := hn
      simp [meet,take?,record,skip,advance,continueRest,
        Leader.symbol,Leader.margin,ContinueMark.captures,ContinueMark.atEnd]
    · simp [meet,take?,record,skip,advance,continueRest,
        Leader.symbol,Leader.margin,ContinueMark.captures,ContinueMark.atEnd,hd,hn,noneOf,
        hsl,Ne.symm hd]
  by_cases hn : ch = '\n' ∧ rest = []
  · obtain ⟨rfl,rfl⟩ := hn
    simp [meet,take?,record,skip,continueRest,
      Leader.symbol,Leader.margin,ContinueMark.captures,ContinueMark.atEnd]
  · simp [meet,take?,record,skip,continueRest,advance,
      Leader.symbol,Leader.margin,ContinueMark.captures,ContinueMark.atEnd,hn,noneOf,
      hst,Ne.symm hst,hsp]

lemma takeWhile_isSpace (cs : List Char) :
    cs.takeWhile isSpace = replicate (cs.takeWhile isSpace).length ' ' := by
  rw [eq_replicate_iff]
  exact ⟨rfl,fun c hc => by simpa [isSpace] using mem_takeWhile_imp hc⟩

lemma continuation_search (cs : List Char) (h : ¬ ['*','/'] <+: cs.dropWhile isSpace) :
  continuation.pattern.search cs = some (continueMark cs).found := by
  have hm : continuation.pattern.meet (start cs) some =
      runGreedy isSpace (fun c' => continuationTail.meet (c'.record "indent" 0) some) 0 none cs
        (start cs) := rfl
  have hh : ∀ ch rest, cs.dropWhile isSpace = ch :: rest → isSpace ch = false := by
    intro ch rest hd
    have hne : cs.dropWhile isSpace ≠ [] := by simp [hd]
    simpa [hd] using head_dropWhile_not isSpace hne
  rw [search_anchored anchored_continuation,matchStart,foundAt_still,hm,runGreedy_eq _ _ _ cs (start cs) rfl]
  · rw [continuationTail_meet _ h hh]
    have he := Found.between_start cs (cs.takeWhile isSpace ++ ((continueMark cs).leader.symbol
      ++ (continueMark cs).leader.margin)) (continueMark cs).after (continueMark cs).found.captures
    have hi : (continueMark cs).indent = (cs.takeWhile isSpace).length :=
      continueRest_indent _ _
    have hf : (continueMark cs).found = ⟨[],cs.takeWhile isSpace ++
        ((continueMark cs).leader.symbol ++ (continueMark cs).leader.margin),
        (continueMark cs).after,(continueMark cs).found.captures⟩ := by
      rw [ContinueMark.found,ContinueMark.head,hi,← takeWhile_isSpace,append_assoc]
    rw [hf,← he]
    simp [ContinueMark.found,continueMark,skip,start,record]
  · rintro c' ⟨ch,rest,hr,hs⟩
    exact continuationTail_space _ ch rest hr hs

lemma endNewlines_meet (c : Cursor) : lineEnding.pattern.meet c some =
      if c.rest.all Text.isNewline then some (c.skip c.rest []) else none := by
  have hrn (rest : List Char) : ∀ c : Cursor, c.rest = rest →
      runGreedy Text.isNewline (fun c' => lastLineEnd.meet c' some) 0 none rest c =
        if rest.all Text.isNewline then some (c.skip rest []) else none := by
    induction rest with
    | nil =>
      rintro ⟨pre,rest,offset,captures⟩ rfl
      simp [runGreedy,meet,skip]
    | cons ch rest ih =>
      intro c hr
      have hrc := ih (c.advance ch rest) rfl
      have hl : lastLineEnd.meet c some = if ch = '\n' ∧ rest = [] then some c else none := by
        simp [meet,hr]
      cases hp : Text.isNewline ch with
      | true =>
        simp only [runGreedy,hp,ne_eq,reduceCtorEq,not_false_eq_true,and_self,if_true,
          Nat.zero_sub,Option.map_none,hrc,skip_cons,all_cons,Bool.true_and]
        by_cases ha : rest.all Text.isNewline = true
        · simp [ha]
        · have hne : ¬ (ch = '\n' ∧ rest = []) := by
            rintro ⟨-,rfl⟩
            exact ha rfl
          simp [ha,hl,hne]
      | false =>
        have hne : ch ≠ '\n' := by
          rintro rfl
          exact absurd hp (by decide)
        simp [runGreedy,hp,hl,hne]
  exact hrn c.rest c rfl

def bodyText (cs : List Char) : List Char := Text.dropEndWhile Text.isNewline cs

def lineEnd (cs : List Char) : List Char := cs.drop (bodyText cs).length

lemma dropEndWhile_cons (p : Char → Bool) (ch : Char) (cs : List Char) : Text.dropEndWhile p (ch :: cs) =
      if (ch :: cs).all p then [] else ch :: Text.dropEndWhile p cs := by
  by_cases ha : cs.all p = true
  · have hn : cs.reverse.dropWhile p = [] := by
      rw [dropWhile_eq_nil_iff]
      intro x hx
      exact all_eq_true.mp ha x (mem_reverse.mp hx)
    cases hp : p ch <;> simp [Text.dropEndWhile,dropWhile_append,hn,hp,ha]
  · have hne : (cs.reverse.dropWhile p).isEmpty = false := by
      rw [isEmpty_eq_false_iff,Ne,dropWhile_eq_nil_iff]
      exact fun hal => ha (all_eq_true.mpr fun x hx => hal x (mem_reverse.mpr hx))
    simp [Text.dropEndWhile,dropWhile_append,hne,ha]

lemma bodyText_append_lineEnd (cs : List Char) : bodyText cs ++ lineEnd cs = cs := by
  have hp : bodyText cs <+: cs := by
    rw [bodyText,Text.dropEndWhile,← reverse_suffix,reverse_reverse]
    exact dropWhile_suffix _
  exact prefix_iff_eq_append.mp hp

lemma ofList_bodyText_lineEnd (cs : List Char) :
  String.ofList (bodyText cs) ++ String.ofList (lineEnd cs) = String.ofList cs := by
  rw [← String.ofList_append,bodyText_append_lineEnd]

lemma searchFrom_lineEnding (rest : List Char) (c : Cursor) (hr : c.rest = rest)
  (ho : c.offset = c.before.length) (hc : c.captures = []) : lineEnding.pattern.searchFrom false rest c =
    some ⟨c.before.reverse ++ bodyText rest,lineEnd rest,[],[]⟩ := by
  induction rest generalizing c with
  | nil =>
    rw [searchFrom,foundAt_still,endNewlines_meet,hr]
    simp [Found.between,skip,bodyText,lineEnd,Text.dropEndWhile,hc]
  | cons ch rest ih =>
    rw [searchFrom,foundAt_still,endNewlines_meet,hr]
    by_cases ha : (ch :: rest).all Text.isNewline = true
    · have hb : bodyText (ch :: rest) = [] := by rw [bodyText,dropEndWhile_cons,if_pos ha]
      have ht : ((ch :: rest).reverse ++ c.before).take (ch :: rest).length =
          (ch :: rest).reverse := take_left' (length_reverse)
      simp only [ha,if_true,Option.map_some,Found.between,skip,hc,
        Nat.add_sub_cancel_left,ht,hb,append_nil,reverse_reverse,lineEnd,
        length_nil,drop_zero]
    have hb : bodyText (ch :: rest) = ch :: bodyText rest := by
      rw [bodyText,dropEndWhile_cons,if_neg ha]
      rfl
    have he : lineEnd (ch :: rest) = lineEnd rest := by
      simp [lineEnd,hb]
    simp only [ha]
    rw [hb,he]
    simpa [advance] using ih (c.advance ch rest) rfl (by simp [advance,ho]) (by simp [advance,hc])

lemma lineEnding_search (cs : List Char) : lineEnding.pattern.search cs = some ⟨bodyText cs,lineEnd cs,[],[]⟩ :=
  searchFrom_lineEnding cs (start cs) rfl rfl rfl

namespace OpenMark

variable (m : OpenMark)

lemma slice_indent : Found.slice (m.head ++ m.after) ⟨0,m.indent.length⟩ = m.indent :=
  Found.slice_eq [] (['/','*','*'] ++ m.margin ++ m.after) _ (by simp [head]) rfl (by simp)

lemma slice_symbol : Found.slice (m.head ++ m.after) ⟨m.indent.length,m.indent.length + 3⟩ = ['/','*','*'] :=
  Found.slice_eq m.indent (m.margin ++ m.after) _ (by simp [head]) rfl rfl

lemma slice_margin : Found.slice (m.head ++ m.after)
  ⟨m.indent.length + 3,m.indent.length + 3 + m.margin.length⟩ = m.margin :=
  Found.slice_eq (m.indent ++ ['/','*','*']) m.after _ (by simp [head]) (by simp) (by simp)

end OpenMark

namespace CloseMark

def whole (k : CloseMark) : List Char := k.before ++ k.indentChars ++ '*' :: '/' :: k.after

lemma slice_symbol (k : CloseMark) : Found.slice k.whole
  ⟨k.before.length + k.indentChars.length,k.before.length + k.indentChars.length + 2⟩ = ['*','/'] :=
  Found.slice_eq (k.before ++ k.indentChars) k.after _ (by simp [whole]) (by simp) (by simp)

lemma slice_before (k : CloseMark) : Found.slice k.whole ⟨0,k.before.length⟩ = k.before :=
  Found.slice_eq [] (k.indentChars ++ '*' :: '/' :: k.after) _ (by simp [whole]) rfl (by simp)

lemma slice_indent {k : CloseMark} (h : k.before = []) :
  Found.slice k.whole ⟨0,k.indentChars.length⟩ = k.indentChars :=
  Found.slice_eq [] ('*' :: '/' :: k.after) _ (by simp [whole,h]) rfl (by simp)

end CloseMark

namespace ContinueMark

variable (m : ContinueMark)

lemma slice_indent : Found.slice (m.head ++ m.after) ⟨0,m.indent⟩ = replicate m.indent ' ' :=
  Found.slice_eq [] (m.leader.symbol ++ m.leader.margin ++ m.after) _ (by simp [head]) rfl (by simp)

lemma slice_symbol : Found.slice (m.head ++ m.after) ⟨m.indent,m.indent + m.leader.symbol.length⟩ =
    m.leader.symbol :=
  Found.slice_eq (replicate m.indent ' ') (m.leader.margin ++ m.after) _ (by simp [head]) (by simp) (by simp)

lemma slice_margin : Found.slice (m.head ++ m.after) ⟨m.indent + m.leader.symbol.length,
  m.indent + m.leader.symbol.length + m.leader.margin.length⟩ = m.leader.margin :=
  Found.slice_eq (replicate m.indent ' ' ++ m.leader.symbol) m.after _ (by simp [head]) (by simp) (by simp)

end ContinueMark

end Docweave.Comment
