import Docweave.Proofs.Comments.Strips

namespace Docweave.Comment

open Text List

variable {cs l after pre : List Char} {c : Char}

def prepend (cs : List Char) : List (List Char) → List (List Char)
  | [] => [cs]
  | g :: gs => (cs ++ g) :: gs

def gaps : List Strip → List (List Char)
  | [] => [[]]
  | .code _ cs :: ss => prepend cs (gaps ss)
  | .start _ _ :: ss => [] :: gaps ss
  | .middle _ _ :: ss => gaps ss
  | .finish _ _ :: ss => gaps ss

def weight : List (List Char) → Nat
  | [] => 0
  | g :: gs => g.length + 1 + weight gs

lemma gaps_ne_nil (ss : List Strip) : gaps ss ≠ [] := by
  fun_induction gaps ss with
  | case1 => simp
  | case2 n cs ss ih => cases h : gaps ss <;> simp [prepend]
  | case3 n m ss ih => simp
  | case4 n m ss ih => exact ih
  | case5 n i ss ih => exact ih

lemma weight_prepend (cs : List Char) {gs : List (List Char)} (h : gs ≠ []) :
  weight (prepend cs gs) = cs.length + weight gs := by
  cases gs with
  | nil => exact absurd rfl h
  | cons g gs => simp [prepend,weight,Nat.add_assoc]

def gapsFrom (n : Nat) (inComment : Bool) (cs : List Char) : List (List Char) :=
  gaps (cutFrom n inComment (fileLinesFrom [] cs))

lemma gapsFrom_ne_nil (n : Nat) (inComment : Bool) (cs : List Char) : gapsFrom n inComment cs ≠ [] :=
  gaps_ne_nil _

lemma fileLinesFrom_append (h : '\n' ∉ l) (line rest : List Char) :
  fileLinesFrom line (l ++ rest) = fileLinesFrom (l.reverse ++ line) rest := by
  induction l generalizing line with
  | nil => rfl
  | cons c l ih =>
    rw [mem_cons,not_or] at h
    rw [cons_append,fileLinesFrom.eq_4 _ _ _ fun hc => h.1 hc.symm,ih h.2,reverse_cons,append_assoc]
    rfl

lemma fileLinesFrom_line (h : '\n' ∉ l) (line rest : List Char) :
  fileLinesFrom line (l ++ '\n' :: rest) = (line.reverse ++ l ++ ['\n']) :: fileLinesFrom [] rest := by
  rw [fileLinesFrom_append h]
  simp [fileLinesFrom]

lemma fileLinesFrom_last (h : '\n' ∉ l) (line : List Char) (hne : line ≠ [] ∨ l ≠ []) :
  fileLinesFrom line l = [line.reverse ++ l] := by
  have ha := fileLinesFrom_append h line []
  rw [append_nil] at ha
  rw [ha]
  cases hl : l.reverse ++ line with
  | nil => simp_all
  | cons d ds => simp [fileLinesFrom,← hl]

lemma gaps_opened (n : Nat) (m : OpenMark) (cs : List Char) (ss : List Strip) :
  gaps ((cutInside n (.opened m) cs).strips ++ ss) = [] :: gaps ((cutInside n .inside cs).strips ++ ss) := by
  have hi (cs : List Char) (ss : List Strip) : gaps (Head.inside.strips n cs ++ ss) = gaps ss := by
    cases cs <;> rfl
  cases hk : closeMark? cs with
  | none =>
    rw [cutInside_body n _ hk,cutInside_body n _ hk]
    simp only [hi]
    rfl
  | some k =>
    rw [cutInside_close n _ hk,cutInside_close n _ hk]
    simp only [Cut.precede,append_assoc,hi]
    rfl

section

variable {l : List Char} (h : '\n' ∉ l) (n : Nat) (rest : List Char)

include h

lemma gapsFrom_code (hl : openMark? (l ++ ['\n']) = none) :
  gapsFrom n false (l ++ '\n' :: rest) = prepend (l ++ ['\n']) (gapsFrom (n + 1) false rest) := by
  rw [gapsFrom,fileLinesFrom_line h,cutFrom,cutLine,reverse_nil,nil_append,cutOutside_code n hl]
  simp [gaps,gapsFrom]

lemma gapsFrom_last (hl : openMark? l = none) : gapsFrom n false l = [l] := by
  by_cases hne : l = []
  · subst hne
    rfl
  · rw [gapsFrom,fileLinesFrom_last h [] (Or.inr hne),cutFrom,cutLine,reverse_nil,nil_append,
      cutOutside_code n hl]
    simp [hne,gaps,cutFrom,prepend]

lemma gapsFrom_open {m : OpenMark} (hm : openMark? (l ++ ['\n']) = some m) {l' : List Char}
  (ha : m.after = l' ++ ['\n']) (hl' : '\n' ∉ l') :
  gapsFrom n false (l ++ '\n' :: rest) = [] :: gapsFrom n true (l' ++ '\n' :: rest) := by
  rw [gapsFrom,gapsFrom,fileLinesFrom_line h,fileLinesFrom_line hl',cutFrom,cutFrom,cutLine,
    cutLine,reverse_nil,nil_append,nil_append,cutOutside_open n hm,gaps_opened,
    inComment_any_head,ha]

lemma gapsFrom_body (hl : splitClose (l ++ ['\n']) = none) :
  gapsFrom n true (l ++ '\n' :: rest) = gapsFrom (n + 1) true rest := by
  have hk : closeMark? (l ++ ['\n']) = none := by rw [closeMark?,hl]; rfl
  rw [gapsFrom,fileLinesFrom_line h,cutFrom,cutLine,reverse_nil,nil_append,
    cutInside_body n _ hk,Head.strips_inside n (by simp)]
  rfl

end

lemma splitClose_append (h : splitClose cs = some (pre,after)) (rest : List Char) :
  splitClose (cs ++ rest) = some (pre,after ++ rest) := by
  fun_induction splitClose cs generalizing pre with
  | case1 cs =>
    cases h
    rfl
  | case2 c cs hne ih =>
    obtain ⟨⟨pre',after'⟩,hs,he⟩ := Option.map_eq_some_iff.mp h
    cases he
    have hne' : ∀ tail, c = '*' → cs ++ rest = '/' :: tail → False := by
      intro tail hc hcs
      cases cs with
      | nil => cases hs
      | cons d cs =>
        cases hcs
        exact hne cs hc rfl
    rw [cons_append,splitClose.eq_2 _ _ hne',ih hs]
    rfl
  | case3 => cases h

lemma splitClose_line (h : splitClose (l ++ ['\n']) = none) (rest : List Char) :
  splitClose (l ++ '\n' :: rest) = (splitClose rest).map fun p => (l ++ '\n' :: p.1,p.2) := by
  induction l with
  | nil =>
    rfl
  | cons c l ih =>
    have hne : ∀ tail, c = '*' → l ++ '\n' :: rest = '/' :: tail → False := by
      intro tail hc hcs
      cases l with
      | nil => simp at hcs
      | cons d l =>
        cases hcs
        subst hc
        simp [splitClose] at h
    have hne' : ∀ tail, c = '*' → l ++ ['\n'] = '/' :: tail → False := by
      intro tail hc hcs
      rw [cons_append,hc,hcs] at h
      cases h
    rw [cons_append,splitClose.eq_2 _ _ hne',Option.map_eq_none_iff] at h
    rw [cons_append,splitClose.eq_2 _ _ hne,ih h,Option.map_map]
    rfl

lemma gaps_closed {n : Nat} (h : splitClose cs = some (pre,after)) (ss : List Strip) :
  gaps ((cutInside n .inside cs).strips ++ ss) = gaps ((cutOutside n after).strips ++ ss) ∧
    (cutInside n .inside cs).inComment = (cutOutside n after).inComment := by
  obtain ⟨k,hk,ha⟩ : ∃ k, closeMark? cs = some k ∧ k.after = after := by
    rw [closeMark?,h]
    refine ⟨_,rfl,?_⟩
    simp only
    split <;> rfl
  rw [cutInside_close n _ hk,ha]
  refine ⟨?_,rfl⟩
  cases hb : k.before <;> rfl

lemma byLines {P : List Char → Prop} (last : ∀ l, '\n' ∉ l → P l)
  (line : ∀ l rest, '\n' ∉ l → P rest → P (l ++ '\n' :: rest)) (cs : List Char) : P cs := by
  induction hle : cs.length using Nat.strongRecOn generalizing cs with
  | ind k ih =>
    by_cases hm : '\n' ∈ cs
    · obtain ⟨l,rest,rfl,hl⟩ := eq_append_cons_of_mem hm
      exact line l rest hl (ih rest.length (by rw [← hle]; simp; omega) rest rfl)
    · exact last cs hm

lemma ends_line (hl : '\n' ∉ l) (hne : after ≠ []) (h : pre ++ after = l ++ ['\n']) :
  ∃ l', '\n' ∉ l' ∧ after = l' ++ ['\n'] := by
  obtain ⟨l',d,rfl⟩ : ∃ l' d, after = l' ++ [d] :=
    ⟨after.dropLast,after.getLast hne,(dropLast_append_getLast hne).symm⟩
  rw [← append_assoc] at h
  obtain ⟨rfl,hd⟩ := append_inj' h rfl
  refine ⟨l',fun hm => hl (mem_append_right _ hm),?_⟩
  rw [hd]

lemma gapsFrom_closed (cs : List Char) : ∀ (n : Nat) {pre after : List Char},
  splitClose cs = some (pre,after) → ∃ n', gapsFrom n true cs = gapsFrom n' false after := by
  induction cs using byLines with
  | line l rest hl ih =>
    intro n pre after h
    cases hs : splitClose (l ++ ['\n']) with
    | none =>
      rw [splitClose_line hs,Option.map_eq_some_iff] at h
      obtain ⟨⟨pre',after'⟩,hr,he⟩ := h
      cases he
      rw [gapsFrom_body hl n rest hs]
      exact ih (n + 1) hr
    | some p =>
      obtain ⟨pre',after'⟩ := p
      have hln := splitClose_append hs rest
      rw [append_assoc,singleton_append,h] at hln
      cases hln
      have hsp := splitClose_split hs
      have hne : after' ≠ [] := by
        rintro rfl
        have hls := congrArg List.getLast? hsp
        simp at hls
      have hen : (pre ++ ['*','/']) ++ after' = l ++ ['\n'] := by simpa using hsp
      obtain ⟨l',hl',rfl⟩ := ends_line hl hne hen
      refine ⟨n,?_⟩
      rw [append_assoc,singleton_append,gapsFrom,gapsFrom,fileLinesFrom_line hl,
        fileLinesFrom_line hl',cutFrom,cutFrom,cutLine,cutLine,reverse_nil,
        nil_append,nil_append,(gaps_closed hs _).1,(gaps_closed hs []).2]
  | last cs hm =>
    intro n pre after h
    have hne : cs ≠ [] := by
      rintro rfl
      cases h
    have haf : '\n' ∉ after := by
      intro hin
      apply hm
      rw [← splitClose_split h]
      simp [hin]
    refine ⟨n,?_⟩
    rw [gapsFrom,fileLinesFrom_last hm [] (Or.inr hne),cutFrom,cutLine,reverse_nil,nil_append,
      (gaps_closed h _).1]
    by_cases ha : after = []
    · subst ha
      rw [cutOutside_nil]
      rfl
    · rw [gapsFrom,fileLinesFrom_last haf [] (Or.inr ha)]
      rfl

inductive Portion where
  | code (text : List Char)
  | comment (text : List Char)

namespace Portion

def text : Portion → List Char
  | code cs => cs
  | comment cs => cs

def gaps : List Portion → List (List Char)
  | [] => [[]]
  | .code cs :: ps => prepend cs (gaps ps)
  | .comment _ :: ps => [] :: gaps ps

lemma gaps_ne_nil (ps : List Portion) : gaps ps ≠ [] := by
  fun_cases gaps ps with
  | case1 => simp
  | case2 cs ps => cases h : gaps ps <;> simp [prepend]
  | case3 cs ps => simp

end Portion

open Portion (text)

variable {ps : List Portion}

def EndsLine (cs : List Char) : Prop := ∃ l, cs = l ++ ['\n']

def IsTail (cs : List Char) : Prop :=
  ∃ y k, cs = y ++ replicate k ' ' ++ ['*','/'] ∧ (y = [] ∨ EndsLine y)

def Rendered (cs : List Char) : Prop :=
  ∃ k body k', cs = replicate k ' ' ++ '/' :: '*' :: '*' :: (body ++ replicate k' ' ' ++ ['*','/']) ∧
    (body.head? = some ' ' ∨ body.head? = some '\n') ∧ EndsLine body

def ClosesEarly (cs : List Char) : Prop := ∃ before after, cs = before ++ '*' :: '/' :: after ∧ after ≠ []

lemma splitClose_skip (h : c = '*' → cs.head? ≠ some '/') :
  (splitClose (c :: cs)).map Prod.snd = (splitClose cs).map Prod.snd := by
  rw [splitClose.eq_2 _ _ (by
    intro tail hc hcs
    exact h hc (by rw [hcs]; rfl)),Option.map_map]
  rfl

lemma closesEarly_iff (cs : List Char) :
  ClosesEarly cs ↔ ∃ after, (splitClose cs).map Prod.snd = some after ∧ after ≠ [] := by
  constructor
  · rintro ⟨pre,after,rfl,hne⟩
    induction pre with
    | nil => exact ⟨after,rfl,hne⟩
    | cons c pre ih =>
      rw [cons_append]
      by_cases hc : c = '*' ∧ (pre ++ '*' :: '/' :: after).head? = some '/'
      · obtain ⟨rfl,hh⟩ := hc
        obtain ⟨tail,ht⟩ := head?_eq_some_iff.mp hh
        refine ⟨tail,by rw [ht]; rfl,?_⟩
        rintro rfl
        have hl := congrArg List.length ht
        simp at hl
        omega
      · rw [splitClose_skip (not_and.mp hc)]
        exact ih
  · rintro ⟨after,hs,hne⟩
    obtain ⟨⟨pre,after'⟩,hsp,rfl⟩ := Option.map_eq_some_iff.mp hs
    exact ⟨pre,after',(splitClose_split hsp).symm,hne⟩

lemma endsLine_of_cons (h : EndsLine (c :: cs)) : (cs = [] ∧ c = '\n') ∨ EndsLine cs := by
  obtain ⟨l,hl⟩ := h
  cases l with
  | nil =>
    cases hl
    exact Or.inl ⟨rfl,rfl⟩
  | cons d l =>
    cases hl
    exact Or.inr ⟨l,rfl⟩

lemma endsLine_of_append {cs' : List Char} (h : EndsLine (cs ++ cs')) : cs' = [] ∨ EndsLine cs' := by
  induction cs with
  | nil => exact Or.inr h
  | cons c cs ih =>
    rcases endsLine_of_cons h with ⟨hn,-⟩ | h
    · exact Or.inl (append_eq_nil_iff.mp hn).2
    · exact ih h

lemma splitClose_spaces (k : Nat) (rest : List Char) :
  splitClose (replicate k ' ' ++ '*' :: '/' :: rest) = some (replicate k ' ',rest) := by
  induction k with
  | zero => rfl
  | succ k ih =>
    rw [replicate_succ,cons_append,splitClose.eq_2 _ _ (by simp),ih]
    rfl

lemma splitClose_tail (h : IsTail cs) :
    ∃ pre after, (∀ rest, splitClose (cs ++ rest) = some (pre,after ++ rest)) ∧
    (after = [] ∨ IsTail after) ∧ after.length < cs.length := by
  obtain ⟨y,k,rfl,hy⟩ := h
  induction y with
  | nil =>
    refine ⟨replicate k ' ',[],fun rest => ?_,Or.inl rfl,by simp⟩
    rw [append_assoc]
    exact splitClose_spaces k rest
  | cons c y ih =>
    have he : EndsLine (c :: y) := hy.resolve_left (cons_ne_nil _ _)
    have hy' : y = [] ∨ EndsLine y := (endsLine_of_cons he).imp_left And.left
    by_cases hc : c = '*' ∧ ∃ z, y = '/' :: z
    · obtain ⟨rfl,z,rfl⟩ := hc
      have hz : EndsLine z := by
        rcases endsLine_of_cons he with ⟨h,-⟩ | hy
        · cases h
        · exact (endsLine_of_cons hy).resolve_left (by simp)
      refine ⟨[],z ++ replicate k ' ' ++ ['*','/'],fun rest => rfl,Or.inr ⟨z,k,rfl,Or.inr hz⟩,?_⟩
      simp only [length_append,length_cons]
      omega
    obtain ⟨pre,after,hs,ha,hln⟩ := ih hy'
    refine ⟨c :: pre,after,fun rest => ?_,ha,by simp at hln ⊢; omega⟩
    have hne : ∀ tail, c = '*' → y ++ replicate k ' ' ++ ['*','/'] ++ rest = '/' :: tail →
        False := by
      intro tail hst hsl
      cases y with
      | nil =>
        rcases endsLine_of_cons he with ⟨-,h⟩ | h
        · rw [hst] at h
          cases h
        · obtain ⟨l,hl⟩ := h
          simp at hl
      | cons d y =>
        cases hsl
        exact hc ⟨hst,y,rfl⟩
    rw [cons_append,cons_append,cons_append,splitClose.eq_2 _ _ hne,hs rest]
    rfl

lemma isTail_of_line (l : List Char) (h : IsTail cs) : IsTail (l ++ '\n' :: cs) := by
  obtain ⟨y,k,rfl,hy⟩ := h
  refine ⟨l ++ '\n' :: y,k,by simp,Or.inr ?_⟩
  rcases hy with rfl | ⟨z,rfl⟩
  · exact ⟨l,rfl⟩
  · exact ⟨l ++ '\n' :: z,by simp⟩

lemma after_endsLine {m : OpenMark} (hl : '\n' ∉ l) (hm : openMark? (l ++ ['\n']) = some m) :
  ∃ l', '\n' ∉ l' ∧ m.after = l' ++ ['\n'] := by
  have hsp := openMark?_split hm
  refine ends_line hl ?_ hsp
  intro hn
  rw [hn] at hsp
  have hls := congrArg List.getLast? hsp
  cases hs : m.spaced <;> simp [OpenMark.head,OpenMark.margin,hs] at hls

lemma dropWhile_spaces (hc : isBlank c = false) (k : Nat) (cs : List Char) :
  (replicate k ' ' ++ c :: cs).dropWhile isBlank = c :: cs := by
  rw [dropWhile_append_of_pos (by
    intro d hd
    rw [eq_of_mem_replicate hd]
    decide),dropWhile_cons_of_neg (by simp [hc])]

lemma openMark?_star (k : Nat) (cs : List Char) : openMark? (replicate k ' ' ++ '*' :: cs) = none := by
  rw [openMark?,dropWhile_spaces (by decide)]
  rfl

lemma openRest_space (ind : List Char) (hc : c ≠ '/') (rest : List Char) :
  openRest ind (' ' :: c :: rest) = some ⟨ind,true,c :: rest⟩ := by
  rw [openRest.eq_3]
  intro after h
  exact hc (cons.inj h).1

lemma openMark?_rendered (k : Nat) {body : List Char} (hb : body = [] ∨ body.head? = some ' ') :
  ∃ m l, openMark? (replicate k ' ' ++ '/' :: '*' :: '*' :: (body ++ ['\n'])) = some m ∧
    m.after = l ++ ['\n'] ∧ (body = l ∨ body = ' ' :: l) := by
  rw [openMark?,dropWhile_spaces (by decide)]
  rcases hb with rfl | hb
  · exact ⟨_,[],rfl,rfl,Or.inl rfl⟩
  obtain ⟨rest,rfl⟩ := head?_eq_some_iff.mp hb
  cases rest with
  | nil => exact ⟨_,[],rfl,rfl,Or.inr rfl⟩
  | cons c rest =>
    by_cases hc : c = '/'
    · subst hc
      exact ⟨_,' ' :: '/' :: rest,rfl,rfl,Or.inl rfl⟩
    · exact ⟨_,c :: rest,openRest_space _ hc _,rfl,Or.inr rfl⟩

lemma splitClose_rendered (k : Nat) {body : List Char} (rest : List Char)
  (hb : body = [] ∨ body.head? = some ' ') (hl : body = l ∨ body = ' ' :: l) :
  (splitClose (replicate k ' ' ++ '/' :: '*' :: '*' :: (body ++ '\n' :: rest))).map Prod.snd =
    (splitClose (l ++ '\n' :: rest)).map Prod.snd := by
  induction k with
  | succ k ih =>
    rw [replicate_succ,cons_append,splitClose_skip (by simp),ih]
  | zero =>
    have hh : (body ++ '\n' :: rest).head? ≠ some '/' := by
      rcases hb with rfl | hb
      · simp
      · simp [hb]
    rw [replicate_zero,nil_append,splitClose_skip (by simp),splitClose_skip (by simp),
      splitClose_skip fun _ => hh]
    rcases hl with rfl | rfl
    · rfl
    · rw [cons_append,splitClose_skip (by simp)]

lemma Rendered.first_line (h : Rendered cs) :
  ∃ k l tail, cs = replicate k ' ' ++ '/' :: '*' :: '*' :: (l ++ '\n' :: tail) ∧
    '\n' ∉ l ∧ (l = [] ∨ l.head? = some ' ') ∧ IsTail tail := by
  obtain ⟨k,body,k',rfl,hh,he⟩ := h
  have hm : '\n' ∈ body := by
    obtain ⟨init,rfl⟩ := he
    simp
  obtain ⟨l,rest,rfl,hl⟩ := eq_append_cons_of_mem hm
  refine ⟨k,l,rest ++ replicate k' ' ' ++ ['*','/'],by simp,hl,?_,rest,k',rfl,?_⟩
  · cases l with
    | nil => exact Or.inl rfl
    | cons c l =>
      refine Or.inr (hh.resolve_right fun hc => hl ?_)
      rw [cons_append,head?_cons,Option.some.injEq] at hc
      rw [hc]
      exact mem_cons_self
  · have hw : EndsLine (l ++ ['\n'] ++ rest) := by
      rw [append_assoc]
      exact he
    exact endsLine_of_append hw

lemma Rendered.reads (h : Rendered cs) : ∃ after, (after = [] ∨ IsTail after) ∧ (ClosesEarly cs ↔ after ≠ []) ∧
    ∀ n rest, ∃ n', gapsFrom n false (cs ++ rest) = [] :: gapsFrom n' false (after ++ rest) := by
  obtain ⟨k,body,tail,rfl,hln,hb,y,k',rfl,hy⟩ := h.first_line
  obtain ⟨m,l,hm,ha,hl⟩ := openMark?_rendered k hb
  have hl' : '\n' ∉ l := by
    rcases hl with rfl | rfl
    · exact hln
    · exact fun hmm => hln (mem_cons_of_mem _ hmm)
  have ht : IsTail (l ++ '\n' :: (y ++ replicate k' ' ' ++ ['*','/'])) :=
    isTail_of_line l ⟨y,k',rfl,hy⟩
  obtain ⟨pre,after,hs,haf,-⟩ := splitClose_tail ht
  refine ⟨after,haf,?_,?_⟩
  · have hmp := splitClose_rendered k (y ++ replicate k' ' ' ++ ['*','/']) hb hl
    have hw := hs []
    rw [append_nil] at hw
    rw [hw] at hmp
    rw [closesEarly_iff,hmp]
    simp
  · intro n rest
    have ho : '\n' ∉ replicate k ' ' ++ '/' :: '*' :: '*' :: body := by
      simp [hln]
    obtain ⟨n',hn'⟩ := gapsFrom_closed _ n (hs rest)
    refine ⟨n',?_⟩
    have hf := gapsFrom_open ho n (y ++ replicate k' ' ' ++ ['*','/'] ++ rest) (by simpa using hm) ha hl'
    have hw : replicate k ' ' ++ '/' :: '*' :: '*' :: (body ++
      '\n' :: (y ++ replicate k' ' ' ++ ['*','/'])) ++ rest =
        replicate k ' ' ++ '/' :: '*' :: '*' :: body ++
          '\n' :: (y ++ replicate k' ' ' ++ ['*','/'] ++ rest) := by simp
    have hi : l ++ '\n' :: (y ++ replicate k' ' ' ++ ['*','/']) ++ rest =
        l ++ '\n' :: (y ++ replicate k' ' ' ++ ['*','/'] ++ rest) := by simp
    rw [hw,hf,← hn',hi]

def Woven : List Portion → Prop
  | [] => True
  | .code cs :: ps =>
    openMark? cs = none ∧ ((∃ l, '\n' ∉ l ∧ cs = l ++ ['\n']) ∨ ('\n' ∉ cs ∧ ps = [])) ∧ Woven ps
  | .comment cs :: ps => Rendered cs ∧ Woven ps

lemma weight_cons (g : List Char) (gs : List (List Char)) : weight (g :: gs) = g.length + 1 + weight gs := rfl

lemma gapsFrom_woven_code (h : Woven (.code cs :: ps)) (n : Nat) :
  gapsFrom n false ((Portion.code cs :: ps).flatMap text) =
    prepend cs (gapsFrom (n + 1) false (ps.flatMap text)) := by
  rcases h.2.1 with ⟨l,hl,rfl⟩ | ⟨hl,rfl⟩
  · have hc := gapsFrom_code hl n (ps.flatMap text) h.1
    simpa [text] using hc
  · have hls := gapsFrom_last hl n h.1
    simpa [text,gapsFrom,fileLinesFrom,cutFrom,gaps,prepend] using hls

structure Outweighs (ps : List Portion) : Prop where
  fresh : ∀ n, weight (Portion.gaps ps) ≤ weight (gapsFrom n false (ps.flatMap text))
  inLine : ∀ n k, 2 + weight (Portion.gaps ps) ≤
    weight (gapsFrom n false (replicate k ' ' ++ '*' :: '/' :: ps.flatMap text))

lemma Outweighs.tail (h : Outweighs ps) (cs : List Char) : IsTail cs → ∀ n, 1 + weight (Portion.gaps ps) ≤
    weight (gapsFrom n false (cs ++ ps.flatMap text)) := by
  induction hle : cs.length using Nat.strongRecOn generalizing cs with
  | ind size ih =>
    rintro ht n
    obtain ⟨y,k,rfl,hy⟩ := id ht
    by_cases hmm : '\n' ∈ y
    · obtain ⟨l,z,rfl,hl⟩ := eq_append_cons_of_mem hmm
      have he : EndsLine (l ++ ['\n'] ++ z) := by
        rw [append_assoc]
        exact hy.resolve_left (by simp)
      have hz : z = [] ∨ EndsLine z := endsLine_of_append he
      have hr : IsTail (z ++ replicate k ' ' ++ ['*','/']) := ⟨z,k,rfl,hz⟩
      have hw : l ++ '\n' :: z ++ replicate k ' ' ++ ['*','/'] ++ ps.flatMap text =
          l ++ '\n' :: (z ++ replicate k ' ' ++ ['*','/'] ++ ps.flatMap text) := by simp
      rw [hw]
      cases hm : openMark? (l ++ ['\n']) with
      | none =>
        have hnx := ih _ (by rw [← hle]; simp; omega) _ rfl hr (n + 1)
        rw [gapsFrom_code hl n _ hm,weight_prepend _ (gapsFrom_ne_nil _ _ _)]
        omega
      | some m =>
        obtain ⟨l',hl',ha⟩ := after_endsLine hl hm
        have hi : IsTail (l' ++ '\n' :: (z ++ replicate k ' ' ++ ['*','/'])) :=
          isTail_of_line l' hr
        obtain ⟨pre,after,hs,haf,hln⟩ := splitClose_tail hi
        obtain ⟨n',hn'⟩ := gapsFrom_closed _ n (hs (ps.flatMap text))
        have hsh : l' ++ '\n' :: (z ++ replicate k ' ' ++ ['*','/']) ++ ps.flatMap text =
            l' ++ '\n' :: (z ++ replicate k ' ' ++ ['*','/'] ++ ps.flatMap text) := by
          simp
        rw [gapsFrom_open hl n _ hm ha hl',← hsh,hn',weight_cons]
        rcases haf with rfl | haf
        · have hf := h.fresh n'
          rw [nil_append]
          omega
        have hsr : l'.length ≤ l.length := by
          have hsp := congrArg List.length (openMark?_split hm)
          rw [ha] at hsp
          simp at hsp
          omega
        have hnx := ih after.length (by rw [← hle]; simp at hln ⊢; omega) after rfl haf n'
        omega
    obtain rfl : y = [] := by
      rcases hy with rfl | ⟨l,rfl⟩
      · rfl
      · simp at hmm
    have hli := h.inLine n k
    have hw : [] ++ replicate k ' ' ++ ['*','/'] ++ ps.flatMap text =
        replicate k ' ' ++ '*' :: '/' :: ps.flatMap text := by simp
    rw [hw]
    omega

lemma outweighs (h : Woven ps) : Outweighs ps := by
  induction ps with
  | nil =>
    refine ⟨fun n => Nat.le_refl _,fun n k => ?_⟩
    have hls := gapsFrom_last (by simp : '\n' ∉ replicate k ' ' ++ ['*','/']) n (openMark?_star k ['/'])
    rw [flatMap_nil,hls]
    simp [weight,Portion.gaps]
  | cons p ps ih =>
    cases p with
    | code cs =>
      have hr := ih h.2.2
      have hg := weight_prepend cs (Portion.gaps_ne_nil ps)
      constructor
      · intro n
        have hf := hr.fresh (n + 1)
        rw [gapsFrom_woven_code h,Portion.gaps,weight_prepend _ (gapsFrom_ne_nil _ _ _)]
        omega
      · intro n k
        have hf := hr.fresh (n + 1)
        have hwv : Woven (.code (replicate k ' ' ++ '*' :: '/' :: cs) :: ps) := by
          refine ⟨openMark?_star k _,h.2.1.imp ?_ ?_,h.2.2⟩
          · rintro ⟨l,hl,rfl⟩
            exact ⟨replicate k ' ' ++ '*' :: '/' :: l,by simp [hl],by simp⟩
          · rintro ⟨hcs,hnl⟩
            exact ⟨by simp [hcs],hnl⟩
        have hln := gapsFrom_woven_code hwv n
        rw [flatMap_cons,text,append_assoc,cons_append,cons_append] at hln
        rw [flatMap_cons,text,hln,Portion.gaps,hg,weight_prepend _ (gapsFrom_ne_nil _ _ _)]
        simp
        omega
    | comment cs =>
      have hr := ih h.2
      have hg : weight (Portion.gaps (.comment cs :: ps)) = 1 + weight (Portion.gaps ps) := by
        rw [Portion.gaps,weight_cons]
        simp
      constructor
      · intro n
        obtain ⟨after,ha,-,hrd⟩ := h.1.reads
        obtain ⟨n',hn'⟩ := hrd n (ps.flatMap text)
        rw [flatMap_cons,text,hn',weight_cons,hg]
        rcases ha with rfl | ha
        · have hf := hr.fresh n'
          simpa using hf
        · have ht := hr.tail after ha n'
          omega
      · intro n k
        obtain ⟨k',body,tail,rfl,hln,-,ht⟩ := h.1.first_line
        have hrestTail := hr.tail tail ht (n + 1)
        have hl : '\n' ∉ replicate k ' ' ++ '*' :: '/' ::
            (replicate k' ' ' ++ '/' :: '*' :: '*' :: body) := by simp [hln]
        have hc := gapsFrom_code hl n (tail ++ ps.flatMap text)
          (by rw [append_assoc]; exact openMark?_star k _)
        have hw : replicate k ' ' ++ '*' :: '/' :: List.flatMap text
            (.comment (replicate k' ' ' ++ '/' :: '*' :: '*' :: (body ++ '\n' :: tail)) :: ps) =
            replicate k ' ' ++ '*' :: '/' :: (replicate k' ' ' ++ '/' :: '*' :: '*' :: body) ++
                '\n' :: (tail ++ ps.flatMap text) := by
          simp [text]
        rw [hw,hc,hg,weight_prepend _ (gapsFrom_ne_nil _ _ _)]
        simp
        omega

lemma gapsFrom_woven (h : Woven ps) (he : ∀ cs, .comment cs ∈ ps → ¬ ClosesEarly cs) (n : Nat) :
  gapsFrom n false (ps.flatMap text) = Portion.gaps ps := by
  induction ps generalizing n with
  | nil => rfl
  | cons p ps ih =>
    have hr (h' : Woven ps) := ih h' fun cs hcs => he cs (mem_cons_of_mem _ hcs)
    cases p with
    | code cs => rw [gapsFrom_woven_code h,hr h.2.2,Portion.gaps]
    | comment cs =>
      obtain ⟨after,-,hi,hrd⟩ := h.1.reads
      have hnl : after = [] := by
        by_contra hne
        exact he cs mem_cons_self (hi.mpr hne)
      obtain ⟨n',hn'⟩ := hrd n (ps.flatMap text)
      rw [flatMap_cons,text,hn',hnl,nil_append,hr h.2,Portion.gaps]

lemma weight_lt_of_closesEarly (h : Woven ps) (hm : .comment cs ∈ ps) (he : ClosesEarly cs) (n : Nat) :
  weight (Portion.gaps ps) < weight (gapsFrom n false (ps.flatMap text)) := by
  induction ps generalizing n with
  | nil => cases hm
  | cons p ps ih =>
    cases p with
    | code cs' =>
      have hl := ih h.2.2 (mem_of_ne_of_mem (by simp) hm) (n + 1)
      rw [gapsFrom_woven_code h,Portion.gaps,weight_prepend _ (Portion.gaps_ne_nil ps),
        weight_prepend _ (gapsFrom_ne_nil _ _ _)]
      omega
    | comment cs' =>
      obtain ⟨after,ha,hi,hr⟩ := h.1.reads
      obtain ⟨n',hn'⟩ := hr n (ps.flatMap text)
      rw [flatMap_cons,text,hn',Portion.gaps,weight_cons,weight_cons]
      rcases ha with rfl | ha
      · have ho : cs ≠ cs' := by
          rintro rfl
          exact hi.mp he rfl
        have hl := ih h.2 (mem_of_ne_of_mem (by simpa using ho) hm) n'
        rw [nil_append]
        omega
      · have ht := (outweighs h.2).tail after ha n'
        omega

lemma gapsFrom_woven_iff (h : Woven ps) (n : Nat) : gapsFrom n false (ps.flatMap text) = Portion.gaps ps ↔
    ∀ cs, .comment cs ∈ ps → ¬ ClosesEarly cs := by
  refine ⟨fun hs cs hcs he => ?_,fun he => gapsFrom_woven h he n⟩
  have hlt := weight_lt_of_closesEarly h hcs he n
  rw [hs] at hlt
  exact Nat.lt_irrefl _ hlt

end Docweave.Comment
