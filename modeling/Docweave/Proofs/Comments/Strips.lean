import Docweave.Proofs.Comments.Marks

namespace Docweave.Comment

open Pattern List

variable {k : CloseMark} {cs : List Char}

inductive Strip where
  | code (number : Nat) (text : List Char)
  | start (number : Nat) (mark : OpenMark)
  | middle (number : Nat) (mark : ContinueMark)
  | finish (number : Nat) (indent : Option (List Char))
  deriving DecidableEq, Repr

def shuffledText (k : Nat) (m : ContinueMark) : List Char :=
  replicate (m.indent - (k + 1)) ' ' ++ m.leader.symbol ++ m.leader.margin ++ bodyText m.after

lemma replicate_min_append (i k : Nat) : replicate (min i k) ' ' ++ replicate (i - k) ' ' = replicate i ' ' := by
  rw [replicate_append_replicate]
  congr 1
  omega

namespace Strip

def chars : Strip → List Char
  | code _ cs => cs
  | start _ m => m.head ++ m.after
  | middle _ m => m.head ++ m.after
  | finish _ indent => indent.getD [] ++ ['*','/']

def number : Strip → Nat
  | code n _ | start n _ | middle n _ | finish n _ => n

def isCode : Strip → Bool
  | code _ _ => true
  | _ => false

def isBare : Strip → Bool
  | middle _ m => m.leader == .bare
  | _ => false

end Strip

lemma openMark?_split {m : OpenMark} (h : openMark? cs = some m) : m.head ++ m.after = cs := by
  unfold openMark? at h
  split at h
  · rename_i rest hd
    obtain ⟨hi,hr⟩ := openRest_indent h
    have hcs := takeWhile_append_dropWhile (p := Text.isBlank) (l := cs)
    rw [hd,← hi,← hr] at hcs
    simpa [OpenMark.head] using hcs
  · simp at h

lemma splitClose_split {pre after : List Char} (h : splitClose cs = some (pre,after)) :
  pre ++ '*' :: '/' :: after = cs := by
  fun_induction splitClose cs generalizing pre with
  | case1 rest =>
    cases h
    rfl
  | case2 c rest _ ih =>
    obtain ⟨⟨b,a⟩,hs,he⟩ := Option.map_eq_some_iff.mp h
    cases he
    rw [cons_append,ih hs]
  | case3 => simp at h

lemma closeMark?_split (h : closeMark? cs = some k) : k.whole = cs := by
  obtain ⟨⟨pre,after⟩,hs,rfl⟩ := Option.map_eq_some_iff.mp h
  have hcs := splitClose_split hs
  by_cases hb : pre.all isIndentChar = true
  · simpa [hb,CloseMark.whole,CloseMark.indentChars] using hcs
  · simpa [hb,CloseMark.whole,CloseMark.indentChars] using hcs

lemma not_prefix_of_splitClose (h : splitClose cs = none) : ¬ ['*','/'] <+: cs.dropWhile isSpace := by
  rintro ⟨after,ha⟩
  induction cs with
  | nil => simp at ha
  | cons c cs ih =>
    rw [dropWhile_cons] at ha
    cases hc : isSpace c with
    | true =>
      have hne : c ≠ '*' := by
        rintro rfl
        exact absurd hc (by decide)
      rw [hc] at ha
      refine ih ?_ ha
      rw [splitClose] at h
      · exact Option.map_eq_none_iff.mp h
      · simp [hne]
    | false =>
      rw [hc] at ha
      simp only [Bool.false_eq_true,if_false] at ha
      rw [← ha] at h
      simp [splitClose] at h

lemma splitClose_before {pre after : List Char} (h : splitClose cs = some (pre,after)) :
    splitClose pre = none := by
  fun_induction splitClose cs generalizing pre with
  | case1 rest =>
    cases h
    rfl
  | case2 c rest hne ih =>
    obtain ⟨⟨b,a⟩,hs,he⟩ := Option.map_eq_some_iff.mp h
    cases he
    rw [splitClose,ih hs]
    · rfl
    · rintro b' rfl rfl
      exact hne _ rfl (splitClose_split hs).symm
  | case3 => simp at h

lemma closeMark?_indent (h : closeMark? cs = some k) : k.indent = none ∨ k.before = [] := by
  obtain ⟨⟨pre,after⟩,-,rfl⟩ := Option.map_eq_some_iff.mp h
  by_cases hb : pre.all isIndentChar = true <;> simp [hb]

lemma closeMark?_eq_none (h : closeMark? cs = none) : splitClose cs = none :=
  Option.map_eq_none_iff.mp h

lemma closeMark?_before (h : closeMark? cs = some k) : splitClose k.before = none := by
  obtain ⟨⟨pre,after⟩,hs,rfl⟩ := Option.map_eq_some_iff.mp h
  by_cases hb : pre.all isIndentChar = true
  · simp [hb,splitClose]
  · simpa [hb] using splitClose_before hs

lemma continueMark_split (cs : List Char) : (continueMark cs).head ++ (continueMark cs).after = cs := by
  have hr (n : Nat) (rest : List Char) : (continueRest n rest).head ++ (continueRest n rest).after
      = replicate n ' ' ++ rest := by
    fun_cases continueRest n rest <;> simp [ContinueMark.head,Leader.symbol,Leader.margin]
  rw [continueMark,hr,← takeWhile_isSpace,takeWhile_append_dropWhile]

lemma length_after_openMark? {m : OpenMark} (h : openMark? cs = some m) : m.after.length + 3 ≤ cs.length := by
  rw [← openMark?_split h]
  simp [OpenMark.head]
  omega

lemma length_after_closeMark? (h : closeMark? cs = some k) : k.after.length + 2 ≤ cs.length := by
  rw [← closeMark?_split h]
  simp [CloseMark.whole]
  omega

inductive Head where
  | opened (mark : OpenMark)
  | inside
  deriving DecidableEq, Repr

namespace Head

def chars : Head → List Char
  | opened m => m.head
  | inside => []

def strips (number : Nat) : Head → List Char → List Strip
  | opened m, cs => [.start number { m with after := cs }]
  | inside, [] => []
  | inside, cs => [.middle number (continueMark cs)]

lemma strips_inside (n : Nat) {cs : List Char} (h : cs ≠ []) :
    inside.strips n cs = [.middle n (continueMark cs)] := by
  cases cs with
  | nil => exact absurd rfl h
  | cons c cs => rfl

lemma strips_ne_nil (n : Nat) (head : Head) {cs : List Char} (h : head = .inside → cs ≠ []) :
  head.strips n cs ≠ [] := by
  cases head with
  | opened m => simp [strips]
  | inside => simp [strips_inside n (h rfl)]

lemma flatMap_chars_strips (n : Nat) (head : Head) (cs : List Char) :
  (head.strips n cs).flatMap Strip.chars = head.chars ++ cs := by
  cases head with
  | opened m => simp [strips,Strip.chars,chars,OpenMark.head,OpenMark.margin]
  | inside =>
    by_cases h : cs = []
    · subst h
      rfl
    · simp [strips_inside n h,Strip.chars,chars,continueMark_split]

end Head

structure Cut where
  strips : List Strip
  inComment : Bool
  deriving DecidableEq, Repr

namespace Cut

def precede (strips : List Strip) (c : Cut) : Cut := { c with strips := strips ++ c.strips }

end Cut

mutual

def cutOutside (number : Nat) (cs : List Char) : Cut :=
  match _h : openMark? cs with
  | none => ⟨if cs = [] then [] else [.code number cs],false⟩
  | some m => cutInside number (.opened m) m.after
termination_by cs.length
decreasing_by
  have := length_after_openMark? _h
  omega

def cutInside (number : Nat) (head : Head) (cs : List Char) : Cut :=
  match h : closeMark? cs with
  | none => ⟨head.strips number cs,true⟩
  | some k =>
    (cutOutside number k.after).precede (head.strips number k.before ++ [.finish number k.indent])
termination_by cs.length
decreasing_by
  have := length_after_closeMark? h
  omega

end

def cutLine (number : Nat) : Bool → List Char → Cut
  | true, cs => cutInside number .inside cs
  | false, cs => cutOutside number cs

def cutFrom : Nat → Bool → List (List Char) → List Strip
  | _, _, [] => []
  | n, inComment, cs :: lines =>
    (cutLine n inComment cs).strips ++ cutFrom (n + 1) (cutLine n inComment cs).inComment lines

def cutLines (lines : List (List Char)) : List Strip := cutFrom 1 false lines

section

variable (n : Nat) {cs : List Char}

lemma cutOutside_code (h : openMark? cs = none) :
    cutOutside n cs = ⟨if cs = [] then [] else [.code n cs],false⟩ := by
  rw [cutOutside]
  split
  · rfl
  · simp_all

@[simp] lemma cutOutside_nil : cutOutside n [] = ⟨[],false⟩ :=
  cutOutside_code n rfl

lemma cutOutside_open {m : OpenMark} (h : openMark? cs = some m) :
  cutOutside n cs = cutInside n (.opened m) m.after := by
  rw [cutOutside]
  split
  · simp_all
  · simp_all

lemma cutInside_body (head : Head) (h : closeMark? cs = none) :
    cutInside n head cs = ⟨head.strips n cs,true⟩ := by
  rw [cutInside]
  split
  · rfl
  · simp_all

lemma cutInside_close (head : Head) {k : CloseMark} (h : closeMark? cs = some k) : cutInside n head cs =
    (cutOutside n k.after).precede (head.strips n k.before ++ [.finish n k.indent]) := by
  rw [cutInside]
  split
  · simp_all
  · simp_all

end

lemma inComment_any_head (n : Nat) (head : Head) (cs : List Char) :
  (cutInside n head cs).inComment = (cutInside n .inside cs).inComment := by
  cases hk : closeMark? cs with
  | none => rw [cutInside_body n _ hk,cutInside_body n _ hk]
  | some k =>
    rw [cutInside_close n _ hk,cutInside_close n _ hk]
    rfl

lemma cut_induction {P : List Char → Prop} {Q : Head → List Char → Prop}
    (code : ∀ cs, openMark? cs = none → P cs)
  (opens : ∀ cs m, openMark? cs = some m → Q (.opened m) m.after → P cs)
  (body : ∀ head cs, closeMark? cs = none → Q head cs)
  (closes : ∀ head cs k, closeMark? cs = some k → P k.after → Q head cs) : (∀ cs, P cs) ∧
  ∀ head cs, Q head cs := by
  have ha (len : Nat) : (∀ cs : List Char, cs.length < len → P cs) ∧
      ∀ (head : Head) (cs : List Char), cs.length < len → Q head cs := by
    induction len with
    | zero => exact ⟨fun _ h => absurd h (Nat.not_lt_zero _),fun _ _ h => absurd h (Nat.not_lt_zero _)⟩
    | succ len ih =>
      constructor
      · intro cs hl
        cases h : openMark? cs with
        | none => exact code cs h
        | some m =>
          have hs := length_after_openMark? h
          exact opens cs m h (ih.2 _ _ (by omega))
      · intro head cs hl
        cases h : closeMark? cs with
        | none => exact body head cs h
        | some k =>
          have hs := length_after_closeMark? h
          exact closes head cs k h (ih.1 _ (by omega))
  exact ⟨fun cs => (ha _).1 cs (Nat.lt_succ_self _),fun head cs => (ha _).2 head cs (Nat.lt_succ_self _)⟩

namespace Strip

def follow : Bool → Strip → Option Bool
  | false, code _ _ => some false
  | false, start _ _ => some true
  | true, middle _ _ => some true
  | true, finish _ _ => some false
  | _, _ => none

def walk (inComment : Bool) (strips : List Strip) : Option Bool := strips.foldlM follow inComment

@[simp] lemma walk_nil (b : Bool) : walk b [] = some b := rfl

@[simp] lemma walk_cons (b : Bool) (s : Strip) (ss : List Strip) :
    walk b (s :: ss) = (follow b s).bind fun b' => walk b' ss := rfl

lemma walk_append (b : Bool) (ss ts : List Strip) :
    walk b (ss ++ ts) = (walk b ss).bind fun b' => walk b' ts := by
  simp [walk]

end Strip

def Head.place : Head → Bool
  | opened _ => false
  | inside => true

lemma Head.walk_strips (n : Nat) (head : Head) (cs : List Char) :
  Strip.walk head.place (head.strips n cs) = some true := by
  cases head with
  | opened m => rfl
  | inside => cases cs <;> rfl

lemma cut_spec (n : Nat) : (∀ cs, (cutOutside n cs).strips.flatMap Strip.chars = cs ∧
      Strip.walk false (cutOutside n cs).strips = some (cutOutside n cs).inComment) ∧
    ∀ head cs, (cutInside n head cs).strips.flatMap Strip.chars = head.chars ++ cs ∧
      Strip.walk head.place (cutInside n head cs).strips = some (cutInside n head cs).inComment := by
  refine cut_induction ?_ ?_ ?_ ?_
  · intro cs h
    rw [cutOutside_code n h]
    by_cases hcs : cs = [] <;> simp [hcs,Strip.chars,Strip.follow]
  · intro cs m h ih
    rw [cutOutside_open n h]
    exact ⟨ih.1.trans (openMark?_split h),ih.2⟩
  · intro head cs h
    rw [cutInside_body n head h]
    exact ⟨head.flatMap_chars_strips n cs,head.walk_strips n cs⟩
  intro head cs k h ih
  rw [cutInside_close n head h]
  simp only [Cut.precede,flatMap_append,ih.1,head.flatMap_chars_strips,flatMap_cons,flatMap_nil,append_nil,
    Strip.chars,Strip.walk_append,head.walk_strips,Option.bind_some,Strip.walk_cons,Strip.follow,Strip.walk_nil,ih.2]
  rw [← closeMark?_split h]
  simp [CloseMark.whole,CloseMark.indentChars]

lemma cutLine_spec (n : Nat) (inComment : Bool) (cs : List Char) :
  (cutLine n inComment cs).strips.flatMap Strip.chars = cs ∧
    Strip.walk inComment (cutLine n inComment cs).strips = some (cutLine n inComment cs).inComment := by
  cases inComment with
  | true => exact (cut_spec n).2 .inside cs
  | false => exact (cut_spec n).1 cs

lemma flatMap_chars_cutFrom (ls : List (List Char)) (n : Nat) (inComment : Bool) :
  (cutFrom n inComment ls).flatMap Strip.chars = ls.flatten := by
  induction ls generalizing n inComment with
  | nil => rfl
  | cons cs ls ih => rw [cutFrom,flatMap_append,(cutLine_spec n inComment cs).1,ih,flatten_cons]

lemma flatMap_chars_cutLines (ls : List (List Char)) : (cutLines ls).flatMap Strip.chars = ls.flatten :=
  flatMap_chars_cutFrom ls 1 false

lemma walk_cutFrom (ls : List (List Char)) (n : Nat) (inComment : Bool) :
  (Strip.walk inComment (cutFrom n inComment ls)).isSome := by
  induction ls generalizing n inComment with
  | nil => rfl
  | cons cs ls ih =>
    rw [cutFrom,Strip.walk_append,(cutLine_spec n inComment cs).2]
    exact ih _ _

structure Remark where
  number : Nat
  mark : OpenMark
  middles : List (Nat × ContinueMark)
  finish : Option (Nat × Option (List Char))
  deriving DecidableEq, Repr

namespace Remark

def later (r : Remark) : List Strip :=
  r.middles.map (fun p => .middle p.1 p.2) ++ (r.finish.map fun p => .finish p.1 p.2).toList

def strips (r : Remark) : List Strip := .start r.number r.mark :: r.later

def chars (r : Remark) : List Char := r.strips.flatMap Strip.chars

def front (r : Remark) : List Strip := .start r.number r.mark :: r.middles.map fun p => .middle p.1 p.2

section

variable {r : Remark} {p : Nat × Option (List Char)}

lemma strips_finish (h : r.finish = some p) : r.strips = r.front ++ [.finish p.1 p.2] := by
  simp [strips,later,front,h]

lemma strips_unfinished (h : r.finish = none) : r.strips = r.front := by
  simp [strips,later,front,h]

lemma mem_front {s : Strip} (h : s ∈ r.front) : s = .start r.number r.mark ∨ ∃ n m, s = .middle n m := by
  rcases mem_cons.mp h with rfl | h
  · exact .inl rfl
  · obtain ⟨p,-,rfl⟩ := mem_map.mp h
    exact .inr ⟨_,_,rfl⟩

end

def allLed (r : Remark) : Bool := !r.strips.any Strip.isBare

def lastNumber (r : Remark) : Nat := ((r.later.getLast?).map Strip.number).getD r.number

lemma getLast?_strips (r : Remark) : r.strips.getLast?.map Strip.number = some r.lastNumber := by
  rw [strips,getLast?_cons,lastNumber]
  cases r.later.getLast? <;> rfl

lemma isCode_strips (r : Remark) : ∀ s ∈ r.strips, s.isCode = false := by
  intro s hs
  rw [strips,later,mem_cons,mem_append,mem_map,Option.mem_toList,Option.map_eq_some_iff] at hs
  rcases hs with rfl | ⟨p,-,rfl⟩ | ⟨p,-,rfl⟩ <;> rfl

end Remark

inductive Passage where
  | code (number : Nat) (text : List Char)
  | comment (remark : Remark)
  deriving DecidableEq, Repr

namespace Passage

def strips : Passage → List Strip
  | code n cs => [.code n cs]
  | comment r => r.strips

def closed : Passage → Bool
  | code _ _ => true
  | comment r => r.finish.isSome

end Passage

def Composed : List Passage → Prop
  | [] => True
  | p :: ps => (p.closed = true ∨ ps = []) ∧ Composed ps

lemma exists_passages (ss : List Strip) : ((Strip.walk false ss).isSome →
      ∃ ps, Composed ps ∧ ps.flatMap Passage.strips = ss) ∧ ((Strip.walk true ss).isSome →
      ∃ r : Remark, ∃ ps, Composed (.comment r :: ps) ∧ r.later ++ ps.flatMap Passage.strips = ss) := by
  induction ss with
  | nil =>
    exact ⟨fun _ => ⟨[],trivial,rfl⟩,fun _ => ⟨⟨0,default,[],none⟩,[],⟨Or.inr rfl,trivial⟩,rfl⟩⟩
  | cons s ss ih =>
    constructor
    · intro h
      cases s with
      | code n cs =>
        obtain ⟨ps,hps,hf⟩ := ih.1 h
        exact ⟨.code n cs :: ps,⟨Or.inl rfl,hps⟩,by simp [Passage.strips,hf]⟩
      | start n m =>
        obtain ⟨r,ps,hps,hf⟩ := ih.2 h
        refine ⟨.comment { r with number := n, mark := m } :: ps,hps,?_⟩
        simp [Passage.strips,Remark.strips,← hf,Remark.later]
      | middle n m => simp [Strip.follow] at h
      | finish n i => simp [Strip.follow] at h
    · intro h
      cases s with
      | code n cs => simp [Strip.follow] at h
      | start n m => simp [Strip.follow] at h
      | middle n m =>
        obtain ⟨r,ps,hps,hf⟩ := ih.2 h
        refine ⟨{ r with middles := (n,m) :: r.middles },ps,hps,?_⟩
        simp [Remark.later,← hf]
      | finish n i =>
        obtain ⟨ps,hps,hf⟩ := ih.1 h
        exact ⟨⟨n,default,[],some (n,i)⟩,ps,⟨Or.inl rfl,hps⟩,by simp [Remark.later,hf]⟩

lemma exists_passages_cutLines (ls : List (List Char)) : ∃ ps, Composed ps ∧
    ps.flatMap Passage.strips = cutLines ls :=
  (exists_passages _).1 (walk_cutFrom ls 1 false)

end Docweave.Comment
