import Docweave.Pattern.Search
import Mathlib.Data.List.Infix

namespace Docweave

open List

namespace Cursor

def skip (c : Cursor) (xs rest : List Char) : Cursor :=
  ⟨xs.reverse ++ c.before,rest,c.offset + xs.length,c.captures⟩

lemma skip_cons (c : Cursor) (x : Char) (xs mid rest : List Char) :
  (c.advance x mid).skip xs rest = c.skip (x :: xs) rest := by
  simp [skip,advance]
  omega

lemma skip_append (c : Cursor) (xs mid ys rest : List Char) :
  (c.skip xs mid).skip ys rest = c.skip (xs ++ ys) rest := by
  simp [skip,Nat.add_assoc]

lemma take?_append (xs ys : List Char) (c : Cursor) (h : c.rest = xs ++ ys) :
    c.take? xs = some (c.skip xs ys) := by
  induction xs generalizing c with
  | nil =>
    obtain ⟨pre,rest,offset,captures⟩ := c
    simp only [nil_append] at h
    simp [take?,skip,h]
  | cons x xs ih =>
    have hx := ih (c.advance x (xs ++ ys)) rfl
    rw [take?,h]
    simp only [cons_append,if_true]
    rw [hx,skip_cons]

lemma take?_append_eq (xs ys : List Char) (c : Cursor) : c.take? (xs ++ ys) = (c.take? xs).bind (take? ys) := by
  induction xs generalizing c with
  | nil => rfl
  | cons x xs ih =>
    rw [cons_append,take?,take?]
    cases c.rest with
    | nil => rfl
    | cons y rest =>
      by_cases h : x = y
      · simp only [h,if_true,ih]
      · simp only [h,if_false,Option.bind_none]

lemma take?_eq_none (xs : List Char) (c : Cursor) (h : ¬ xs <+: c.rest) : c.take? xs = none := by
  induction xs generalizing c with
  | nil => exact absurd nil_prefix h
  | cons x xs ih =>
    rw [take?]
    cases hr : c.rest with
    | nil => rfl
    | cons y ys =>
      rw [hr,cons_prefix_cons] at h
      by_cases hxy : x = y
      · simp only [hxy]
        exact ih _ (fun hp => h ⟨hxy,hp⟩)
      · simp only [hxy,if_false]

end Cursor

namespace Pattern

variable {p : Pattern}

lemma meet_append (p q : Pattern) (c : Cursor) (next : Following) :
    (p ++ q).meet c next = p.meet c fun c' => q.meet c' next := rfl

lemma meet_or (p q : Pattern) (c : Cursor) (next : Following) :
    (p ||| q).meet c next = (p.meet c next).orElse fun _ => q.meet c next := rfl

lemma meet_lit (s : String) (c : Cursor) (next : Following) :
    (lit s).meet c next = (c.take? s.toList).bind next := rfl

lemma meet_capture (lbl : String) (p : Pattern) (c : Cursor) (next : Following) :
    (capture lbl p).meet c next = p.meet c fun c' => next (c'.record lbl c.offset) := rfl

lemma meet_lineEnd_or_ahead (s : String) (c : Cursor) (hs : '\n' ∉ s.toList) :
    (lastLineEnd ||| ahead (one (noneOf s))).meet c some =
      match c.rest with
      | ch :: _ => if ch ∈ s.toList then none else some c
      | [] => some c := by
  obtain ⟨pre,rest,offset,captures⟩ := c
  cases rest with
  | nil => simp [meet_or,meet]
  | cons ch rest =>
    by_cases h : ch ∈ s.toList
    · have hne : ch ≠ '\n' := fun he => hs (he ▸ h)
      simp [meet_or,meet,noneOf,h,hne]
    · cases rest with
      | nil => by_cases hn : ch = '\n' <;> simp [meet_or,meet,noneOf,h,hn,Cursor.advance,hs]
      | cons d rest => simp [meet_or,meet,noneOf,h,Cursor.advance]

lemma runGreedy_longest {p : Char → Bool} {next : Following} {least : Nat} {cs : List Char}
  {c r : Cursor} (hc : c.rest = cs) (hl : least ≤ (cs.takeWhile p).length)
  (h : next (c.skip (cs.takeWhile p) (cs.dropWhile p)) = some r) :
  runGreedy p next least none cs c = some r := by
  induction cs generalizing c least with
  | nil =>
    obtain rfl : least = 0 := Nat.le_zero.mp hl
    obtain ⟨pre,rest,offset,captures⟩ := c
    obtain rfl : rest = [] := hc
    exact h
  | cons ch cs ih =>
    cases hp : p ch with
    | true =>
      rw [takeWhile_cons_of_pos hp] at hl h
      rw [dropWhile_cons_of_pos hp,← Cursor.skip_cons c ch _ cs] at h
      have hl' : least - 1 ≤ (cs.takeWhile p).length := by
        rw [length_cons] at hl
        omega
      have hr := ih (c := c.advance ch cs) rfl hl' h
      rw [runGreedy,if_pos ⟨by simp,hp⟩,Option.map_none,hr]
    | false =>
      rw [takeWhile_cons_of_neg (by simp [hp])] at hl h
      rw [dropWhile_cons_of_neg (by simp [hp])] at h
      obtain rfl : least = 0 := Nat.le_zero.mp hl
      obtain ⟨pre,rest,offset,captures⟩ := c
      obtain rfl : rest = ch :: cs := hc
      rw [runGreedy,if_neg (by simp [hp])]
      exact h

lemma runGreedy_eq (p : Char → Bool) (next : Following)
  (hn : ∀ c' : Cursor, (∃ ch rest, c'.rest = ch :: rest ∧ p ch) → next c' = none) (cs : List Char) (c : Cursor)
  (h : c.rest = cs) : runGreedy p next 0 none cs c = next (c.skip (cs.takeWhile p) (cs.dropWhile p)) := by
  induction cs generalizing c with
  | nil =>
    obtain ⟨pre,rest,offset,captures⟩ := c
    simp only at h
    simp [runGreedy,Cursor.skip,h]
  | cons ch cs ih =>
    cases hp : p ch with
    | true =>
      have hr := ih (c.advance ch cs) rfl
      simp only [runGreedy,hp,ne_eq,reduceCtorEq,not_false_eq_true,and_self,if_true,
        Nat.zero_sub,Option.map_none,hr,Cursor.skip_cons,takeWhile_cons,
        dropWhile_cons]
      rw [hn c ⟨ch,cs,h,hp⟩]
      cases next (c.skip (ch :: cs.takeWhile p) (cs.dropWhile p)) <;> rfl
    | false =>
      obtain ⟨pre,rest,offset,captures⟩ := c
      simp only at h
      simp [runGreedy,hp,Cursor.skip,h]

lemma repeated_none_left (greedy : Bool) (body : Cursor → Following → Option Cursor)
  (fuel : Nat) (c : Cursor) (next : Following) : repeated greedy body fuel 0 (some 0) c next = next c := by
  cases fuel <;> simp [repeated]

lemma meet_optional (body : Pattern) (c : Cursor) (next : Following) :
  (optional body).meet c next = (body.meet c next).orElse fun _ => next c := by
  simp only [optional,meet,repeated,Nat.zero_add,Option.some.injEq,Nat.one_ne_zero,if_false,
    Option.map_some,Nat.sub_self,repeated_none_left,ite_self,if_true]

lemma foundAt_still (p : Pattern) (c : Cursor) : p.foundAt false c = (p.meet c some).map (Found.between c) := rfl

def Anchored (p : Pattern) : Prop :=
  ∀ (c : Cursor) (next : Following), c.before ≠ [] → p.meet c next = none

lemma anchored_textStart : Anchored textStart := by
  intro c next h
  simp [meet,h]

lemma Anchored.seq (h : Anchored p) (q : Pattern) : Anchored (p ++ q) := by
  intro c next hc
  exact h c _ hc

lemma searchFrom_anchored (h : Anchored p) (rest : List Char) (c : Cursor) (hc : c.before ≠ []) :
  p.searchFrom false rest c = none := by
  induction rest generalizing c with
  | nil => simp [searchFrom,foundAt_still,h c some hc]
  | cons ch rest ih =>
    rw [searchFrom,foundAt_still,h c some hc]
    exact ih (c.advance ch rest) (by simp [Cursor.advance])

lemma search_anchored (h : Anchored p) (cs : List Char) : p.search cs = p.matchStart cs := by
  cases cs with
  | nil =>
    simp only [search,matchStart,searchFrom]
    cases p.foundAt false (Cursor.start []) <;> rfl
  | cons ch rest =>
    have hl := searchFrom_anchored h rest ((Cursor.start (ch :: rest)).advance ch rest)
      (by simp [Cursor.advance])
    simp only [search,matchStart,searchFrom,hl]
    cases p.foundAt false (Cursor.start (ch :: rest)) <;> rfl

end Pattern

lemma Found.between_start (cs xs rest : List Char) (captures : List (String × Span)) :
  Found.between (Cursor.start cs) ⟨xs.reverse,rest,xs.length,captures⟩ = ⟨[],xs,rest,captures⟩ := by
  have ht : xs.reverse.take xs.length = xs.reverse := by
    rw [← length_reverse,take_length]
  simp [Found.between,Cursor.start,ht]

@[simp] lemma Found.slice_nothing (cs : List Char) (k : Nat) : Found.slice cs ⟨k,k⟩ = [] := by
  simp [Found.slice]

lemma Found.slice_eq {cs ys : List Char} (xs zs : List Char) (span : Span) (h : cs = xs ++ (ys ++ zs))
  (hs : span.start = xs.length) (he : span.stop = xs.length + ys.length) : Found.slice cs span = ys := by
  simp [Found.slice,h,hs,he]

lemma Found.between_skip (c : Cursor) (xs rest : List Char) (captures : List (String × Span)) :
  Found.between c { c.skip xs rest with captures } = ⟨c.before.reverse,xs,rest,captures⟩ := by
  have ht : (xs.reverse ++ c.before).take xs.length = xs.reverse := by
    rw [← length_reverse,take_left]
  simp [Found.between,Cursor.skip,ht]

lemma Found.textD_capture (pre xs ws after : List Char) (lbl : String) : (Found.mk pre (xs ++ ws) after
    [(lbl,⟨pre.length + xs.length,pre.length + (xs ++ ws).length⟩)]).textD lbl = String.ofList ws := by
  have hs : Found.slice (pre ++ (xs ++ ws) ++ after) ⟨pre.length + xs.length,
    pre.length + (xs ++ ws).length⟩ = ws :=
    Found.slice_eq (pre ++ xs) after _ (by simp) (by simp) (by simp [Nat.add_assoc])
  rw [textD,text?,chars?,span?,lookup_cons_self]
  exact congrArg String.ofList hs

lemma drop_of_append {cs xs ys : List Char} (h : xs ++ ys = cs) : cs.drop xs.length = ys := by
  rw [← h,drop_left]

namespace Cursor

variable {c : Cursor}

def Reaches (c c' : Cursor) : Prop :=
  ∃ xs, c.rest = xs ++ c'.rest ∧ c'.before = xs.reverse ++ c.before ∧ c'.offset = c.offset + xs.length

structure Within (cs : List Char) (c : Cursor) : Prop where
  chars : c.before.reverse ++ c.rest = cs
  offset : c.offset = c.before.length
  captures : c.captures = []

lemma Reaches.refl (c : Cursor) : Reaches c c := ⟨[],rfl,rfl,rfl⟩

lemma Reaches.trans {a b : Cursor} (hab : Reaches a b) (hbc : Reaches b c) : Reaches a c := by
  obtain ⟨xs,hr,hb,ho⟩ := hab
  obtain ⟨ys,hr',hb',ho'⟩ := hbc
  refine ⟨xs ++ ys,?_,?_,?_⟩
  · rw [hr,hr',append_assoc]
  · rw [hb',hb,reverse_append,append_assoc]
  · rw [ho',ho,length_append,Nat.add_assoc]

lemma reaches_advance {ch : Char} {rest : List Char} (h : c.rest = ch :: rest) : Reaches c (c.advance ch rest) :=
  ⟨[ch],h,rfl,rfl⟩

lemma reaches_take? {xs : List Char} {c' : Cursor} (h : c.take? xs = some c') : Reaches c c' := by
  induction xs generalizing c with
  | nil =>
    obtain rfl := Option.some.inj h
    exact .refl c
  | cons x xs ih =>
    rw [take?] at h
    split at h
    · rename_i y ys hr
      split at h
      · exact (reaches_advance hr).trans (ih h)
      · cases h
    · cases h

end Cursor

namespace Pattern

open Cursor (Reaches)

variable {c' c : Cursor} {next : Following}

lemma orElse_cases {α : Type} {a : Option α} {b : Unit → Option α} {x : α}
  (h : a.orElse b = some x) : a = some x ∨ b () = some x := by
  cases a with
  | none => exact Or.inr h
  | some y => exact Or.inl h

section

variable {p : Char → Bool} {next : Following} {c' c : Cursor} {least : Nat} {most : Option Nat}

lemma taken_of_runGreedy {rest : List Char} (hr : c.rest = rest)
    (h : runGreedy p next least most rest c = some c') :
  ∃ xs ys, (∀ x ∈ xs, p x) ∧ c.rest = xs ++ ys ∧ next (c.skip xs ys) = some c' := by
  have hs {c : Cursor} {least : Nat} (h : (if least = 0 then next c else none) = some c') :
      ∃ xs ys, (∀ x ∈ xs, p x = true) ∧ c.rest = xs ++ ys ∧ next (c.skip xs ys) = some c' := by
    split at h
    · exact ⟨[],c.rest,forall_mem_nil _,rfl,h⟩
    · cases h
  induction rest generalizing c least most with
  | nil => exact hs (by rwa [runGreedy] at h)
  | cons ch rest ih =>
    rw [runGreedy] at h
    split at h
    · next hp =>
        split at h
        · next r hm =>
            cases h
            obtain ⟨xs,ys,hx,hy,hn⟩ := ih rfl hm
            refine ⟨ch :: xs,ys,forall_mem_cons.mpr ⟨hp.2,hx⟩,hr.trans (congrArg (ch :: ·) hy),?_⟩
            rwa [← Cursor.skip_cons]
        · exact hs h
    · exact hs h

lemma reaches_runLazy {rest : List Char} (hr : c.rest = rest) (h : runLazy p next least most rest c = some c') :
  ∃ d, Reaches c d ∧ next d = some c' := by
  induction rest generalizing c least most with
  | nil =>
    rw [runLazy] at h
    split at h
    · exact ⟨c,.refl c,h⟩
    · cases h
  | cons ch rest ih =>
    rw [runLazy] at h
    split at h
    · rename_i r hn
      split at hn
      · exact ⟨c,.refl c,by rw [hn,h]⟩
      · cases hn
    · split at h
      · obtain ⟨d,hd,hnx⟩ := ih rfl h
        exact ⟨d,(Cursor.reaches_advance hr).trans hd,hnx⟩
      · cases h

lemma reaches_repeated {greedy : Bool} {body : Cursor → Following → Option Cursor}
  (hb : ∀ {c : Cursor} {next : Following} {c' : Cursor}, body c next = some c' →
    ∃ d, Reaches c d ∧ next d = some c') {fuel : Nat}
      (h : repeated greedy body fuel least most c next = some c') :
  ∃ d, Reaches c d ∧ next d = some c' := by
  induction fuel generalizing least most c with
  | zero => exact ⟨c,.refl c,h⟩
  | succ fuel ih =>
    have ht {d : Cursor} (hd : Reaches c d) (h' : ∃ d', Reaches d d' ∧ next d' = some c') :
        ∃ d, Reaches c d ∧ next d = some c' := by
      obtain ⟨d',hd',hn⟩ := h'
      exact ⟨d',hd.trans hd',hn⟩
    cases least with
    | succ least =>
      obtain ⟨d,hd,hr⟩ := hb h
      exact ht hd (ih hr)
    | zero =>
      have hm (h : (body c fun c' =>
          if c.offset < c'.offset then repeated greedy body fuel 0 (most.map (· - 1)) c' next
          else next c') = some c') : ∃ d, Reaches c d ∧ next d = some c' := by
        obtain ⟨d,hd,hr⟩ := hb h
        split at hr
        · exact ht hd (ih hr)
        · exact ⟨d,hd,hr⟩
      rw [repeated] at h
      split at h
      · exact ⟨c,.refl c,h⟩
      · cases greedy with
        | true => exact (orElse_cases h).elim hm fun h => ⟨c,.refl c,h⟩
        | false => exact (orElse_cases h).elim (fun h => ⟨c,.refl c,h⟩) hm

end

lemma reaches_guard {b : Bool} (h : (if b = true then next c else none) = some c') :
    ∃ d, Reaches c d ∧ next d = some c' := by
  split at h
  · exact ⟨c,.refl c,h⟩
  · cases h

lemma reaches_taken {xs : List Char} (h : (c.take? xs).bind next = some c') : ∃ d, Reaches c d ∧
    next d = some c' := by
  obtain ⟨d,hd,hn⟩ := Option.bind_eq_some_iff.mp h
  exact ⟨d,Cursor.reaches_take? hd,hn⟩

lemma reaches_meet (p : Pattern) (h : p.meet c next = some c') : ∃ d, Reaches c d ∧ next d = some c' := by
  induction p generalizing c next c' with
  | empty => exact ⟨c,.refl c,h⟩
  | text cs => exact reaches_taken h
  | one p =>
    rw [meet] at h
    split at h
    · rename_i ch rest hr
      split at h
      · exact ⟨_,Cursor.reaches_advance hr,h⟩
      · cases h
    · cases h
  | run greedy p least most =>
    cases greedy with
    | true =>
      obtain ⟨xs,ys,-,hr,hn⟩ := taken_of_runGreedy rfl h
      exact ⟨_,⟨xs,hr,rfl,rfl⟩,hn⟩
    | false => exact reaches_runLazy rfl h
  | seq first second ih1 ih2 =>
    obtain ⟨d,hd,hs⟩ := ih1 h
    obtain ⟨d',hd',hn⟩ := ih2 hs
    exact ⟨d',hd.trans hd',hn⟩
  | either first second ih1 ih2 =>
    exact (orElse_cases h).elim ih1 ih2
  | times greedy least most body ih => exact reaches_repeated ih h
  | capture lbl body ih =>
    obtain ⟨d,⟨xs,hd⟩,hn⟩ := ih h
    exact ⟨d.record lbl c.offset,⟨xs,hd⟩,hn⟩
  | again lbl =>
    rw [meet] at h
    split at h
    · exact reaches_taken h
    · cases h
  | given lbl yes no ih1 ih2 =>
    rw [meet] at h
    split at h
    · exact ih1 h
    · exact ih2 h
  | ahead body ih =>
    rw [meet] at h
    split at h
    · rename_i c1 _
      exact ⟨{ c with captures := c1.captures },⟨[],rfl,rfl,rfl⟩,h⟩
    · cases h
  | notAhead body ih =>
    rw [meet] at h
    split at h
    · cases h
    · exact ⟨c,.refl c,h⟩
  | behind classes => exact reaches_guard h
  | textStart => exact reaches_guard h
  | textEnd => exact reaches_guard h
  | lastLineEnd => exact reaches_guard h
  | lineStart => exact reaches_guard h
  | wordEdge => exact reaches_guard h

variable {p : Pattern} {f : Found} {moving : Bool} {cs : List Char}

lemma foundAt_split (h : p.foundAt moving c = some f) :
  f.before = c.before.reverse ∧ c.rest = f.matched ++ f.after := by
  rw [foundAt,Option.map_eq_some_iff] at h
  obtain ⟨c',hm,rfl⟩ := h
  obtain ⟨d,⟨xs,hr,hb,ho⟩,hn⟩ := p.reaches_meet hm
  split at hn
  · cases hn
  obtain rfl := Option.some.inj hn
  refine ⟨rfl,?_⟩
  have hl : d.offset - c.offset = xs.reverse.length := by
    rw [length_reverse]
    omega
  simp only [Found.between,hb,hl,take_left,reverse_reverse]
  exact hr

lemma foundAt_of_searchFrom {rest : List Char} (hr : c.rest = rest)
  (h : p.searchFrom moving rest c = some f) :
  ∃ m d, Reaches c d ∧ d.captures = c.captures ∧ p.foundAt m d = some f := by
  induction rest generalizing c moving with
  | nil =>
    cases hf : p.foundAt moving c with
    | none => simp [searchFrom,hf] at h
    | some g => exact ⟨moving,c,.refl c,rfl,by simpa [searchFrom,hf] using h⟩
  | cons ch rest ih =>
    cases hf : p.foundAt moving c with
    | none =>
      simp only [searchFrom,hf] at h
      obtain ⟨m,d,hd,hc,hf⟩ := ih rfl h
      exact ⟨m,d,(Cursor.reaches_advance hr).trans hd,hc,hf⟩
    | some g => exact ⟨moving,c,.refl c,rfl,by simpa [searchFrom,hf] using h⟩

lemma searchFrom_split {rest : List Char} (hr : c.rest = rest)
  (h : p.searchFrom moving rest c = some f) :
  ∃ skipped, f.before = c.before.reverse ++ skipped ∧ rest = skipped ++ f.matched ++ f.after := by
  obtain ⟨m,d,⟨xs,hx,hb,-⟩,-,hf⟩ := foundAt_of_searchFrom hr h
  obtain ⟨hp,hm⟩ := foundAt_split hf
  refine ⟨xs,?_,by rw [← hr,hx,hm,append_assoc]⟩
  rw [hp,hb,reverse_append,reverse_reverse]

lemma foundAt_of_mem_findFrom {fuel : Nat} (hc : c.Within cs) :
  ∀ f ∈ p.findFrom fuel moving c, ∃ m d, d.Within cs ∧ p.foundAt m d = some f := by
  induction fuel generalizing moving c with
  | zero => simp [findFrom]
  | succ fuel ih =>
    intro f hf
    rw [findFrom] at hf
    split at hf
    · cases hf
    rename_i g hg
    obtain ⟨m,d,⟨xs,hr,hb,ho⟩,hk,hfd⟩ := foundAt_of_searchFrom rfl hg
    have hd : d.Within cs := by
      refine ⟨?_,?_,hk.trans hc.captures⟩
      · rw [← hc.chars,hb,hr]
        simp
      · rw [ho,hb,hc.offset,length_append,length_reverse,Nat.add_comm]
    rcases mem_cons.mp hf with rfl | hf
    · exact ⟨m,d,hd,hfd⟩
    · obtain ⟨hbf,ha⟩ := foundAt_split hfd
      refine ih ⟨?_,?_,rfl⟩ f hf
      · rw [← hd.chars,ha]
        simp [resume,hbf]
      · simp [resume,Found.stop,Nat.add_comm]

lemma foundAt_of_mem_findAll (h : f ∈ p.findAll cs) :
  ∃ m d, d.Within cs ∧ p.foundAt m d = some f :=
  foundAt_of_mem_findFrom (c := Cursor.start cs) ⟨rfl,rfl,rfl⟩ f h

lemma subject_findAll : ∀ f ∈ p.findAll cs, f.subject = cs := by
  intro f hf
  obtain ⟨m,d,hd,hfd⟩ := foundAt_of_mem_findAll hf
  obtain ⟨hb,ha⟩ := foundAt_split hfd
  rw [Found.subject,hb,append_assoc,← ha,hd.chars]

lemma stop_le_length : ∀ f ∈ p.findAll cs, f.stop ≤ cs.length := by
  intro f hf
  rw [← subject_findAll f hf,Found.subject,length_append,length_append]
  exact Nat.le_add_right _ _

def Tries (p : Pattern) (ws : List String) : Prop :=
  ∀ c next, p.meet c next = ws.findSome? fun w => (c.take? w.toList).bind next

section

variable {p q : Pattern} {ws vs : List String}

lemma Tries.spells {next : Following} {c' : Cursor} (h : Tries p ws) (hm : p.meet c next = some c') :
    ∃ w ∈ ws, ∃ rest, c.rest = w.toList ++ rest ∧ next (c.skip w.toList rest) = some c' := by
  rw [h] at hm
  obtain ⟨w,hw,hm⟩ := exists_of_findSome?_eq_some hm
  obtain ⟨d,hd,hn⟩ := Option.bind_eq_some_iff.mp hm
  by_cases hp : w.toList <+: c.rest
  · obtain ⟨rest,hr⟩ := hp
    rw [Cursor.take?_append _ rest c hr.symm] at hd
    cases hd
    exact ⟨w,hw,rest,hr.symm,hn⟩
  · rw [Cursor.take?_eq_none _ c hp] at hd
    cases hd

lemma tries_lit (s : String) : Tries (lit s) [s] := by
  intro c next
  rw [meet_lit,findSome?_cons]
  cases (c.take? s.toList).bind next <;> rfl

lemma Tries.or (hp : Tries p ws) (hq : Tries q vs) : Tries (p ||| q) (ws ++ vs) := by
  intro c next
  rw [meet_or,hp,hq,findSome?_append,Option.orElse_eq_or]

lemma Tries.append (hp : Tries p ws) (hq : Tries q vs) : Tries (p ++ q)
    (ws.flatMap fun w => vs.map (w ++ ·)) := by
  intro c next
  rw [meet_append,hp]
  clear hp
  induction ws with
  | nil => rfl
  | cons w ws ih =>
    have hw : (vs.map (w ++ ·)).findSome? (fun x => (c.take? x.toList).bind next) =
        (c.take? w.toList).bind fun c' => q.meet c' next := by
      rw [findSome?_map]
      simp only [Function.comp_def,String.toList_append,Cursor.take?_append_eq]
      cases c.take? w.toList with
      | none => exact findSome?_eq_none_iff.mpr fun v _ => rfl
      | some d => exact (hq d next).symm
    rw [flatMap_cons,findSome?_append,hw,findSome?_cons,ih]
    cases (c.take? w.toList).bind fun c' => q.meet c' next <;> rfl

lemma Tries.optional (hp : Tries p ws) : Tries (optional p) (ws ++ [""]) := by
  intro c next
  rw [meet_optional,hp,findSome?_append,Option.orElse_eq_or]
  refine congrArg (Option.or _) ?_
  rw [findSome?_cons,String.toList_empty,Cursor.take?,Option.bind_some]
  cases next c <;> rfl

end

end Pattern

end Docweave
