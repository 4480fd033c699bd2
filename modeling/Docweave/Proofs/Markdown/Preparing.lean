import Docweave.Proofs.Comments.Rereading
import Docweave.Proofs.Sections.Fragments

namespace Docweave

open List

namespace Cursor

def fed (c : Cursor) : Cursor := { c with rest := c.rest ++ ['\n'] }

end Cursor

def Found.fed (f : Found) : Found := { f with after := f.after ++ ['\n'] }

namespace Markup

open Pattern

variable {c : Cursor} {cs : List Char}

def blankLine : Pattern := lineStart ++ many1 isSpace ++ ahead (lit "\n" ||| textEnd)

def endsBlank : List Char → Bool
  | [] => true
  | c :: _ => c == '\n'

lemma meet_lineEnd (c : Cursor) (next : Following) :
    (ahead (lit "\n" ||| textEnd)).meet c next = if endsBlank c.rest then next c else none := by
  obtain ⟨pre,rest,offset,captures⟩ := c
  cases rest with
  | nil => rfl
  | cons ch rest =>
    by_cases h : '\n' = ch
    · subst h
      rfl
    have ht : (⟨pre,ch :: rest,offset,captures⟩ : Cursor).take? ['\n'] = none := by
      exact if_neg h
    have hm : (lit "\n" ||| textEnd).meet ⟨pre,ch :: rest,offset,captures⟩ some = none := by
      change ((Cursor.take? ['\n'] _).bind some).orElse _ = none
      rw [ht]
      rfl
    have he : endsBlank (ch :: rest) = false := by simpa [endsBlank] using Ne.symm h
    rw [meet,hm,he]
    rfl

def blanks? (c : Cursor) : Option (List Char × List Char) :=
  match c.rest with
  | [] => none
  | ch :: rest =>
    if (c.before.isEmpty || c.before.head? == some '\n') && isSpace ch
        && endsBlank (rest.dropWhile isSpace) then
      some (ch :: rest.takeWhile isSpace,rest.dropWhile isSpace)
    else none

lemma runGreedy_one (p : Char → Bool) (next : Following) (ch : Char) (rest : List Char) (c : Cursor) :
    runGreedy p next 1 none (ch :: rest) c =
      if p ch then runGreedy p next 0 none rest (c.advance ch rest) else none := by
  cases hp : p ch with
  | false => simp [runGreedy,hp]
  | true =>
    simp only [runGreedy,hp,ne_eq,reduceCtorEq,not_false_eq_true,and_self,if_true,
      Nat.sub_self,Option.map_none,Nat.one_ne_zero,if_false]
    split <;> simp_all

lemma meet_blankLine (c : Cursor) (next : Following) :
  blankLine.meet c next = (blanks? c).bind fun p => next (c.skip p.1 p.2) := by
  have hst (c' : Cursor) (h : ∃ ch rest, c'.rest = ch :: rest ∧ isSpace ch = true) :
      (ahead (lit "\n" ||| textEnd)).meet c' next = none := by
    obtain ⟨ch,rest,hr,hs⟩ := h
    obtain rfl : ch = ' ' := by simpa [isSpace] using hs
    rw [meet_lineEnd,hr]
    rfl
  have hm : blankLine.meet c next = if c.before.isEmpty || c.before.head? == some '\n' then
        runGreedy isSpace (fun c' => (ahead (lit "\n" ||| textEnd)).meet c' next) 1 none c.rest c
      else none := rfl
  rw [hm,blanks?]
  cases hr : c.rest with
  | nil =>
    rw [runGreedy,if_neg Nat.one_ne_zero,ite_self]
    rfl
  | cons ch rest =>
    have hsk : (c.advance ch rest).skip (rest.takeWhile isSpace) (rest.dropWhile isSpace) =
        c.skip (ch :: rest.takeWhile isSpace) (rest.dropWhile isSpace) := Cursor.skip_cons ..
    rw [runGreedy_one,runGreedy_eq isSpace _ hst rest _ rfl,meet_lineEnd,hsk]
    cases c.before.isEmpty || c.before.head? == some '\n' <;> cases hs : isSpace ch <;>
      cases he : endsBlank (rest.dropWhile isSpace) <;> simp [hs,he,Cursor.skip]

lemma endsBlank_feed (cs : List Char) : endsBlank (cs ++ ['\n']) = endsBlank cs := by
  cases cs <;> rfl

lemma spaces_feed (cs : List Char) : (cs ++ ['\n']).takeWhile isSpace = cs.takeWhile isSpace ∧
    (cs ++ ['\n']).dropWhile isSpace = cs.dropWhile isSpace ++ ['\n'] := by
  induction cs with
  | nil => decide
  | cons c cs ih => cases h : isSpace c <;> simp [h,ih]

lemma blanks?_fed (hne : c.rest ≠ []) : blanks? c.fed = (blanks? c).map fun p => (p.1,p.2 ++ ['\n']) := by
  obtain ⟨pre,rest,offset,captures⟩ := c
  cases rest with
  | nil => exact absurd rfl hne
  | cons ch rest =>
    simp only [blanks?,Cursor.fed,cons_append,spaces_feed,endsBlank_feed]
    split <;> rfl

lemma foundAt_fed (moving : Bool) (hne : c.rest ≠ []) :
  blankLine.foundAt moving c.fed = (blankLine.foundAt moving c).map Found.fed := by
  rw [foundAt,foundAt,meet_blankLine,meet_blankLine,blanks?_fed hne]
  cases blanks? c with
  | none => rfl
  | some p =>
    let still : Bool := moving && (c.skip p.1 p.2).offset == c.offset
    change Option.map (Found.between c.fed) (if still then none else some (c.fed.skip p.1 (p.2 ++ ['\n']))) =
      Option.map Found.fed (Option.map (Found.between c) (if still then none else some (c.skip p.1 p.2)))
    cases still <;> rfl

lemma foundAt_end (moving : Bool) (h : endsBlank c.rest) : blankLine.foundAt moving c = none := by
  have hn : blanks? c = none := by
    rw [blanks?]
    cases hr : c.rest with
    | nil => rfl
    | cons ch rest =>
      rw [hr] at h
      obtain rfl : ch = '\n' := by simpa [endsBlank] using h
      simp [isSpace]
  rw [foundAt,meet_blankLine,hn]
  rfl

lemma searchFrom_fed {rest : List Char} (hc : c.rest = rest) (moving : Bool) :
  blankLine.searchFrom moving (rest ++ ['\n']) c.fed = (blankLine.searchFrom moving rest c).map Found.fed := by
  induction rest generalizing c moving with
  | nil =>
    have hf : endsBlank c.fed.rest := by rw [Cursor.fed,hc]; rfl
    have he : endsBlank (c.fed.advance '\n' []).rest := rfl
    have hh : endsBlank c.rest := by rw [hc]; rfl
    rw [searchFrom,foundAt_end moving hh,nil_append,searchFrom,foundAt_end moving hf]
    change searchFrom blankLine false [] _ = none
    rw [searchFrom,foundAt_end false he]
  | cons ch rest ih =>
    have hne : c.rest ≠ [] := hc ▸ cons_ne_nil ch rest
    rw [searchFrom,cons_append,searchFrom,foundAt_fed moving hne]
    cases blankLine.foundAt moving c with
    | some f => rfl
    | none => exact ih (c := c.advance ch rest) rfl false

lemma matched_ne_nil {moving : Bool} {rest : List Char} {f : Found}
  (h : blankLine.searchFrom moving rest c = some f) : f.matched ≠ [] := by
  have hh (moving : Bool) (c : Cursor) (hf : blankLine.foundAt moving c = some f) : f.matched ≠ [] := by
    obtain ⟨c',hm,rfl⟩ := Option.map_eq_some_iff.mp hf
    rw [meet_blankLine] at hm
    obtain ⟨p,hp,hn⟩ := Option.bind_eq_some_iff.mp hm
    have hne : p.1 ≠ [] := by
      rw [blanks?] at hp
      split at hp
      · cases hp
      · split at hp
        · cases hp
          nofun
        · cases hp
    split at hn
    · cases hn
    · cases hn
      simpa [Found.between,Cursor.skip] using hne
  induction rest generalizing moving c with
  | nil =>
    rw [searchFrom] at h
    split at h
    · rename_i hf
      cases h
      exact hh moving c hf
    · cases h
  | cons ch rest ih =>
    rw [searchFrom] at h
    split at h
    · rename_i hf
      cases h
      exact hh moving c hf
    · exact ih h

lemma findFrom_fed {fuel fuel' : Nat} (hf : c.rest.length < fuel) (hf' : c.rest.length < fuel')
  (moving : Bool) : blankLine.findFrom fuel' moving c.fed =
    (blankLine.findFrom fuel moving c).map Found.fed := by
  induction fuel generalizing fuel' moving c with
  | zero => exact absurd hf (Nat.not_lt_zero _)
  | succ fuel ih =>
    obtain _ | fuel' := fuel'
    · exact absurd hf' (Nat.not_lt_zero _)
    have hs := searchFrom_fed (c := c) rfl moving
    have hr : c.fed.rest = c.rest ++ ['\n'] := rfl
    rw [findFrom,findFrom,hr,hs]
    cases hfn : blankLine.searchFrom moving c.rest c with
    | none => rfl
    | some f =>
      obtain ⟨skipped,-,hr⟩ := searchFrom_split rfl hfn
      have hln : (resume f).rest.length < c.rest.length := by
        have hp := length_pos_iff.mpr (matched_ne_nil hfn)
        rw [hr,length_append,length_append]
        change f.after.length < _
        omega
      have hfr : (resume f).rest.length < fuel := by omega
      have hsc : (resume f).rest.length < fuel' := by omega
      have hl := ih hfr hsc f.matched.isEmpty
      exact congrArg (f.fed :: ·) hl

lemma flatten_weave (gaps : List (List Char)) (fs : List Found) :
  replaceAll.weave gaps (fs.map fun _ => []) = gaps.flatten := by
  induction fs generalizing gaps with
  | nil => cases gaps <;> rfl
  | cons f fs ih =>
    cases gaps with
    | nil => rfl
    | cons gap gaps =>
      rw [map_cons,replaceAll.weave,ih,append_nil,flatten_cons]

lemma removeAll_eq (p : Pattern) (cs : List Char) : p.removeAll cs = (p.split cs).flatten :=
  flatten_weave _ _

lemma gaps_fed {fs : List Found} (hfs : ∀ f ∈ fs, f.stop ≤ cs.length) {origin : Nat} (ho : origin ≤ cs.length) :
  (gaps (cs ++ ['\n']) origin (fs.map Found.fed)).flatten = (gaps cs origin fs).flatten ++ ['\n'] := by
  induction fs generalizing origin with
  | nil => simp [gaps,drop_append_of_le_length ho]
  | cons f fs ih =>
    rw [forall_mem_cons] at hfs
    rw [map_cons,gaps,gaps,flatten_cons,flatten_cons,append_assoc,← ih hfs.2 hfs.1]
    rfl

lemma removeAll_feed (cs : List Char) :
    blankLine.removeAll (cs ++ ['\n']) = blankLine.removeAll cs ++ ['\n'] := by
  have hf : blankLine.findAll (cs ++ ['\n']) = (blankLine.findAll cs).map Found.fed := by
    refine findFrom_fed (c := Cursor.start cs) ?_ ?_ false
    · change cs.length < 2 * cs.length + 2
      omega
    · change cs.length < 2 * (cs ++ ['\n']).length + 2
      rw [length_append]
      omega
  rw [removeAll_eq,removeAll_eq,Pattern.split,hf]
  exact gaps_fed stop_le_length (Nat.zero_le _)

lemma removeAll_of_no_space (h : ' ' ∉ cs) : blankLine.removeAll cs = cs := by
  have hs {rest : List Char} {c : Cursor} (hc : c.rest = rest) (hr : ' ' ∉ rest)
      (moving : Bool) : blankLine.searchFrom moving rest c = none := by
    induction rest generalizing c moving with
    | nil => rw [searchFrom,foundAt_end moving (by rw [hc]; rfl)]
    | cons ch rest ih =>
      rw [mem_cons,not_or] at hr
      have hn : blanks? c = none := by
        simp [blanks?,hc,isSpace,Ne.symm hr.1]
      have hf : blankLine.foundAt moving c = none := by
        rw [foundAt,meet_blankLine,hn]
        rfl
      rw [searchFrom,hf]
      exact ih rfl hr.2 false
  have hfn : blankLine.findAll cs = [] := by
    rw [findAll,findFrom,hs rfl h]
  rw [removeAll_eq,Pattern.split,hfn]
  exact append_nil cs

lemma prepare_feed {s : String} (h : '\r' ∉ s.toList) : prepare (s ++ "\n") = prepare s ++ ['\n'] := by
  have hf : '\r' ∉ (s ++ "\n").toList := by
    simpa using h
  have hp (s : String) : prepare s = blankLine.removeAll ((Text.expandTabsFrom 4 0
      (Text.normalizeNewlines s.toList)).map fun c => if c.toNat = 9252 then '\n' else c) := rfl
  rw [hp,hp,Text.normalizeNewlines_of_no_return h,Text.normalizeNewlines_of_no_return hf,String.toList_append]
  change blankLine.removeAll ((Text.expandTabsFrom 4 0 (s.toList ++ ['\n'])).map _) = _
  rw [Comment.expandTabsFrom_line,map_append]
  exact removeAll_feed _

lemma takeText_feed {s : String} (h : '\r' ∉ s.toList) (reader : Reader) :
  takeText (s ++ "\n") reader = takeText s reader := by
  have hd (cs : List Char) : dropEndNewlines (cs ++ ['\n']) = dropEndNewlines cs := by
    simp [dropEndNewlines,Text.dropEndWhile]
  have ha (l : Lexed) : l.add (prepare (s ++ "\n")) = l.add (prepare s) := by
    rw [prepare_feed h,Lexed.add,Lexed.add,hd]
  rw [takeText,takeText,ha]

end Markup

namespace Tree

lemma readMarkdown_feed {text : String} (h : '\r' ∉ text.toList) (tag : String) :
  readMarkdown tag (text ++ "\n") = readMarkdown tag text := by
  have hr : Markup.render Markup.elementRenderer (text ++ "\n") = Markup.render Markup.elementRenderer text := by
    rw [Markup.render,Markup.render,funext (Markup.takeText_feed h)]
  rw [readMarkdown,readMarkdown,Markup.readElement,Markup.readElement,hr]

end Tree

end Docweave
