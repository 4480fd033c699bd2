import Docweave.Proofs.Comments.Outline
import Docweave.Proofs.Layout.Writing

namespace Docweave

open List
open String (join join_cons ofList toList_append toList_ofList join_append)

namespace Text

open Pattern

lemma flatten_interleave (p : Pattern) (cs : List Char) (fuel : Nat) (moving : Bool) (c : Cursor)
  (hc : c.before.reverse ++ c.rest = cs) : (interleave (gaps cs c.before.length (p.findFrom fuel moving c))
    ((p.findFrom fuel moving c).map Found.matched)).flatten = c.rest := by
  have hd : cs.drop c.before.length = c.rest := by
    rw [← length_reverse]
    exact drop_of_append hc
  induction fuel generalizing moving c with
  | zero => simp [findFrom,gaps,interleave,hd]
  | succ fuel ih =>
    rw [findFrom]
    split
    · simp [gaps,interleave,hd]
    rename_i f hf
    obtain ⟨skipped,hb,hrs⟩ := searchFrom_split rfl hf
    have hr : (resume f).before.reverse ++ (resume f).rest = cs := by
      rw [← hc,hrs]
      simp [resume,hb]
    have hs : f.stop = (resume f).before.length := by
      simp [resume,Found.stop]
      omega
    have hg : f.before.drop c.before.length = skipped := by
      rw [← length_reverse]
      exact drop_of_append hb.symm
    have hl := ih f.matched.isEmpty (resume f) hr (by
      rw [← length_reverse]
      exact drop_of_append hr)
    simp only [map_cons,gaps,interleave,flatten_cons,hg,hs,hl]
    rw [hrs]
    simp [resume]

lemma flatten_findAll (p : Pattern) (cs : List Char) :
  (interleave (gaps cs 0 (p.findAll cs)) ((p.findAll cs).map Found.matched)).flatten = cs :=
  flatten_interleave p cs _ false (Cursor.start cs) rfl

lemma flatten_chunks (cs : List Char) : (chunks cs).flatten = cs := by
  rw [chunks]
  simp only [flatten_filter_not_isEmpty]
  exact flatten_findAll chunkPattern cs

lemma flatten_fitting (w : Int) (used : Nat) (list : List (List Char)) :
  (fitting w used list).1.flatten ++ (fitting w used list).2.2.flatten = list.flatten := by
  induction list generalizing used with
  | nil => rfl
  | cons chunk rest ih =>
    rw [fitting]
    split
    · simp only [flatten_cons,append_assoc,ih]
    · rfl

lemma flatten_fillLine (w : Int) (list : List (List Char)) :
  (fillLine w list).1.flatten ++ (fillLine w list).2.flatten = list.flatten := by
  have h := flatten_fitting w 0 list
  rw [fillLine]
  generalize fitting w 0 list = taken at h
  obtain ⟨line,used,rest⟩ := taken
  cases rest with
  | nil => exact h
  | cons chunk rest =>
    simp only
    split
    · rw [← h,flatten_append,flatten_singleton,append_assoc,flatten_cons,
        ← append_assoc (chunk.take _),take_append_drop]
      rfl
    · exact h

lemma dropBlankEnd_split (line : List (List Char)) :
  ∃ b, line.flatten = (dropBlankEnd line).flatten ++ b ∧ b.all isBlank := by
  rw [dropBlankEnd]
  cases hl : line.getLast? with
  | none => exact ⟨[],by simp,rfl⟩
  | some chunk =>
    simp only
    split
    · rename_i hb
      refine ⟨chunk,?_,hb⟩
      obtain ⟨init,rfl⟩ := getLast?_eq_some_iff.mp hl
      simp
    · exact ⟨[],by simp,rfl⟩

lemma fillFrom_first {w : Int} {ind : List Char} {fuel : Nat} {list : List (List Char)}
  {first : List Char} {ls : List (List Char)} (h : fillFrom w ind fuel true list = first :: ls) :
  ∃ b rest, list.flatten = b ++ first ++ rest ∧ b.all isBlank := by
  induction fuel generalizing list with
  | zero => cases h
  | succ fuel ih =>
    cases list with
    | nil => cases h
    | cons chunk list =>
      rw [fillFrom.eq_3 _ _ _ _ _ (cons_ne_nil _ _)] at h
      simp only [if_true] at h
      have hl := flatten_fillLine (w - (0 : Nat)) (chunk :: list)
      generalize fillLine (w - (0 : Nat)) (chunk :: list) = filled at h hl
      obtain ⟨line,later⟩ := filled
      obtain ⟨b,hb,hbl⟩ := dropBlankEnd_split line
      split at h
      · rename_i he
        obtain ⟨b',rest,hr,hbl'⟩ := ih h
        rw [List.isEmpty_iff.mp he] at hb
        refine ⟨b ++ b',rest,?_,?_⟩
        · rw [← hl,hr,hb]
          simp
        · rw [all_append,hbl,hbl']
          rfl
      · cases h
        refine ⟨[],b ++ later.flatten,?_,rfl⟩
        rw [← hl,hb]
        simp

lemma smooth_append {head : List Char} (ht : '\t' ∉ head) (hb : ∀ c ∈ head, isBreakable c → c = ' ')
    (cs : List Char) :
  ∃ rest, smooth (head ++ cs) = head ++ rest := by
  have he (col : Nat) (head : List Char) (ht : '\t' ∉ head) :
      ∃ rest, expandTabsFrom 8 col (head ++ cs) = head ++ rest := by
    induction head generalizing col with
    | nil => exact ⟨_,rfl⟩
    | cons c head ih =>
      rw [mem_cons,not_or] at ht
      obtain ⟨rest,hr⟩ := ih (if c = '\n' ∨ c = '\r' then 0 else col + 1) ht.2
      refine ⟨rest,?_⟩
      rw [cons_append,expandTabsFrom.eq_3 _ _ _ _ (fun h => ht.1 h.symm),hr,cons_append]
  obtain ⟨rest,hr⟩ := he 0 head ht
  refine ⟨rest.map fun c => if isBreakable c then ' ' else c,?_⟩
  rw [smooth,hr,map_append]
  congr 1
  refine (map_congr_left fun c hc => ?_).trans (map_id head)
  split
  · rename_i hbr
    exact (hb c hc hbr).symm
  · rfl

end Text

namespace Tree

open Element Text Comment

variable {k : Nat} {w : Option Int} {e : Element}

def openingChars (k : Nat) : List Char := replicate k ' ' ++ ['/','*','*',' ']

def StartsOpen (cs : List Char) : Prop := ∃ k rest, cs = openingChars k ++ rest

lemma openingChars_plain (k : Nat) : '\t' ∉ openingChars k ∧ ∀ c ∈ openingChars k, isBreakable c → c = ' ' := by
  constructor
  · simp [openingChars]
  · intro c hc
    simp only [openingChars,mem_append,mem_replicate,mem_cons,not_mem_nil,or_false] at hc
    rcases hc with ⟨-,rfl⟩ | rfl | rfl | rfl | rfl <;> decide

lemma blanks_before_opening {b cs rest : List Char} (hb : b.all isBlank)
  (h : b ++ cs = openingChars k ++ rest) : ∃ k', k' ≤ k ∧ cs = openingChars k' ++ rest := by
  induction b generalizing k with
  | nil => exact ⟨k,Nat.le_refl k,h⟩
  | cons c b ih =>
    rw [all_cons,Bool.and_eq_true] at hb
    cases k with
    | zero =>
      obtain ⟨rfl,-⟩ := cons.inj h
      exact absurd hb.1 (by decide)
    | succ k =>
      obtain ⟨k',hk',hcs⟩ := ih hb.2 (cons.inj h).2
      exact ⟨k',Nat.le_succ_of_le hk',hcs⟩

lemma startsOpen_of_long {first rest tail : List Char} (h : first ++ rest = openingChars k ++ tail)
  (hl : k + 4 ≤ first.length) : StartsOpen first := by
  have ho : openingChars k <+: first ++ rest := by
    rw [h]
    exact prefix_append _ _
  obtain ⟨tail',ht⟩ := prefix_of_prefix_length_le ho (prefix_append first rest)
    (by simpa [openingChars] using hl)
  exact ⟨k,tail',ht.symm⟩

lemma StartsOpen.append {cs : List Char} (h : StartsOpen cs) (more : List Char) : StartsOpen (cs ++ more) := by
  obtain ⟨k,rest,rfl⟩ := h
  exact ⟨k,rest ++ more,append_assoc _ _ _⟩

lemma join_intersperse (a : String) (l : List String) :
    ∃ more, join ((a :: l).intersperse "\n") = a ++ more := by
  cases l with
  | nil => exact ⟨"",by simp [join_cons]⟩
  | cons b l => exact ⟨_,by rw [intersperse_cons_cons,join_cons]⟩

lemma startsOpen_first {w : Int} {subsequent : String} {text line : String} {ls : List String}
  (hs : k + 4 ≤ subsequent.length) (h : fill w subsequent (ofList (openingChars k) ++ text) = .ok (line :: ls))
  (hl : ¬ line.length < subsequent.length) : StartsOpen line.toList := by
  rw [fill] at h
  split at h
  · cases h
  simp only [Except.ok.injEq,map_eq_cons_iff] at h
  obtain ⟨first,ls',hfl,rfl,-⟩ := h
  obtain ⟨b,rest,hf,hb⟩ := fillFrom_first hfl
  rw [flatten_chunks,toList_append,toList_ofList] at hf
  obtain ⟨tail,ht⟩ := smooth_append (openingChars_plain k).1 (openingChars_plain k).2 text.toList
  rw [ht,append_assoc] at hf
  obtain ⟨k',hk',hcs⟩ := blanks_before_opening hb hf.symm
  rw [toList_ofList]
  refine startsOpen_of_long hcs ?_
  rw [String.length_ofList] at hl
  omega

lemma startsOpen_fillLine {text : String} {hang : Int} {ts : List String}
  (h : fillLine w (ofList (openingChars k)) text hang = .ok ts) : StartsOpen (join ts).toList := by
  have hsb (more : String) : StartsOpen (ofList (openingChars k) ++ more).toList :=
    ⟨k,more.toList,by simp⟩
  have hl : k + 4 ≤ (ofList (openingChars k) ++ spacesInt hang).length := by
    rw [String.length_append,String.length_ofList,openingChars,length_append,length_replicate]
    simp
  cases w with
  | none => cases h
  | some w =>
    obtain ⟨filled,hf,rfl⟩ := map_ok h
    obtain ⟨line,ls,hln,hli⟩ : ∃ line ls, (if filled.isEmpty = true then [""] else filled) = line :: ls ∧
          (¬ line.length < (ofList (openingChars k) ++ spacesInt hang).length → StartsOpen line.toList) := by
      cases filled with
      | nil => exact ⟨"",[],rfl,fun hs => absurd (by simp at hl ⊢; omega) hs⟩
      | cons line ls => exact ⟨line,ls,rfl,startsOpen_first hl hf⟩
    rw [hln,map_cons]
    obtain ⟨more,hm⟩ := join_intersperse _ (ls.map fun line =>
      if line.length < (ofList (openingChars k) ++ spacesInt hang).length then
        ofList (openingChars k) ++ spacesInt hang else line)
    rw [hm,toList_append]
    refine StartsOpen.append ?_ _
    split
    · exact hsb _
    · rename_i hs
      exact hli hs

lemma startsOpen_writeLine {lang : Dialect} {e' : Element} {ts : List String}
  (h : writeLine w lang (ofList (openingChars k)) e = .ok (e',ts)) : StartsOpen (join ts).toList := by
  cases writeLine_ok_iff.mp h with
  | plain =>
    rw [join_cons,toList_append,toList_ofList]
    exact ⟨k,_,rfl⟩
  | filled _ hf =>
    rw [join_append,toList_append]
    exact (startsOpen_fillLine hf).append _

lemma startsOpen_writeLinesFrom {lang : Dialect} {next : String} {es : List Element} {err : Option Fault}
  (h : (writeLinesFrom w lang next (ofList (openingChars k)) (e :: es) err).fault = none) :
  StartsOpen (join (writeLinesFrom w lang next (ofList (openingChars k)) (e :: es) err).texts).toList := by
  obtain ⟨e',ts,hw,-⟩ := writeLinesFrom_ok h
  rw [writeLinesFrom_eq hw,join_append,toList_append]
  exact (startsOpen_writeLine hw).append _

lemma rendered_of_parts (k k' : Nat) {lead : Char} (hl : lead = ' ' ∨ lead = '\n')
    (rest : List Char) :
  Rendered (replicate k ' ' ++ '/' :: '*' :: '*' :: lead :: (rest ++
    '\n' :: (replicate k' ' ' ++ ['*','/']))) := by
  refine ⟨k,lead :: (rest ++ ['\n']),k',by simp,?_,lead :: rest,rfl⟩
  rcases hl with rfl | rfl
  · exact Or.inl rfl
  · exact Or.inr rfl

lemma rendered_of_startsOpen {front : List String} (h : StartsOpen (join front).toList)
  (n : Int) : Rendered (join (front ++ ["\n",spacesInt n,"*/"])).toList := by
  obtain ⟨k,rest,hf⟩ := h
  have hp := rendered_of_parts k n.toNat (Or.inl rfl) rest
  rw [join_append,toList_append,hf]
  simpa [spacesInt,spaces,openingChars] using hp

lemma rendered_writeComment {d : Edition} {comment : Element} {ls : Stream Element}
  (h : (writeComment d w comment ls).fault = none) :
  Rendered (join (writeComment d w comment ls).texts).toList := by
  obtain ⟨lang,ind,hs⟩ := writeComment_ok h
  rw [writeComment_eq hs] at h ⊢
  dsimp only at h ⊢
  rw [h]
  cases lang with
  | swift =>
    generalize writeLinesFrom _ _ _ _ _ _ = out
    have hp := rendered_of_parts ind.toNat (ind + 1).toNat (Or.inr rfl) (join out.texts).toList
    simpa [spacesInt,spaces,Dialect.isSwift] using hp
  | plain =>
    have ho : leader .plain ind true = ofList (openingChars ind.toNat) := by
      rw [← String.toList_inj]
      simp [leader,Dialect.isSwift,spacesInt,spaces,openingChars]
    rw [ho] at h ⊢
    cases hi : ls.items with
    | nil =>
      have hf : StartsOpen (join [ofList (openingChars ind.toNat)]).toList :=
        ⟨ind.toNat,[],by simp [join_cons]⟩
      exact rendered_of_startsOpen hf (ind + 1)
    | cons e es =>
      rw [hi] at h
      exact rendered_of_startsOpen (startsOpen_writeLinesFrom h) (ind + 1)

lemma writeElement_text {r : Element × String} (h : writeElement w e = .ok r) :
  (childIndex? "outputs" e = none ∧ r.1 = e ∧ e.text = some r.2) ∨
    (childIndex? "outputs" e ≠ none ∧ r.1.tag = e.tag ∧ Rendered r.2.toList) := by
  cases writeElement_ok_iff.mp h with
  | code hi ht => exact .inl ⟨hi,rfl,ht⟩
  | comment hi ha hf =>
    subst ha
    exact .inr ⟨by simp [hi],rfl,rendered_writeComment hf⟩

end Tree

end Docweave
