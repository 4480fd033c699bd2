import Docweave.Proofs.Layout.LineTexts
import Mathlib.Data.Nat.Digits.Defs

namespace Docweave

open List

namespace Text

variable {w : Int} {used fuel : Nat} {chunk ind : List Char} {list : List (List Char)}

lemma hyphenBreak?_le {room cut : Nat} (h : hyphenBreak? chunk room = some cut) : cut ≤ room := by
  rw [hyphenBreak?] at h
  split at h
  · cases h
  · cases h
    have hh : (chunk.take room).length ≤ room := by simp
    omega

lemma used_breakAt_le (hu : (used : Int) ≤ max 0 w) (chunk : List Char) :
  (used + breakAt w used chunk : Int) ≤ max 1 w := by
  obtain ⟨room,hr⟩ : ∃ room, room = (if w < 1 then 1 else (w - used).toNat) := ⟨_,rfl⟩
  have hf : (used + room : Int) ≤ max 1 w := by
    split at hr
    · omega
    · omega
  have hc : breakAt w used chunk ≤ room := by
    rw [breakAt,← hr]
    split
    · exact le_rfl
    · cases hb : hyphenBreak? chunk room with
      | none => exact le_rfl
      | some cut => exact hyphenBreak?_le hb
  omega

lemma fitting_used (hu : (used : Int) ≤ max 0 w) (list : List (List Char)) :
  used + (fitting w used list).1.flatten.length = (fitting w used list).2.1 ∧
    ((fitting w used list).2.1 : Int) ≤ max 0 w := by
  induction list generalizing used with
  | nil => exact ⟨rfl,hu⟩
  | cons chunk rest ih =>
    rw [fitting]
    split
    · obtain ⟨hl,hle⟩ := @ih (used + chunk.length) (by omega)
      rw [← hl,flatten_cons,length_append]
      omega
    · exact ⟨rfl,hu⟩

lemma length_fillLine_le (w : Int) (list : List (List Char)) :
  ((fillLine w list).1.flatten.length : Int) ≤ max 1 w := by
  obtain ⟨hl,hle⟩ := @fitting_used w 0 (by omega) list
  rw [fillLine]
  generalize fitting w 0 list = taken at hl hle
  obtain ⟨line,used,left⟩ := taken
  dsimp only at hl hle
  cases left with
  | nil =>
    dsimp only
    omega
  | cons chunk rest =>
    dsimp only
    split
    · have hc := used_breakAt_le hle chunk
      rw [flatten_append,flatten_singleton,length_append,length_take]
      omega
    · dsimp only
      omega

lemma length_fillFrom_le (w : Int) (ind : List Char) (isFirst : Bool) :
  ∀ line ∈ fillFrom w ind fuel isFirst list, (line.length : Int) ≤ max w (ind.length + 1) := by
  induction fuel generalizing isFirst list with
  | zero => exact forall_mem_nil _
  | succ fuel ih =>
    cases list with
    | nil => exact forall_mem_nil _
    | cons chunk rest =>
      rw [fillFrom.eq_3 _ _ _ _ _ (cons_ne_nil _ _)]
      generalize (if isFirst then chunk :: rest else dropBlankStart (chunk :: rest)) = list
      have hld : (if isFirst then [] else ind).length ≤ ind.length := by
        split
        · exact Nat.zero_le _
        · exact le_rfl
      generalize (if isFirst then [] else ind) = lead at hld
      have hl := length_fillLine_le (w - lead.length) list
      generalize fillLine (w - lead.length) list = filled at hl
      obtain ⟨line,left⟩ := filled
      obtain ⟨b,hb,-⟩ := dropBlankEnd_split line
      dsimp only at hl ⊢
      split
      · exact ih isFirst
      · refine forall_mem_cons.mpr ⟨?_,ih false⟩
        rw [hb,length_append] at hl
        rw [length_append]
        omega

lemma length_fill_le {ind text : String} {ls : List String} (h : fill w ind text = .ok ls) :
  ∀ line ∈ ls, (line.length : Int) ≤ max w (ind.length + 1) := by
  rw [fill] at h
  split at h
  · cases h
  obtain rfl := Except.ok.inj h
  intro line hl
  obtain ⟨cs,hcs,rfl⟩ := mem_map.mp hl
  have hle := length_fillFrom_le _ _ _ cs hcs
  rwa [String.length_toList,← String.length_ofList] at hle

def markText (ordered : Bool) (index : Nat) : String := if ordered then s!"{index + 1}." else "-"

lemma length_markText_le {ord : Bool} {index size : Nat} (hs : 1 < size)
  (h : ord → index + 1 < 10 ^ (size - 1)) : (markText ord index).length ≤ size := by
  rw [markText]
  split
  · next ho =>
      have hd := Nat.repr_length (index + 1) (size - 1) (by omega) (h ho)
      have hm : s!"{index + 1}." = (index + 1).repr ++ "." := rfl
      rw [hm,String.length_append]
      have hdt : ".".length = 1 := rfl
      omega
  · exact hs.le

lemma mem_markText {ord : Bool} {index : Nat} {c : Char} (h : c ∈ (markText ord index).toList) :
  c.isDigit ∨ c = '.' ∨ c = '-' := by
  rw [markText] at h
  split at h
  · have hm : (s!"{index + 1}.").toList = Nat.toDigits 10 (index + 1) ++ ['.'] := by
      show ((index + 1).repr ++ ".").toList = _
      simp [Nat.repr]
    rw [hm,mem_append,mem_singleton] at h
    exact h.imp (Nat.isDigit_of_mem_toDigits (by decide) (by decide)) .inl
  · exact .inr (.inr (by simpa using h))

end Text

namespace Tree

open Element Text

variable {dialect : Dialect} {e : Element}

lemma fillLine_narrow {w hang : Int} {start text : String} {filled : List String} (hfd : '\n' ∉ start.toList)
  (hw : ((start ++ spacesInt hang).length : Int) < w) (h : fillLine (some w) start text hang = .ok filled) :
  ∃ shown, filled = shown.intersperse "\n" ∧ shown ≠ [] ∧
    ∀ line ∈ shown, '\n' ∉ line.toList ∧ (line.length : Int) ≤ w := by
  obtain ⟨ls,hf,hfl⟩ := bind_ok h
  have hi := not_mem_leads hfd hang
  cases hfl
  have hln : ∀ line ∈ (if ls.isEmpty then [""] else ls), '\n' ∉ line.toList ∧ (line.length : Int) ≤ w := by
    intro line hl
    split at hl
    · rw [mem_singleton.mp hl]
      exact ⟨by simp,by simp; omega⟩
    · have hle := length_fill_le hf line hl
      exact ⟨fill_oneLine hi hf line hl,by omega⟩
  refine ⟨_,rfl,?_,fun line hl => ?_⟩
  · rw [ne_eq,map_eq_nil_iff]
    split
    · exact cons_ne_nil _ _
    · next hne => exact fun hn => hne (by rw [hn]; rfl)
  · obtain ⟨body,hb,rfl⟩ := mem_map.mp hl
    split
    · exact ⟨hi,by omega⟩
    · exact hln body hb

theorem line_fits_width {comment : Element} {indent : Int}
    (hstand : standing .final comment = .ok (dialect, indent)) {before after : List Element}
    (hlines : ∀ x ∈ before ++ e :: after, Settable x) {s : String}
    (hs : e.attribute? "hanging" = some s) :
    ∃ e' hanging, respellLine dialect e = .ok (e', some hanging) ∧
      ∀ width : Int, ((leader dialect indent before.isEmpty ++
        spacesInt hanging).length : Int) < width →
        (writeComment .final (some width) comment (.ofList (before ++ e :: after))).fault = none ∧
        ∃ front texts back,
          writeLine (some width) dialect (leader dialect indent before.isEmpty) e =
            .ok (e', texts) ∧
          (writeComment .final (some width) comment (.ofList (before ++ e :: after))).texts =
            front ++ texts ++ back ∧
          ∀ line ∈ physicalLines texts, (line.length : Int) ≤ width := by
  obtain ⟨e', hanging, text, hrespelled, htext⟩ := respellLine_settable dialect (hlines e (by simp)) hs
  refine ⟨e', hanging, hrespelled, fun width hwidth => ?_⟩
  obtain ⟨hfault, front, filled, back, ending, hfill, hending, hwrite, hsplit⟩ :=
    writeComment_line hstand hlines hrespelled (by omega : 0 < width)
  obtain ⟨shown, rfl, hne, hshown⟩ := fillLine_narrow
    (unlettered_leader dialect indent before.isEmpty).2 hwidth hfill
  have hfeed : ∀ line ∈ shown, '\n' ∉ line.toList := fun line hline => (hshown line hline).1
  have hnarrow : ∀ cs ∈ shown.map String.toList, (cs.length : Int) ≤ width := by
    intro cs hcs
    obtain ⟨line, hline, rfl⟩ := mem_map.mp hcs
    exact (hshown line hline).2
  refine ⟨hfault, front, _, back, hwrite, hsplit, ?_⟩
  rcases hending with rfl | rfl
  · rwa [append_nil, physicalLines_intersperse hne hfeed]
  · rw [physicalLines_feed hne hfeed, forall_mem_append, forall_mem_singleton]
    exact ⟨hnarrow, by simp; omega⟩

theorem line_fits_width_at_long_word : standing .final marginComment = .ok (.plain, 0) ∧
    (∀ x ∈ [logicalLine "Size"] ++ logicalLine "@param size well-known-number-of-octets" :: [],
      Settable x) ∧
    ∃ e' texts, writeLine (some 20) .plain (leader .plain 0 false)
        (logicalLine "@param size well-known-number-of-octets") = .ok (e', texts) ∧
      ∀ line ∈ physicalLines texts, (line.length : Int) ≤ 20 := by
  have hstand : standing .final marginComment = .ok (.plain, 0) := ok_of_toOption (by decide +kernel)
  have hlines : ∀ x ∈ [logicalLine "Size"] ++ logicalLine "@param size well-known-number-of-octets" :: [],
      Settable x := by
    simp [settable_logicalLine]
  refine ⟨hstand, hlines, ?_⟩
  obtain ⟨e', hanging, hrespelled, hwidths⟩ := line_fits_width hstand hlines rfl
  have hsame : (respellLine .plain (logicalLine
    "@param size well-known-number-of-octets")).toOption.map Prod.snd =
      some (some 12) := by
    decide +kernel
  rw [hrespelled] at hsame
  obtain rfl := Option.some.inj (Option.some.inj hsame)
  obtain ⟨-, -, texts, -, hwrite, -, hnarrow⟩ := hwidths 20 (by decide +kernel)
  exact ⟨e', texts, hwrite, hnarrow⟩

end Tree

end Docweave
