import Docweave.Proofs.Sections.Histories
import Mathlib.Data.List.DropRight

namespace Docweave

open List

namespace Section

open Text Files

variable {path name : String} {line : String} {ls rest : List String}

def body (rest : List String) : List String := rest.takeWhile fun line => !isTop line

def documented? (path : String) : List String → Option Section
  | [] => none
  | line :: rest => (heading? line).map fun name => ⟨path,name,closeLines (body rest)⟩

def closed (kept rest : List String) : List String :=
  if rest.any isTop then closeLines (kept ++ body rest) else kept ++ body rest

def found? (path : String) : List String → Option Section
  | [] => none
  | line :: rest => (heading? line).map fun name => ⟨path,name,closed [] rest⟩

lemma isTop_of_heading (h : heading? line = some name) : isTop line := by
  rw [heading?] at h
  split at h
  · rename_i rest hl
    rw [isTop,hl]
    cases rest with
    | nil => rfl
    | cons c rest =>
      by_cases hc : c = '#'
      · subst hc
        have ht : (trim ('#' :: rest)).head? = some '#' := by
          rw [trim,dropWhile_cons_of_neg (by decide),dropEndWhile_cons_of_neg (by decide)]
          rfl
        simp [ht] at h
      · simp [hc]
  · cases h

lemma heading?_of_not_top (h : isTop line = false) : heading? line = none := by
  cases hn : heading? line with
  | none => rfl
  | some name => rw [isTop_of_heading hn] at h; cases h

lemma closed_top (kept : List String) (h : isTop line) : closed kept (line :: rest) = closeLines kept := by
  simp [closed,body,h]

lemma closed_other (kept : List String) (h : isTop line = false) :
  closed kept (line :: rest) = closed (kept ++ [line]) rest := by
  simp [closed,body,h]

def pending (path : String) (rest : List String) : Option (String × List String) → List Section
  | none => []
  | some (name,kept) => [⟨path,name,closed kept rest⟩]

lemma gather_items (current : Option (String × List String)) (ls : List String) :
  (gather path current ls none).items = pending path ls current ++ ls.tails.filterMap (found? path) := by
  induction ls generalizing current with
  | nil =>
    cases current with
    | none => rfl
    | some p => simp [gather,pending,closed,body,found?]
  | cons line rest ih =>
    have hs : (gather path ((heading? line).map (·,[])) rest none).items =
        ((line :: rest).tails).filterMap (found? path) := by
      rw [ih,tails_cons,filterMap_cons,found?]
      cases heading? line <;> rfl
    cases current with
    | none => rw [gather,hs]; rfl
    | some p =>
      obtain ⟨name,kept⟩ := p
      rw [gather]
      split
      · rename_i ht
        rw [pending,closed_top kept ht,← hs]
        rfl
      · rename_i ht
        have ho : isTop line = false := Bool.eq_false_iff.mpr ht
        rw [ih,tails_cons,filterMap_cons,found?,heading?_of_not_top ho,pending,pending,closed_other kept ho]
        rfl

lemma items_read (path text : String) : (read path (Content.text text).lines).items =
    (Content.text text).lines.items.tails.filterMap (found? path) := by
  have hf : (Content.text text).lines.fault = none := rfl
  rw [read,hf,gather_items,pending,nil_append]

lemma filterMap_eq_iff {α β : Type} {f g : α → Option β} {l : List α}
    (h : ∀ x ∈ l, (f x).isSome = (g x).isSome) :
  l.filterMap f = l.filterMap g ↔ ∀ x ∈ l, f x = g x := by
  refine ⟨fun heq => ?_,fun heq => filterMap_congr heq⟩
  induction l with
  | nil => exact forall_mem_nil _
  | cons x l ih =>
    rw [forall_mem_cons] at h ⊢
    rw [filterMap_cons,filterMap_cons] at heq
    cases hf : f x with
    | none =>
      have hg : g x = none := by simpa [hf] using h.1.symm
      rw [hf,hg] at heq
      exact ⟨hg.symm,ih h.2 heq⟩
    | some y =>
      obtain ⟨z,hg⟩ := Option.isSome_iff_exists.mp (by rw [← h.1,hf]; rfl : (g x).isSome = true)
      rw [hf,hg] at heq
      obtain ⟨rfl,ht⟩ := cons.inj heq
      exact ⟨hg.symm,ih h.2 ht⟩

lemma closeLines_eq_self_iff (ls : List String) :
  closeLines ls = ls ↔ ∀ last ∈ ls.getLast?, dropEndNewlines last = last := by
  induction ls with
  | nil => simp [closeLines]
  | cons line ls ih =>
    cases ls with
    | nil => simp [closeLines]
    | cons next ls =>
      rw [closeLines_cons line (cons_ne_nil _ _),cons_inj_right,ih,getLast?_cons_cons]

lemma closed_eq_iff (rest : List String) : closed [] rest = closeLines (body rest) ↔
    ((∀ l ∈ rest, isTop l = false) → ∀ last ∈ rest.getLast?, dropEndNewlines last = last) := by
  by_cases ha : rest.any isTop = true
  · obtain ⟨l,hl,ht⟩ := any_eq_true.mp ha
    rw [closed,if_pos ha,nil_append]
    exact iff_of_true rfl fun hn => absurd (hn l hl) (by rw [ht]; decide)
  · have hn : ∀ l ∈ rest, isTop l = false := by simpa using ha
    have hb : body rest = rest := takeWhile_eq_self_iff.mpr fun l hl => by rw [hn l hl]; rfl
    rw [closed,if_neg ha,nil_append,hb,← closeLines_eq_self_iff,eq_comm]
    exact ⟨fun h _ => h,fun h => h hn⟩

theorem sections_documented_iff (path text : String) :
    let lines := (Content.text text).lines.items
    (read path (Content.text text).lines).items = lines.tails.filterMap (found? path) ∧
    ((read path (Content.text text).lines).items = lines.tails.filterMap (documented? path) ↔
      ∀ line rest, line :: rest <:+ lines → (heading? line).isSome = true → (∀ l ∈ rest, isTop l = false) →
        ∀ last ∈ rest.getLast?, dropEndNewlines last = last) := by
  intro lines
  have hsame : ∀ l ∈ lines.tails, (found? path l).isSome = (documented? path l).isSome := by
    intro l _
    cases l with
    | nil => rfl
    | cons line rest => rw [found?, documented?, Option.isSome_map, Option.isSome_map]
  refine ⟨items_read path text, ?_⟩
  rw [items_read, filterMap_eq_iff hsame]
  constructor
  · intro h line rest hsuffix hheading
    obtain ⟨name, hname⟩ := Option.isSome_iff_exists.mp hheading
    have heq := h _ ((mem_tails _ _).mpr hsuffix)
    rw [found?, documented?, hname] at heq
    exact (closed_eq_iff rest).mp (Section.mk.inj (Option.some.inj heq)).2.2
  · intro h l hl
    cases l with
    | nil => rfl
    | cons line rest =>
        rw [found?, documented?]
        cases hname : heading? line with
        | none => rfl
        | some name =>
            have heq := (closed_eq_iff rest).mpr (h line rest ((mem_tails _ _).mp hl) (by rw [hname]; rfl))
            rw [Option.map_some, Option.map_some, heq]

theorem section_at_end_keeps_line_end :
    (read "a.md" (Content.text "# x\na\n").lines).items = [⟨"a.md", "x", ["a\n"]⟩] ∧
    (Content.text "# x\na\n").lines.items.tails.filterMap (documented? "a.md") =
      [⟨"a.md", "x", ["a"]⟩] ∧
    (read "a.md" (Content.text "# x\na\n").lines).items ≠
      (Content.text "# x\na\n").lines.items.tails.filterMap (documented? "a.md") := by
  decide +kernel

section

variable {ls : List String}

def IsLine (line : String) : Prop :=
  line.toList.getLast? = some '\n' ∧ '\n' ∉ line.toList.dropLast ∧ '\r' ∉ line.toList.dropLast

instance (line : String) : Decidable (IsLine line) := inferInstanceAs (Decidable (_ ∧ _ ∧ _))

def IsNote (line : String) : Prop := IsLine line ∧ line.toList.head? ≠ some '#'

instance (line : String) : Decidable (IsNote line) := inferInstanceAs (Decidable (_ ∧ _))

def IsEnd (line : String) : Prop :=
  IsLine line ∧ line.toList.head? = some '#' ∧ line.toList.tail.all isBlank = true

instance (line : String) : Decidable (IsEnd line) := inferInstanceAs (Decidable (_ ∧ _ ∧ _))

structure Entry where
  name : String
  lines : List String
  notes : List String
  name_ne : name ≠ ""
  name_trim : trim name.toList = name.toList
  name_free : name.toList.head? ≠ some '#'
  name_inline : '\n' ∉ name.toList ∧ '\r' ∉ name.toList
  lines_inside : ∀ l ∈ lines, IsLine l ∧ isTop l = false
  notes_outside : ∀ l ∈ notes, IsNote l ∨ IsEnd l
  notes_end : ∀ l ∈ notes.head?, IsEnd l

def Entry.sheet (e : Entry) : List String := ("# " ++ e.name ++ "\n") :: (e.lines ++ e.notes)

structure Booklet where
  notes : List String
  entries : List Entry
  notes_free : ∀ l ∈ notes, IsNote l

def Booklet.sheet (b : Booklet) : List String := b.notes ++ b.entries.flatMap Entry.sheet

def Booklet.text (b : Booklet) : String := String.join b.sheet

lemma isLine_iff : IsLine line ↔ ∃ cs, line.toList = cs ++ ['\n'] ∧ '\n' ∉ cs ∧ '\r' ∉ cs := by
  constructor
  · rintro ⟨hl,hf,hr⟩
    exact ⟨_,(dropLast_append_getLast? _ hl).symm,hf,hr⟩
  · rintro ⟨cs,hln,hf,hr⟩
    rw [IsLine,hln,dropLast_concat]
    exact ⟨getLast?_concat,hf,hr⟩

lemma IsEnd.blank (h : IsEnd line) : ∃ cs, line.toList = '#' :: cs ∧ ∀ c ∈ cs, isBlank c := by
  obtain ⟨-,hh,hb⟩ := h
  obtain ⟨cs,hl⟩ := head?_eq_some_iff.mp hh
  rw [hl] at hb
  exact ⟨cs,hl,all_eq_true.mp hb⟩

lemma fileLines_join (h : ∀ l ∈ ls, IsLine l) : fileLines (String.join ls) = ls := by
  induction ls with
  | nil => rfl
  | cons line ls ih =>
    rw [forall_mem_cons] at h
    obtain ⟨hf,hr⟩ := h
    obtain ⟨cs,hln,hfd,-⟩ := isLine_iff.mp hf
    have hj : (String.join (line :: ls)).toList = cs ++ '\n' :: (String.join ls).toList := by
      rw [String.join_cons,String.toList_append,hln,append_assoc]
      rfl
    have hl := ih hr
    rw [fileLines] at hl ⊢
    rw [hj,Comment.fileLinesFrom_line hfd,map_cons,hl,reverse_nil,nil_append,← hln,String.ofList_toList]

lemma no_return_join (h : ∀ l ∈ ls, IsLine l) : '\r' ∉ (String.join ls).toList := by
  have hn : ∀ l ∈ ls, '\r' ∉ l.toList := by
    intro l hl
    obtain ⟨cs,hln,-,hr⟩ := isLine_iff.mp (h l hl)
    simp [hln,hr]
  simpa using hn

lemma lines_join (h : ∀ l ∈ ls, IsLine l) : (Content.text (String.join ls)).lines = ⟨ls,none⟩ := by
  rw [Content.lines,normalizeNewlines_of_no_return (no_return_join h),String.ofList_toList,fileLines_join h]

lemma trim_padded {cs : List Char} (hne : cs ≠ []) (ht : trim cs = cs) : trim (' ' :: (cs ++ ['\n'])) = cs := by
  have hs : cs.dropWhile isBlank = cs := by
    refine (dropWhile_suffix isBlank).eq_of_length_le ?_
    have hle := length_dropEndWhile_le isBlank (cs.dropWhile isBlank)
    rwa [← trim,ht] at hle
  have he : dropEndWhile isBlank cs = cs := by
    rw [trim,hs] at ht
    exact ht
  have hf : (' ' :: (cs ++ ['\n'])).dropWhile isBlank = cs ++ ['\n'] := by
    rw [dropWhile_cons_of_pos (by decide),dropWhile_append,hs,if_neg (by simpa using hne)]
  rw [trim,hf,dropEndWhile_append,if_pos (dropEndWhile_of_all (forall_mem_singleton.mpr (by decide))),he]

lemma Entry.heading (e : Entry) : heading? ("# " ++ e.name ++ "\n") = some e.name := by
  have hl : ("# " ++ e.name ++ "\n").toList = '#' :: ' ' :: (e.name.toList ++ ['\n']) := by
    simp
  have hne : e.name.toList ≠ [] := fun hn => e.name_ne (String.toList_eq_nil_iff.mp hn)
  rw [heading?,hl]
  simp [trim_padded hne e.name_trim,hne,e.name_free]

lemma IsNote.heading (h : IsNote line) : heading? line = none := heading?_of_other h.2

lemma IsEnd.heading (h : IsEnd line) : heading? line = none := by
  obtain ⟨cs,hl,hb⟩ := h.blank
  have ht : trim cs = [] := by
    rw [trim,dropWhile_eq_nil_iff.mpr hb]
    rfl
  rw [heading?,hl]
  simp [ht]

lemma IsEnd.top (h : IsEnd line) : isTop line := by
  obtain ⟨cs,hl,hb⟩ := h.blank
  rw [isTop,hl]
  cases cs with
  | nil => rfl
  | cons c cs =>
    have hc : c ≠ '#' := by
      rintro rfl
      exact absurd (hb _ mem_cons_self) (by decide)
    simp [hc]

lemma Entry.heading_notes (e : Entry) : ∀ l ∈ e.notes, heading? l = none := fun l hl =>
  (e.notes_outside l hl).elim IsNote.heading IsEnd.heading

lemma Entry.isLine (e : Entry) : ∀ l ∈ e.sheet, IsLine l := by
  rw [sheet,forall_mem_cons,forall_mem_append]
  refine ⟨isLine_iff.mpr ⟨"# ".toList ++ e.name.toList,by simp,?_,?_⟩,fun l hl => (e.lines_inside l hl).1,
    fun l hl => ?_⟩
  · simp [e.name_inline.1]
  · simp [e.name_inline.2]
  · exact (e.notes_outside l hl).elim And.left And.left

lemma Booklet.isLine (b : Booklet) : ∀ l ∈ b.sheet, IsLine l := by
  rw [sheet,forall_mem_append]
  refine ⟨fun l hl => (b.notes_free l hl).1,fun l hl => ?_⟩
  obtain ⟨e,-,hle⟩ := mem_flatMap.mp hl
  exact e.isLine l hle

structure Entry.Gives (path : String) (e : Entry) (s : Section) : Prop where
  path : s.path = path
  name : s.name = e.name
  lines : closeLines s.lines = closeLines e.lines

lemma closeLines_closeLines (ls : List String) : closeLines (closeLines ls) = closeLines ls := by
  induction ls with
  | nil => rfl
  | cons line ls ih =>
    cases ls with
    | nil =>
      have ht : dropEndWhile isNewline (dropEndWhile isNewline line.toList) =
        dropEndWhile isNewline line.toList :=
        rdropWhile_idempotent isNewline line.toList
      simp [closeLines,dropEndNewlines,ht]
    | cons next ls =>
      have hne : closeLines (next :: ls) ≠ [] := by
        rw [← length_pos_iff,length_closeLines]
        exact Nat.succ_pos _
      rw [closeLines_cons line (cons_ne_nil _ _),closeLines_cons line hne,ih]

lemma gather_entry (path : String) (e : Entry) (es : List Entry) :
  ∃ s, e.Gives path s ∧ (gather path none ((e :: es).flatMap Entry.sheet) none).items =
    s :: (gather path none (es.flatMap Entry.sheet) none).items := by
  have hg (ls : List String) (h : closeLines ls = closeLines e.lines) : e.Gives path ⟨path,e.name,ls⟩ :=
    ⟨rfl,rfl,h⟩
  have hc := hg (closeLines e.lines) (closeLines_closeLines e.lines)
  have ho : gather path none ((e :: es).flatMap Entry.sheet) none =
      gather path (some (e.name,e.lines)) (e.notes ++ es.flatMap Entry.sheet) none := by
    rw [flatMap_cons,Entry.sheet,cons_append,gather,e.heading,append_assoc,Option.map_some,
      gather_body fun l hl => (e.lines_inside l hl).2,nil_append]
  rw [ho]
  cases hn : e.notes with
  | cons first notes =>
    have ht : isTop first := (e.notes_end first (by rw [hn]; rfl)).top
    have hs : gather path none (e.notes ++ es.flatMap Entry.sheet) none =
        gather path none (es.flatMap Entry.sheet) none := gather_before e.heading_notes
    rw [hn] at hs
    rw [cons_append,gather_top ht,← cons_append,hs]
    exact ⟨_,hc,rfl⟩
  | nil =>
    rw [nil_append]
    cases es with
    | nil => exact ⟨_,hg e.lines rfl,rfl⟩
    | cons f fs =>
      have hnx : (f :: fs).flatMap Entry.sheet =
          ("# " ++ f.name ++ "\n") :: (f.lines ++ f.notes ++ fs.flatMap Entry.sheet) := rfl
      rw [hnx,gather_top (isTop_name f.name),← hnx]
      exact ⟨_,hc,rfl⟩

lemma gather_entries (path : String) (es : List Entry) :
  Forall₂ (Entry.Gives path) es (gather path none (es.flatMap Entry.sheet) none).items := by
  induction es with
  | nil => exact .nil
  | cons e es ih =>
    obtain ⟨s,hs,hi⟩ := gather_entry path e es
    rw [hi]
    exact .cons hs ih

theorem read_booklet (path : String) (b : Booklet) :
    (read path (Content.text b.text).lines).fault = none ∧
    List.Forall₂ (Entry.Gives path) b.entries (read path (Content.text b.text).lines).items := by
  rw [Booklet.text, lines_join b.isLine, read]
  refine ⟨fault_gather_none _ _ _, ?_⟩
  rw [Booklet.sheet, gather_before fun l hl => (b.notes_free l hl).heading]
  exact gather_entries path b.entries

def guide : Booklet where
  notes := ["Notes.\n","\n"]
  entries := [
    ⟨"name one",["first\n","## part\n","last\n"],["# \n","More notes.\n"],by decide,by decide +kernel,
      by decide,by decide,by decide +kernel,by decide +kernel,by decide +kernel⟩,
    ⟨"empty",[],[],by decide,by decide +kernel,by decide,by decide,by decide,by decide,by decide⟩,
    ⟨"emptyline",["\n"],[],by decide,by decide +kernel,by decide,by decide,by decide,by decide,by decide⟩]
  notes_free := by decide +kernel

theorem read_booklet_of_guide :
    guide.text = "Notes.\n\n# name one\nfirst\n## part\nlast\n# \nMore notes.\n# empty\n# emptyline\n\n" ∧
    List.Forall₂ (Entry.Gives "a.md") guide.entries
      (read "a.md" (Content.text guide.text).lines).items :=
  ⟨by decide, (read_booklet "a.md" guide).2⟩

end

end Section

namespace Shelf

open Files Act

variable {store store' : Store} {sh sh' shelf' : Shelf} {path : String}

section

variable {err : Fault}

lemma fault_pieceFrom {fuel position : Nat} {bytes : List Nat}
  (h : (Text.Utf8.pieceFrom fuel position bytes).fault = some err) : err.category = .notUtf8 := by
  induction fuel generalizing position bytes with
  | zero => cases h
  | succ fuel ih =>
    cases bytes with
    | nil => cases h
    | cons byte bytes =>
      rw [Text.Utf8.pieceFrom] at h
      · split at h
        · cases h
        · cases h
          rfl
        · exact ih h
      · exact cons_ne_nil byte bytes

lemma fault_decodeFrom {size fuel : Nat} {pending bytes : List Nat}
  (h : (Text.Utf8.decodeFrom size fuel pending bytes).fault = some err) : err.category = .notUtf8 := by
  induction fuel generalizing pending bytes with
  | zero => cases h
  | succ fuel ih =>
    rw [Text.Utf8.decodeFrom] at h
    split at h
    · rw [Text.Utf8.endFault] at h
      repeat' split at h
      · cases h
      · cases h
        rfl
      · cases h
        rfl
    dsimp only at h
    split at h
    · rename_i hp
      cases h
      exact fault_pieceFrom hp
    · exact ih h

lemma fault_lines (h : (store.lines path).fault = some err) : err.category ≠ .runtime := by
  rw [Store.lines] at h
  cases hrd : store.read path with
  | error other =>
    rw [hrd] at h
    obtain rfl := Option.some.inj h
    intro hr
    have hp : explain "" (some "") other = other := by
      rw [explain,hr]
      rfl
    rw [explain_read hrd] at hp
    rw [← hp] at hr
    split at hr <;> cases hr
  | ok c =>
    rw [hrd] at h
    cases c with
    | text s => cases h
    | bytes bs =>
      have hd : err.category = .notUtf8 := fault_decodeFrom h
      rw [hd]
      decide

end

lemma addAll_error {ns : List String} {items : List Section} {err : Option Fault} {f : Fault}
  (h : (addAll path ns items err).perform sh = (.error f,sh')) :
  err = some f ∨ ∃ pre last rest, items = pre ++ last :: rest ∧ f = .repeatedSection last.name path ∧
    (pre.map Section.name).Nodup ∧ (∀ s ∈ pre, s.name ∉ ns) ∧
    (last.name ∈ ns ∨ last.name ∈ pre.map Section.name) ∧
    sh' = ⟨last :: (pre.reverse ++ sh.sections),sh.files ++ pre.map fun _ => path⟩ := by
  induction items generalizing ns sh with
  | nil =>
    cases err with
    | none => cases h
    | some err =>
      obtain ⟨hfl,-⟩ := Prod.mk.inj h
      exact .inl (congrArg some (Except.error.inj hfl))
  | cons s rest ih =>
    rw [addAll_cons] at h
    split at h
    · rename_i hr
      obtain ⟨hfl,rfl⟩ := Prod.mk.inj h
      refine .inr ⟨[],s,rest,rfl,(Except.error.inj hfl).symm,.nil,forall_mem_nil _,.inl ?_,?_⟩
      · simpa using hr
      · simp
    rename_i hnw
    rcases ih h with hfl | ⟨pre,last,later,rfl,hf,hnd,hn,hl,hsh⟩
    · exact .inl hfl
    have hs : s.name ∉ ns := by simpa using hnw
    have hn' : ∀ t ∈ pre, t.name ∉ ns ∧ t.name ≠ s.name := by
      intro t ht
      simpa using hn t ht
    refine .inr ⟨s :: pre,last,later,rfl,hf,?_,?_,?_,?_⟩
    · rw [map_cons,nodup_cons]
      refine ⟨fun hm => ?_,hnd⟩
      obtain ⟨t,ht,hnm⟩ := mem_map.mp hm
      exact (hn' t ht).2 hnm
    · exact forall_mem_cons.mpr ⟨hs,fun t ht => (hn' t ht).1⟩
    · rw [map_cons,mem_cons]
      rcases hl with hl | hl
      · rw [mem_append,mem_singleton] at hl
        exact hl.imp id .inl
      · exact .inr (.inr hl)
    · simp [hsh]

lemma loadFile_runtime {err : Fault} (h : (loadFile store path).perform sh = (.error err,sh'))
  (hr : err.category = .runtime) :
  path ∉ sh.files ∧ ∃ pre last rest, (sectionsOf store path).items = pre ++ last :: rest ∧
    err = .repeatedSection last.name path ∧ (pre.map Section.name).Nodup ∧ last.name ∈ pre.map Section.name ∧
    sh' = ⟨last :: (pre.reverse ++ sh.sections),sh.files ++ pre.map fun _ => path⟩ := by
  rw [perform_loadFile] at h
  split at h
  · cases h
  rename_i hnw
  refine ⟨by simpa using hnw,?_⟩
  rcases addAll_error h with hf | ⟨pre,last,rest,hi,hf,hn,-,hl,hs⟩
  · rw [sectionsOf,Section.read,Section.fault_gather] at hf
    exact absurd hr (fault_lines hf)
  · exact ⟨pre,last,rest,hi,hf,hn,hl.resolve_left not_mem_nil,hs⟩

lemma pick_half_read {pre : List Section} {last : Section} {parts : Uri} (hn : Noted sh)
  (hnw : path ∉ sh.files) (hp : ∀ s ∈ pre, s.path = path) (hl : last.name ∈ pre.map Section.name) :
  ((last :: (pre.reverse ++ sh.sections)).filter (fits parts (some path))).getLast? =
    pre.find? (·.name == parts.fragment) := by
  have hol : sh.sections.filter (fits parts (some path)) = [] := by
    refine filter_eq_nil_iff.mpr fun s hs hft => ?_
    exact hnw (path_of_fits hft ▸ hn s hs)
  have hfl : pre.filter (fits parts (some path)) = pre.filter (·.name == parts.fragment) := by
    refine filter_congr fun s hs => ?_
    simp [fits,hp s hs]
  have hf : (pre.reverse.filter (fits parts (some path))).getLast? = pre.find? (·.name == parts.fragment) := by
    rw [filter_reverse,getLast?_reverse,hfl,head?_filter]
  rw [← singleton_append,filter_append,filter_append,hol,append_nil,getLast?_append,hf]
  cases hfn : pre.find? (·.name == parts.fragment) with
  | some s => rfl
  | none =>
    -- the section that is one too many has the name of one that was read before it
    have ho : fits parts (some path) last = false := by
      obtain ⟨s,hs,hnm⟩ := mem_map.mp hl
      have hne := find?_eq_none.mp hfn s hs
      rw [fits,← hnm,Bool.and_eq_false_iff]
      exact .inl (Bool.eq_false_iff.mpr hne)
    simp [ho]

theorem repeated_name_half_read (history : List (Store × Call)) {fault : Fault}
    (h : (loadFile store path).perform (afterAll history {}) = (.error fault, shelf'))
    (hruntime : fault.category = .runtime) :
    ∃ before last rest, (sectionsOf store path).items = before ++ last :: rest ∧
      fault = .repeatedSection last.name path ∧ (before.map Section.name).Nodup ∧
      last.name ∈ before.map Section.name ∧
      shelf'.sections = last :: (before.reverse ++ (afterAll history {}).sections) ∧
      shelf'.files = (afterAll history {}).files ++ before.map (fun _ => path) ∧
      shelf'.sections ≠ (afterAll history {}).sections ∧
      shelf'.files ≠ (afterAll history {}).files ∧
      ∀ (store' : Store) (uri : String) (parts : Uri) (base : Option String),
        Uri.parse (slashed uri) = .ok parts →
        fileOf store' parts base = .ok (some path) → (find store' (some uri) base).perform shelf' =
          ((before.find? (·.name == parts.fragment)).elim
            (.error (.noSection uri parts.quoted s!"file \"{path}\"")) .ok, shelf') := by
  obtain ⟨hnew, before, last, rest, hitems, hfault, hnodup, hlast, rfl⟩ := loadFile_runtime h hruntime
  have hpre : ∀ s ∈ before, s.path = path := by
    intro s hs
    have hread : s ∈ (sectionsOf store path).items := by
      rw [hitems]
      exact mem_append_left _ hs
    exact path_of_mem hread
  have hsome : before ≠ [] := by
    rintro rfl
    cases hlast
  have hnoted := noted_afterAll history
  generalize afterAll history {} = shelf at *
  refine ⟨before, last, rest, hitems, hfault, hnodup, hlast, rfl, rfl, ?_, ?_, ?_⟩
  · intro heq
    have hlength := congrArg List.length heq
    simp only [length_cons, length_append] at hlength
    omega
  · simpa using hsome
  · intro store' uri parts base hparts hfile
    have hload : path ∈ shelf.files ++ before.map fun _ => path := by
      obtain ⟨s, hs⟩ := exists_mem_of_ne_nil before hsome
      exact mem_append_right _ (mem_map.mpr ⟨s, hs, rfl⟩)
    have hfetch : Fetched store' (some path)
        ⟨last :: (before.reverse ++ shelf.sections), shelf.files ++ before.map fun _ => path⟩ _ :=
      loadFile_ok_iff.mpr (.inl ⟨hload, rfl⟩)
    rw [find_some, perform_ofExcept_bind hparts, perform_ofExcept_bind hfile,
      perform_bind (fetch_ok_iff.mpr hfetch), pick.eq_def, perform_get_bind,
      pick_half_read hnoted hnew hpre hlast]
    cases before.find? (·.name == parts.fragment) <;> rfl

section

def twice : Store := (Store.empty ["w"]).provide "a.md" (.text "# x\na\n# y\nb\n# x\nc\n# z\nd\n")

def mended : Store := (Store.empty ["w"]).provide "a.md" (.text "# x\nc\n# z\nd\n")

def halfRead : Shelf :=
  ⟨[⟨"/w/a.md","x",["c"]⟩,⟨"/w/a.md","y",["b"]⟩,⟨"/w/a.md","x",["a"]⟩],["/w/a.md","/w/a.md"]⟩

lemma loadFile_twice :
  (loadFile twice "/w/a.md").perform {} = (.error (.repeatedSection "x" "/w/a.md"),halfRead) := by
  have hi : (sectionsOf twice "/w/a.md").items = [⟨"/w/a.md","x",["a"]⟩,⟨"/w/a.md","y",["b"]⟩,
      ⟨"/w/a.md","x",["c"]⟩,⟨"/w/a.md","z",["d\n"]⟩] := by
    decide +kernel
  rw [perform_loadFile,hi]
  rfl

end

theorem repeated_name_half_read_at_mended :
    (loadFile twice "/w/a.md").perform (afterAll [] {}) =
      (.error (.repeatedSection "x" "/w/a.md"), halfRead) ∧
    (find mended (some "doc://./a.md#y") (some "d.h")).perform halfRead =
      (.ok ⟨"/w/a.md", "y", ["b"]⟩, halfRead) := by
  have hparts : Uri.parse (slashed "doc://./a.md#y") =
      .ok { scheme := "doc", authority := ".", path := "/a.md", fragment := "y" } :=
        ok_of_toOption (by decide +kernel)
  have hfile : fileOf mended
      { scheme := "doc", authority := ".", path := "/a.md", fragment := "y" } (some "d.h") =
      .ok (some "/w/a.md") := ok_of_toOption (by decide +kernel)
  obtain ⟨before, last, rest, -, -, -, -, hsections, -, -, -, hfind⟩ :=
    repeated_name_half_read [] loadFile_twice rfl
  have hpre : before = [⟨"/w/a.md", "x", ["a"]⟩, ⟨"/w/a.md", "y", ["b"]⟩] := by
    have hreverse : before.reverse ++ [] = [⟨"/w/a.md", "y", ["b"]⟩, ⟨"/w/a.md", "x", ["a"]⟩] :=
      (cons.inj hsections).2.symm
    rw [append_nil] at hreverse
    rw [← reverse_reverse before, hreverse]
    rfl
  have hfound := hfind mended _ _ _ hparts hfile
  rw [hpre] at hfound
  exact ⟨loadFile_twice, hfound⟩

theorem repeated_name_answered :
    (loadFile twice "/w/a.md").perform {} = (.error (.repeatedSection "x" "/w/a.md"), halfRead) ∧
    halfRead ≠ {} ∧
    ((find twice (some "doc://./a.md#x") (some "d.h")).perform halfRead).1.toOption =
      some ⟨"/w/a.md", "x", ["a"]⟩ :=
  ⟨loadFile_twice, by decide, by decide +kernel⟩

end Shelf

end Docweave
