import Docweave.Proofs.Layout.DrawnComments

namespace Docweave

open List

namespace Text

variable {list : List (List Char)} {w : Int} {chunk ind : List Char} {fuel : Nat} {start : String}

def letters (cs : List Char) : List Char := cs.filter (!isBlank ·)

@[simp] lemma letters_append (a b : List Char) : letters (a ++ b) = letters a ++ letters b :=
  filter_append ..

@[simp] lemma letters_nil : letters [] = [] := rfl

lemma letters_flatMap {α : Type} (f : α → List Char) (xs : List α) :
    letters (xs.flatMap f) = xs.flatMap fun x => letters (f x) := filter_flatMap

lemma letters_of_blank {cs : List Char} (h : cs.all isBlank) : letters cs = [] := by
  rw [letters,filter_eq_nil_iff]
  intro c hc
  simp [all_eq_true.mp h c hc]

lemma letters_replicate_space (n : Nat) : letters (replicate n ' ') = [] :=
  letters_of_blank (all_eq_true.mpr fun c hc => by rw [(mem_replicate.mp hc).2]; decide)

lemma isBlank_of_isBreakable {c : Char} (h : isBreakable c) : isBlank c := by
  simp only [isBreakable,inRanges] at h
  simp only [isBlank,inRanges]
  grind

lemma letters_expandTabsFrom (size col : Nat) (cs : List Char) :
  letters (expandTabsFrom size col cs) = letters cs := by
  fun_induction expandTabsFrom size col cs with
  | case1 => rfl
  | case2 col rest w ih =>
    rw [letters_append,letters_replicate_space,ih]
    rfl
  | case3 col c rest hc ih =>
    rw [letters,filter_cons,← letters,ih,letters,letters,filter_cons]

lemma letters_smooth (cs : List Char) : letters (smooth cs) = letters cs := by
  rw [smooth,← letters_expandTabsFrom 8 0 cs]
  generalize expandTabsFrom 8 0 cs = ds
  induction ds with
  | nil => rfl
  | cons d ds ih =>
    rw [map_cons,letters,letters,filter_cons,filter_cons,← letters,← letters,ih]
    split <;> rename_i hd
    · have hb := isBlank_of_isBreakable hd
      simp [hb]
      decide
    · rfl

def weight : List (List Char) → Nat
  | [] => 0
  | chunk :: rest => chunk.length + 1 + weight rest

lemma foldl_weight (list : List (List Char)) (n : Nat) :
  list.foldl (fun n c => n + c.length + 1) n = n + weight list := by
  induction list generalizing n with
  | nil => rfl
  | cons chunk rest ih =>
    rw [foldl_cons,ih,weight]
    omega

lemma weight_fitting (w : Int) (used : Nat) (list : List (List Char)) :
  weight (fitting w used list).1 + weight (fitting w used list).2.2 = weight list := by
  induction list generalizing used with
  | nil => rfl
  | cons chunk rest ih =>
    rw [fitting]
    split
    · have hr := ih (used + chunk.length)
      generalize fitting w (used + chunk.length) rest = taken at hr ⊢
      obtain ⟨line,used',left⟩ := taken
      simp only [weight] at hr ⊢
      omega
    · exact Nat.zero_add _

lemma breakAt_pos (w : Int) (chunk : List Char) : 1 ≤ breakAt w 0 chunk := by
  have hr : 1 ≤ (if w < 1 then 1 else (w - (0 : Nat)).toNat) := by
    split <;> omega
  rw [breakAt]
  generalize (if w < 1 then 1 else (w - (0 : Nat)).toNat) = room at hr ⊢
  split
  · exact hr
  cases hb : hyphenBreak? chunk room with
  | none => exact hr
  | some cut =>
    rw [hyphenBreak?] at hb
    split at hb
    · cases hb
    rename_i hc
    cases hb
    rw [Bool.or_eq_true,decide_eq_true_eq] at hc
    rw [Option.getD_some]
    omega

lemma weight_fillLine_lt (hr : 1 ≤ w ∨ ∀ c ∈ list.head?, c ≠ []) (hne : list ≠ []) :
  weight (fillLine w list).2 < weight list := by
  obtain ⟨chunk,rest,rfl⟩ := exists_cons_of_ne_nil hne
  have ht := weight_fitting w 0 (chunk :: rest)
  by_cases hf : ((0 : Nat) + chunk.length : Int) ≤ w
  · have hl : chunk.length < weight (fitting w 0 (chunk :: rest)).1 := by
      rw [fitting,if_pos hf]
      simp only [weight]
      omega
    rw [fillLine]
    generalize fitting w 0 (chunk :: rest) = taken at ht hl
    obtain ⟨line,used,left⟩ := taken
    cases left with
    | nil =>
      simp only [weight] at ht hl ⊢
      omega
    | cons next left =>
      simp only [weight] at ht hl ⊢
      split
      · simp only [weight,length_drop]
        omega
      · simp only [weight]
        omega
  have hln : w < chunk.length := by omega
  have hp : 1 ≤ chunk.length := hr.elim (by omega) fun h => length_pos_iff.mpr (h chunk rfl)
  have hc := breakAt_pos w chunk
  rw [fillLine,fitting,if_neg hf]
  simp only
  rw [if_pos hln]
  simp only [weight,length_drop]
  omega

lemma fitting_suffix (w : Int) (used : Nat) (list : List (List Char)) : (fitting w used list).2.2 <:+ list := by
  induction list generalizing used with
  | nil => exact suffix_refl _
  | cons chunk rest ih =>
    rw [fitting]
    split
    · exact (ih _).trans (suffix_cons _ _)
    · exact suffix_refl _

lemma tail_fillLine (w : Int) (list : List (List Char)) : (fillLine w list).2.tail ⊆ list.tail := by
  have hs := fitting_suffix w 0 list
  rw [fillLine]
  generalize fitting w 0 list = taken at hs
  obtain ⟨line,used,left⟩ := taken
  cases left with
  | nil => exact nil_subset _
  | cons chunk rest =>
    have hr : rest ⊆ list.tail := by
      obtain ⟨front,rfl⟩ := hs
      cases front <;> simp
    dsimp only
    split <;> exact hr

lemma letters_dropBlankStart (list : List (List Char)) :
  letters (dropBlankStart list).flatten = letters list.flatten := by
  cases list with
  | nil => rfl
  | cons chunk rest =>
    rw [dropBlankStart]
    split
    · rename_i hb
      rw [flatten_cons,letters_append,letters_of_blank hb,nil_append]
    · rfl

lemma weight_dropBlankStart_le (list : List (List Char)) : weight (dropBlankStart list) ≤ weight list := by
  cases list with
  | nil => exact le_rfl
  | cons chunk rest =>
    rw [dropBlankStart]
    split
    · simp only [weight]
      omega
    · exact le_rfl

def indented (indent : List Char) : Bool → List (List Char) → List (List Char)
  | true, body :: bodies => body :: bodies.map (indent ++ ·)
  | _, bodies => bodies.map (indent ++ ·)

lemma fillFrom_bodies (hwd : 1 ≤ w) {isFirst : Bool} (hw : ∀ c ∈ list.tail, c ≠ []) (hf : weight list < fuel) :
  ∃ bodies, fillFrom w ind fuel isFirst list = indented ind isFirst bodies ∧
    letters bodies.flatten = letters list.flatten := by
  induction fuel generalizing isFirst list with
  | zero => omega
  | succ fuel ih =>
    cases list with
    | nil => exact ⟨[],by cases isFirst <;> rfl,rfl⟩
    | cons chunk rest =>
      rw [fillFrom.eq_3 _ _ _ _ _ (cons_ne_nil _ _)]
      have hst : letters (if isFirst then chunk :: rest else dropBlankStart (chunk :: rest)).flatten =
          letters (chunk :: rest).flatten ∧
          weight (if isFirst then chunk :: rest else dropBlankStart (chunk :: rest)) ≤ weight (chunk :: rest) ∧
          (∀ c ∈ (if isFirst then chunk :: rest else dropBlankStart (chunk :: rest)).tail, c ≠ []) ∧
          (1 ≤ w - (if isFirst then [] else ind).length ∨
            ∀ c ∈ (if isFirst then chunk :: rest else dropBlankStart (chunk :: rest)).head?, c ≠ []) := by
        split
        · exact ⟨rfl,le_rfl,hw,.inl (by simpa using hwd)⟩
        refine ⟨letters_dropBlankStart _,weight_dropBlankStart_le _,?_⟩
        rw [dropBlankStart]
        split
        · exact ⟨fun c hc => hw c (mem_of_mem_tail hc),.inr fun c hc => hw c (mem_of_mem_head? hc)⟩
        · next hbl => exact ⟨hw,.inr fun c hc hn => hbl (by cases hc; rw [hn]; rfl)⟩
      generalize (if isFirst then chunk :: rest else dropBlankStart (chunk :: rest)) = list at hst ⊢
      obtain ⟨hs,hle,hw,hr⟩ := hst
      rw [← hs]
      dsimp only
      generalize w - (if isFirst then [] else ind).length = room at hr ⊢
      have hl : weight (fillLine room list).2 < fuel := by
        by_cases hne : list = []
        · subst hne
          simp [fillLine,fitting,weight] at hf ⊢
          omega
        · have hls := weight_fillLine_lt hr hne
          omega
      have hsp := flatten_fillLine room list
      replace hw : ∀ c ∈ (fillLine room list).2.tail, c ≠ [] := fun c hc => hw c (tail_fillLine room list hc)
      generalize fillLine room list = filled at hsp hl hw ⊢
      obtain ⟨line,left⟩ := filled
      obtain ⟨b,hb,hbl⟩ := dropBlankEnd_split line
      have hlt : letters list.flatten = letters (dropBlankEnd line).flatten ++ letters left.flatten := by
        rw [← hsp,hb]
        simp [letters_of_blank hbl]
      split
      · rename_i he
        obtain ⟨bodies,hbd,hs⟩ := @ih left isFirst hw hl
        refine ⟨bodies,hbd,?_⟩
        rw [hs,hlt,List.isEmpty_iff.mp he]
        rfl
      obtain ⟨bodies,hbd,hs⟩ := @ih left false hw hl
      refine ⟨(dropBlankEnd line).flatten :: bodies,?_,?_⟩
      · rw [hbd]
        cases isFirst <;> rfl
      · rw [flatten_cons,letters_append,hs,hlt]

section

open Pattern

variable {c c' : Cursor} {y x : Char} {rest pre tail mark : List Char} {next : Following}

def wordStop : Pattern :=
  (lit "-" ++ (behind [isLetter,isLetter,isHyphen] ||| behind [isLetter,isHyphen,isLetter,isHyphen])
      ++ ahead (one isLetter ++ optional (lit "-") ++ one isLetter))
    ||| ahead (one isBreakable ||| textEnd)
    ||| (behind [isWordEnd] ++ ahead dash)

lemma chunkPattern_eq : chunkPattern = many1 isBreakable
    ||| (behind [isWordEnd] ++ .run true isHyphen 2 none ++ ahead (one isWord))
    ||| (fewest (fun c => !isBreakable c) 1 ++ wordStop) := rfl

structure IsSign (c : Char) : Prop where
  noBlank : isBlank c = false
  noHyphen : isHyphen c = false
  noEnd : isWordEnd c = false

lemma IsSign.unbroken {c : Char} (h : IsSign c) : isBreakable c = false := by
  refine Bool.eq_false_iff.mpr fun hb => ?_
  exact Bool.false_ne_true (h.noBlank.symm.trans (isBlank_of_isBreakable hb))

lemma take?_hyphen (hr : c.rest = y :: rest) (hy : isHyphen y = false) : c.take? ['-'] = none := by
  refine Cursor.take?_eq_none _ c fun hs => ?_
  rw [hr] at hs
  obtain ⟨rfl,-⟩ := cons_prefix_cons.mp hs
  exact Bool.false_ne_true (hy.symm.trans (by decide))

lemma IsSign.not_stop (hx : IsSign x) (hy : IsSign y) (hp : c.before = x :: pre)
  (hr : c.rest = y :: rest) : wordStop.meet c next = none := by
  have hb : precededBy [isWordEnd] c.before = false := by
    simp [precededBy,hp,hx.noEnd]
  simp [wordStop,meet_or,meet_append,meet_lit,take?_hyphen hr hy.noHyphen,meet,hr,hy.unbroken,hb]

lemma stop_before_space (hr : c.rest = ' ' :: rest) (hn : next c = some c') :
    wordStop.meet c next = some c' := by
  have hs : isBreakable ' ' := by decide
  have hh := take?_hyphen hr (by decide)
  have ha : (one isBreakable ||| textEnd).meet c some = some (c.advance ' ' rest) := by
    simp [meet_or,meet,hr,hs]
  simp [wordStop,meet_or,meet_append,meet_lit,hh]
  rw [meet,ha]
  simp [Cursor.advance,hn]

lemma runLazy_signs (hx : IsSign x) (hm : ∀ y ∈ mark, IsSign y) (hp : c.before = x :: pre)
  (hr : c.rest = mark ++ ' ' :: tail) (hn : next (c.skip mark (' ' :: tail)) = some c') :
  runLazy (fun c => !isBreakable c) (fun d => wordStop.meet d next) 0 none c.rest c = some c' := by
  induction mark generalizing c x pre with
  | nil =>
    have hs : c.skip [] (' ' :: tail) = c := by
      rw [← nil_append (' ' :: tail),← hr]
      rfl
    rw [hs] at hn
    rw [hr,nil_append,runLazy,if_pos rfl,stop_before_space hr hn]
  | cons y mark ih =>
    obtain ⟨hy,hm⟩ := forall_mem_cons.mp hm
    rw [hr,cons_append,runLazy,if_pos rfl,hx.not_stop hy hp hr]
    rw [if_pos ⟨by simp,by simp [hy.unbroken]⟩]
    exact ih hy hm rfl rfl (by rwa [Cursor.skip_cons _ _ _ (mark ++ ' ' :: tail)])

lemma chunk_of_signs (hne : mark ≠ []) (hm : ∀ y ∈ mark, IsSign y) (hr : c.rest = mark ++ ' ' :: tail)
  (hn : next (c.skip mark (' ' :: tail)) = some c') : chunkPattern.meet c next = some c' := by
  obtain ⟨x,mark,rfl⟩ := exists_cons_of_ne_nil hne
  obtain ⟨hx,hm⟩ := forall_mem_cons.mp hm
  rw [← Cursor.skip_cons c x mark (mark ++ ' ' :: tail)] at hn
  have hw := runLazy_signs hx hm (c := c.advance x (mark ++ ' ' :: tail)) rfl rfl hn
  have hb (q : Following) : runGreedy isBreakable q 1 none c.rest c = none := by
    simp [hr,runGreedy,hx.unbroken]
  have hd (q : Following) : runGreedy isHyphen q 2 none c.rest c = none := by
    simp [hr,runGreedy,hx.noHyphen]
  have hl : runLazy (fun c => !isBreakable c) (fun d => wordStop.meet d next) 1 none c.rest c = some c' := by
    rw [hr,cons_append,runLazy,if_neg Nat.one_ne_zero]
    rw [if_pos ⟨by simp,by simp [hx.unbroken]⟩]
    exact hw
  rw [chunkPattern_eq]
  simp [meet_or,meet_append,many1,fewest,meet,hb,hd,hl]

lemma chunk_of_spaces {n : Nat} (hx : isBreakable x = false) (hr : c.rest = replicate (n + 1) ' ' ++ x :: tail)
  (hn : next (c.skip (replicate (n + 1) ' ') (x :: tail)) = some c') : chunkPattern.meet c next = some c' := by
  have hs : ∀ d ∈ replicate (n + 1) ' ', isBreakable d := by
    intro d hd
    rw [eq_of_mem_replicate hd]
    decide
  have ht : c.rest.takeWhile isBreakable = replicate (n + 1) ' ' := by
    rw [hr,takeWhile_append_of_pos hs,takeWhile_cons_of_neg (by simp [hx]),append_nil]
  have hdr : c.rest.dropWhile isBreakable = x :: tail := by
    rw [hr,dropWhile_append_of_pos hs,dropWhile_cons_of_neg (by simp [hx])]
  have hrn : runGreedy isBreakable next 1 none c.rest c = some c' :=
    runGreedy_longest rfl (by simp [ht]) (by rwa [ht,hdr])
  rw [chunkPattern_eq,meet_or,meet_or,many1,meet,hrn]
  rfl

structure Takes (p : Pattern) (xs rest : List Char) (c : Cursor) : Prop where
  next : c.rest = xs ++ rest
  some_taken : xs ≠ []
  meet : ∀ (next : Following) (c' : Cursor), next (c.skip xs rest) = some c' → p.meet c next = some c'

def chunksFrom (cs : List Char) (fuel : Nat) (moving : Bool) (c : Cursor) : List (List Char) :=
  (interleave (gaps cs c.before.length (chunkPattern.findFrom fuel moving c))
    ((chunkPattern.findFrom fuel moving c).map Found.matched)).filter (!·.isEmpty)

lemma chunksFrom_taken (cs : List Char) (fuel : Nat) (moving : Bool) {xs : List Char}
  (h : Takes chunkPattern xs rest c) : ∃ d : Cursor, d.rest = rest ∧ d.before = xs.reverse ++ c.before ∧
    chunksFrom cs (fuel + 1) moving c = xs :: chunksFrom cs fuel false d := by
  have hf : chunkPattern.foundAt moving c = some ⟨c.before.reverse,xs,rest,c.captures⟩ := by
    have hm := h.meet (fun d => if moving && d.offset == c.offset then none else some d)
      (c.skip xs rest) (by simp [Cursor.skip,h.some_taken])
    rw [foundAt,hm]
    simp [Found.between,Cursor.skip]
  have hs : chunkPattern.searchFrom moving c.rest c = some ⟨c.before.reverse,xs,rest,c.captures⟩ := by
    cases hr : c.rest <;> rw [searchFrom,hf]
  have hst : Found.stop ⟨c.before.reverse,xs,rest,c.captures⟩ =
      (resume ⟨c.before.reverse,xs,rest,c.captures⟩).before.length := by
    simp [resume,Found.stop]
    omega
  refine ⟨resume ⟨c.before.reverse,xs,rest,c.captures⟩,rfl,by simp [resume],?_⟩
  rw [chunksFrom,findFrom,hs]
  simp only [map_cons,gaps,interleave,hst]
  rw [drop_eq_nil_of_le (by simp),filter_cons_of_neg (by simp),
    filter_cons_of_pos (by simpa using h.some_taken),isEmpty_eq_false_iff.mpr h.some_taken]
  rfl

lemma chunks_marked {k : Nat} (hne : mark ≠ []) (hm : ∀ y ∈ mark, IsSign y) :
  ∃ lead more, chunks (replicate k ' ' ++ (mark ++ ' ' :: tail)) = lead ++ mark :: more ∧
    lead.flatten = replicate k ' ' := by
  have hs (c : Cursor) (hr : c.rest = mark ++ ' ' :: tail) : Takes chunkPattern mark (' ' :: tail) c :=
    ⟨hr,hne,fun _ _ hn => chunk_of_signs hne hm hr hn⟩
  generalize hcs : replicate k ' ' ++ (mark ++ ' ' :: tail) = cs
  cases k with
  | zero =>
    obtain ⟨d,-,-,hc⟩ := chunksFrom_taken cs (2 * cs.length + 1) false (hs (Cursor.start cs) hcs.symm)
    exact ⟨[],_,hc,rfl⟩
  | succ k =>
    obtain ⟨x,mark',rfl⟩ := exists_cons_of_ne_nil hne
    have hx := (hm x mem_cons_self).unbroken
    have hsp : Takes chunkPattern (replicate (k + 1) ' ') (x :: mark' ++ ' ' :: tail) (Cursor.start cs) :=
      ⟨hcs.symm,by simp,fun _ _ hn => chunk_of_spaces hx hcs.symm hn⟩
    obtain ⟨d,hr,-,hc⟩ := chunksFrom_taken cs (2 * cs.length + 1) false hsp
    obtain ⟨_,-,-,hmr⟩ := chunksFrom_taken cs (2 * cs.length) false (hs d hr)
    rw [hmr] at hc
    exact ⟨[replicate (k + 1) ' '],_,hc,by simp⟩

end

lemma fitting_append {used : Nat} (list more : List (List Char)) (h : (used + list.flatten.length : Int) ≤ w) :
  fitting w used (list ++ more) = Prod.map (list ++ ·) id (fitting w (used + list.flatten.length) more) := by
  induction list generalizing used with
  | nil => rfl
  | cons chunk list ih =>
    rw [flatten_cons,length_append] at h ⊢
    rw [cons_append,fitting,if_pos (by omega),@ih (used + chunk.length) (by omega),Nat.add_assoc]
    rfl

lemma mem_dropBlankEnd {line : List (List Char)} (hc : chunk ∈ line) (hb : isBlankChunk chunk = false) :
  chunk ∈ dropBlankEnd line := by
  rw [dropBlankEnd]
  cases hl : line.getLast? with
  | none => exact hc
  | some last =>
    obtain ⟨init,rfl⟩ := getLast?_eq_some_iff.mp hl
    dsimp only
    split
    · rename_i hlastBlank
      rw [dropLast_concat]
      refine (mem_append.mp hc).resolve_right fun hm => ?_
      rw [mem_singleton.mp hm,hlastBlank] at hb
      cases hb
    · exact hc

lemma mem_fillLine (h : chunk ∈ (fitting w 0 list).1) : chunk ∈ (fillLine w list).1 := by
  rw [fillLine]
  generalize fitting w 0 list = taken at h
  obtain ⟨line,used,left⟩ := taken
  cases left with
  | nil => exact h
  | cons next left =>
    dsimp only
    split
    · exact mem_append_left _ h
    · exact h

lemma fillFrom_starts {lead more : List (List Char)} {mark : List Char} (hbl : isBlankChunk mark = false)
  (hf : (lead.flatten.length + mark.length : Int) ≤ w) :
  ∃ first rest, fillFrom w ind (fuel + 1) true (lead ++ mark :: more) = first :: rest ∧
    first <+: (lead ++ mark :: more).flatten := by
  have hl := @fitting_append w 0 (lead ++ [mark]) more (by
    rw [flatten_append,flatten_singleton,length_append]
    omega)
  rw [append_assoc,singleton_append] at hl
  have hm : mark ∈ (fillLine w (lead ++ mark :: more)).1 :=
    mem_fillLine (by rw [hl]; simp)
  have hk := mem_dropBlankEnd hm hbl
  have hs := flatten_fillLine w (lead ++ mark :: more)
  rw [fillFrom.eq_3 _ _ _ _ _ (by simp)]
  simp only [if_true,length_nil,Int.ofNat_zero,Int.sub_zero]
  generalize fillLine w (lead ++ mark :: more) = filled at hs hk ⊢
  obtain ⟨line,left⟩ := filled
  obtain ⟨b,hb,-⟩ := dropBlankEnd_split line
  rw [if_neg (by rw [List.isEmpty_iff]; exact ne_nil_of_mem hk)]
  refine ⟨_,_,rfl,?_⟩
  rw [← hs,hb,append_assoc]
  exact prefix_append _ _

lemma fill_bodies (ind text : String) (hwd : 0 < w) :
  ∃ bodies, fill w ind text = .ok ((indented ind.toList true bodies).map String.ofList) ∧
    letters bodies.flatten = letters text.toList := by
  have hf : weight (chunks (smooth text.toList)) <
      (chunks (smooth text.toList)).foldl (fun n c => n + c.length + 1) 1 := by
    rw [foldl_weight]
    omega
  have hw : ∀ c ∈ (chunks (smooth text.toList)).tail, c ≠ [] := fun c hc => by
    simpa using (mem_filter.mp (mem_of_mem_tail hc)).2
  obtain ⟨bodies,hb,hl⟩ := @fillFrom_bodies _ w ind.toList _ hwd true hw hf
  refine ⟨bodies,?_,?_⟩
  · rw [fill,if_neg (by omega)]
    dsimp only
    rw [hb]
  · rw [hl,flatten_chunks,letters_smooth]

lemma fill_oneLine {ind text : String} {ls : List String} (hi : '\n' ∉ ind.toList)
  (h : fill w ind text = .ok ls) : ∀ line ∈ ls, '\n' ∉ line.toList := by
  intro line hl hf
  rcases Tree.mem_fill h line hl _ hf with hf | hf
  · exact hi hf
  obtain ⟨c,-,hc⟩ := mem_map.mp hf
  split at hc
  · exact absurd hc (by decide)
  · rename_i hb
    rw [hc] at hb
    exact hb (by decide)

def IsLeader (start : String) : Prop :=
  ∃ k mark, mark ≠ [] ∧ (∀ y ∈ mark, IsSign y) ∧ start.toList = replicate k ' ' ++ (mark ++ [' '])

lemma IsLeader.oneLine (h : IsLeader start) : '\n' ∉ start.toList := by
  obtain ⟨k,mark,-,hmr,hs⟩ := h
  simp only [hs,mem_append]
  rintro (hm | hm | hm)
  · exact absurd (eq_of_mem_replicate hm) (by decide)
  · exact absurd (hmr _ hm).noBlank (by decide)
  · exact absurd hm (by decide)

lemma IsLeader.smooth (h : IsLeader start) (text : String) :
  ∃ tail, Text.smooth (start ++ text).toList = start.toList ++ tail := by
  obtain ⟨k,mark,-,hm,hs⟩ := h
  have hch : ∀ c ∈ start.toList, c = ' ' ∨ isBreakable c = false := by
    intro c hc
    simp only [hs,mem_append,mem_singleton] at hc
    rcases hc with hc | hc | hc
    · exact .inl (eq_of_mem_replicate hc)
    · exact .inr (hm c hc).unbroken
    · exact .inl hc
  rw [String.toList_append]
  refine smooth_append (fun ht => ?_) (fun c hc hb => ?_) text.toList
  · rcases hch _ ht with ht | ht
    · exact absurd ht (by decide)
    · exact absurd ht (by decide)
  · exact (hch c hc).resolve_right (by simp [hb])

lemma IsLeader.fill_first (h : IsLeader start) (ind text : String) (hw : (start.length : Int) < w) :
  ∃ first rest, fill w ind (start ++ text) = .ok (first :: rest) ∧
    (start.length ≤ first.length → start.toList <+: first.toList) := by
  obtain ⟨tail,hs⟩ := h.smooth text
  obtain ⟨k,mark,hne,hm,hsr⟩ := h
  have hln : start.length = k + mark.length + 1 := by
    rw [← String.length_toList,hsr]
    simp
    omega
  obtain ⟨lead,more,hc,hld⟩ := @chunks_marked tail mark k hne hm
  have hl : chunks (Text.smooth (start ++ text).toList) = lead ++ mark :: more := by
    rw [hs,hsr,← hc]
    simp
  have hb : isBlankChunk mark = false := by
    obtain ⟨x,mark,rfl⟩ := exists_cons_of_ne_nil hne
    simp [isBlankChunk,(hm x mem_cons_self).noBlank]
  have hft : (lead.flatten.length + mark.length : Int) ≤ w := by
    rw [hld,length_replicate]
    omega
  have hf : ∃ fuel, (lead ++ mark :: more).foldl (fun n c => n + c.length + 1) 1 = fuel + 1 :=
    ⟨weight (lead ++ mark :: more),by rw [foldl_weight]; omega⟩
  obtain ⟨fuel,hf⟩ := hf
  obtain ⟨first,rest,hfl,hst⟩ := @fillFrom_starts w ind.toList fuel lead more mark hb hft
  refine ⟨String.ofList first,rest.map String.ofList,?_,fun hlg => ?_⟩
  · rw [fill,if_neg (by omega)]
    dsimp only
    rw [hl,hf,hfl]
    rfl
  · rw [← hl,flatten_chunks,hs] at hst
    rw [String.toList_ofList]
    refine prefix_of_prefix_length_le (prefix_append _ _) hst ?_
    rwa [String.length_toList,← @String.length_ofList first]

end Text

end Docweave
