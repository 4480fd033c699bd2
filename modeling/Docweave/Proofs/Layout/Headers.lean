import Docweave.Proofs.Layout.BlockRows
import Docweave.Proofs.Layout.Leaders

namespace Docweave

open List
open String (ofList join length_ofList)

namespace Text

variable {wd : Int} {cs : List Char}

lemma length_expandTabsFrom (col : Nat) (cs : List Char) : cs.length ≤ (expandTabsFrom 8 col cs).length := by
  fun_induction expandTabsFrom 8 col cs with
  | case1 => exact le_rfl
  | case2 col rest wd ih =>
    have hw : 1 ≤ wd := by
      have := Nat.mod_lt col (by decide : 0 < 8)
      simp only [wd]
      split <;> omega
    rw [length_cons,length_append,length_replicate]
    omega
  | case3 col c rest hc ih =>
    rw [length_cons,length_cons]
    omega

lemma getLast?_expandTabsFrom {c : Char} (hc : c ≠ '\t') (col : Nat) (cs : List Char) :
  (expandTabsFrom 8 col (cs ++ [c])).getLast? = some c := by
  fun_induction expandTabsFrom 8 col cs with
  | case1 col => rw [nil_append,expandTabsFrom.eq_3 _ _ _ _ (fun h => hc h),expandTabsFrom]; rfl
  | case2 col rest wd ih =>
    rw [cons_append,expandTabsFrom,getLast?_append,ih]
    rfl
  | case3 col d rest hd ih =>
    rw [cons_append,expandTabsFrom.eq_3 _ _ _ _ hd,getLast?_cons,ih]
    rfl

lemma getLast?_smooth {c : Char} (h : cs.getLast? = some c) (hc : isBlank c = false) :
    (smooth cs).getLast? = some c := by
  obtain ⟨init,rfl⟩ := getLast?_eq_some_iff.mp h
  have hb : isBreakable c = false := by
    by_contra hb
    exact Bool.false_ne_true (hc.symm.trans (isBlank_of_isBreakable (by simpa using hb)))
  rw [smooth,getLast?_map,getLast?_expandTabsFrom (by rintro rfl; exact absurd hc (by decide))]
  simp [hb]

lemma fillLine_all {list : List (List Char)} (h : (list.flatten.length : Int) ≤ wd) :
  fillLine wd list = (list,[]) := by
  have hl := @fitting_append wd 0 list [] (by omega)
  rw [append_nil] at hl
  rw [fillLine,hl]
  simp [fitting]

lemma length_head_fillFrom {ind : List Char} {fuel : Nat} {list : List (List Char)} (hw : 0 < wd) :
  ∀ line ∈ (fillFrom wd ind fuel true list).head?, (line.length : Int) ≤ wd := by
  induction fuel generalizing list with
  | zero => rintro line ⟨⟩
  | succ fuel ih =>
    cases list with
    | nil => rintro line ⟨⟩
    | cons chunk rest =>
      rw [fillFrom.eq_3 _ _ _ _ _ (cons_ne_nil _ _)]
      have hl := length_fillLine_le wd (chunk :: rest)
      simp only [if_true,length_nil,Nat.cast_zero,sub_zero,nil_append]
      generalize fillLine wd (chunk :: rest) = filled at hl
      obtain ⟨line,left⟩ := filled
      obtain ⟨b,hb,-⟩ := dropBlankEnd_split line
      dsimp only at hl ⊢
      split
      · exact ih
      · rintro _ ⟨⟩
        rw [hb,length_append] at hl
        omega

lemma fill_oneLine_iff {ind text : String} {c : Char} (hwd : 0 < wd) (hls : text.toList.getLast? = some c)
  (hc : isBlank c = false) : fill wd ind text = .ok [ofList (smooth text.toList)] ↔
    ((smooth text.toList).length : Int) ≤ wd := by
  rw [fill,if_neg (by omega)]
  constructor
  · intro h
    have hl := Except.ok.inj h
    generalize chunks (smooth text.toList) = list at hl
    have hh := @length_head_fillFrom wd ind.toList (list.foldl (fun n c => n + c.length + 1) 1) list hwd
    generalize fillFrom wd ind.toList (list.foldl (fun n c => n + c.length + 1) 1) true list = ls at hl hh
    obtain ⟨line,rfl,hln⟩ := map_eq_singleton_iff.mp hl
    rw [← String.ofList_inj.mp hln]
    exact hh line rfl
  · intro h
    have hf := flatten_chunks (smooth text.toList)
    have hw : ∀ d ∈ chunks (smooth text.toList), d ≠ [] := fun d hd => by simpa using (mem_filter.mp hd).2
    have he := getLast?_smooth hls hc
    generalize chunks (smooth text.toList) = list at hf hw
    rw [← hf] at h he ⊢
    obtain ⟨init,d,rfl⟩ : ∃ init d, list = init ++ [d] := by
      rcases eq_nil_or_concat' list with rfl | hs
      · cases he
      · exact hs
    have hb : isBlankChunk d = false := by
      have hd : d.getLast? = some c := by
        rw [flatten_append,flatten_singleton,getLast?_append_of_ne_nil _ (hw d (by simp))] at he
        exact he
      rw [isBlankChunk,all_eq_false]
      exact ⟨c,mem_of_getLast? hd,by simp [hc]⟩
    have hk : dropBlankEnd (init ++ [d]) = init ++ [d] := by
      rw [dropBlankEnd,getLast?_concat]
      simp [hb]
    obtain ⟨fuel,hfl⟩ : ∃ fuel, (init ++ [d]).foldl (fun n c => n + c.length + 1) 1 = fuel + 1 :=
      ⟨_,(foldl_concat _ _ _ _).trans rfl⟩
    dsimp only
    rw [hfl,fillFrom.eq_3 _ _ _ _ _ (by simp)]
    simp only [if_true,length_nil,Nat.cast_zero,sub_zero,nil_append,fillLine_all h,hk]
    rw [if_neg (by simp)]
    cases fuel <;> rfl

end Text

namespace Tree

open Element Text

variable {w : Nat} {k : Nat} {tree e h : Element}

mutual

def spoken : Element → List String
  | ⟨tag,attributes,text,after,children⟩ =>
    let e : Element := ⟨tag,attributes,text,after,children⟩
    (e.attribute? "wrap").toList ++ text.toList.map collapse ++ spokenAll children ++
      (e.attribute? "wrap").toList

def spokenAll : List Element → List String
  | [] => []
  | e :: es => spoken e ++ spokenAll es

end

lemma spoken_eq (e : Element) : spoken e = (e.attribute? "wrap").toList ++ e.text.toList.map collapse ++
  spokenAll e.children ++ (e.attribute? "wrap").toList := by
  cases e
  rw [spoken]

lemma childStrokes_spans {es : List Element} (count index : Nat) (last : Option String)
  (hes : ∀ c ∈ es, Throughout IsMarkdown c ∧ form? c = some .span ∧
    strokes w k c = (spoken c).map fun t => (k,.text t)) :
  childStrokes w k none count index last es = (spokenAll es).map fun t => (k,.text t) := by
  induction es generalizing index last with
  | nil => rw [childStrokes,spokenAll,map_nil]
  | cons c es ih =>
    obtain ⟨⟨hm,hf,hc⟩,hes⟩ := forall_mem_cons.mp hes
    obtain ⟨⟨-,f,hf',ha⟩,-⟩ := throughout_iff.mp hm
    obtain rfl : f = .span := Option.some.inj (hf'.symm.trans hf)
    have hi : inner k (none : Option Bool) = k := rfl
    rw [childStrokes,ih _ _ hes,spokenAll,map_append,framed,changeStrokes,if_neg (by simp [(form?_span hf).1]),
      endStrokes,ha.2.1,hi,hc]
    simp [markStrokes]

lemma strokes_span : ∀ e, Throughout IsMarkdown e → form? e = some .span →
  strokes w k e = (spoken e).map fun t => (k,.text t) := by
  refine Element.byChildren fun e ih he hs => ?_
  obtain ⟨⟨-,f,hf,ha⟩,hk⟩ := throughout_iff.mp he
  obtain rfl : f = .span := Option.some.inj (hf.symm.trans hs)
  obtain ⟨hl,-,hsp⟩ := ha
  obtain ⟨-,hsh,ho⟩ := form?_span hs
  rw [strokes_eq,spoken_eq,ho,ownStrokes_shown hsh,hashes,hl,childStrokes_spans,wrapStrokes]
  · simp
    rfl
  · exact fun c hc => ⟨hk c hc,hsp c hc,ih c hc (hk c hc) (hsp c hc)⟩

lemma strokes_header {s : String} (hh : Throughout IsMarkdown h) (hl : h.attribute? "level" = some s) :
  IsForm h ∧ strokes w k h = (hashes h ++ spoken h).map fun t => (k,.text t) := by
  obtain ⟨⟨-,f,hf,ha⟩,hk⟩ := throughout_iff.mp hh
  cases f with
  | span => cases ha.1.symm.trans hl
  | code => cases ha.2.2.1.symm.trans hl
  | list => cases ha.2.1.symm.trans hl
  | prose =>
    obtain ⟨hw,-,-,hon⟩ := ha
    obtain ⟨-,hv,ho⟩ := form?_other hf (by decide)
    have hs : h.has "verbatim" = false := by simpa using hv
    have hsp := hon.resolve_left (by rw [ownStrokes_shown hs,hashes,hl]; simp)
    refine ⟨.inl hf,?_⟩
    rw [strokes_eq,spoken_eq,show orderOf h = none by simpa using ho (by decide),ownStrokes_shown hs,
      childStrokes_spans,wrapStrokes,hw]
    · simp
      rfl
    · exact fun c hc => ⟨hk c hc,hsp c hc,strokes_span c (hk c hc) (hsp c hc)⟩

lemma firstLine_texts (k : Nat) (ts : List String) :
    (firstLine (ts.map fun t => (k,.text t))).flatMap markedOf = [] ∧
  (firstLine (ts.map fun t => (k,.text t))).flatMap saidOf = ts.map fun t => (k,t) := by
  induction ts with
  | nil => exact ⟨rfl,rfl⟩
  | cons t ts ih =>
    refine ⟨ih.1,?_⟩
    show (k,t) :: (firstLine (ts.map fun t => (k,.text t))).flatMap saidOf = _
    rw [ih.2]
    rfl

lemma header_row (ht : Throughout IsMarkdown tree) (hf : form? tree = some .prose) (hc : ¬ CodeInList tree)
  (hh : h ∈ tree :: tree.descendants) {s : String} (hl : h.attribute? "level" = some s) :
  ∃ r ∈ (pageOf w tree).rows, r.contents ≠ [] ∧ r.text w = r.lead w ++ join (hashes h ++ spoken h) := by
  obtain ⟨k,before,after,hsp,hp⟩ := @strokes_placed w tree ht 0 h hh
  obtain ⟨hb,hst⟩ := @strokes_header w k h s (throughout_below tree ht h hh) hl
  obtain ⟨he,hso⟩ := hp hb
  obtain ⟨s,s',hcr,-,hrw⟩ := row_of_stretch ht hf hc hsp hso
  obtain ⟨r,hr,outer,-,hm,hs⟩ := hrw (he.fresh hcr)
  rw [hst,(firstLine_texts k _).2] at hs
  refine ⟨r,hr,?_,?_⟩
  · rw [hs,hashes,hl]
    simp
  · rw [Row.text,hs,map_map]
    exact congrArg (r.lead w ++ join ·) (map_id _)

lemma settable_elements {p : Page} : ∀ x ∈ p.elements .final w, Settable x := by
  intro x hx
  rcases mem_append.mp hx with hx | hx
  · obtain ⟨line,-,hx⟩ := mem_flatMap.mp hx
    cases line with
    | row r =>
      obtain rfl := mem_singleton.mp hx
      exact settable_of_hanging rfl rfl
    | code t =>
      obtain ⟨l,-,rfl⟩ := mem_map.mp hx
      exact ⟨rfl,fun s hs => by cases hs⟩
  · split at hx
    · cases hx
    · obtain rfl := mem_singleton.mp hx
      exact settable_of_hanging rfl rfl

lemma parse?_hash (cs : List Char) : Command.parse? (ofList ('#' :: cs)) = none := by
  rw [Command.parse?,Rule.matchStart,String.toList_ofList]
  rfl

lemma join_hashes {s : String} {n : Int} (hl : h.attribute? "level" = some s) (hn : whole s = .ok n) :
  join (hashes h) = ofList (replicate n.toNat '#') ++ " " := by
  have hm (m : Nat) : join (replicate m "#") = ofList (replicate m '#') := by
    induction m with
    | zero => rfl
    | succ m ih =>
      rw [replicate_succ,String.join_cons,ih,← String.toList_inj]
      simp [replicate_succ]
  rw [hashes,hl]
  dsimp only
  rw [hn,String.join_append]
  exact congrArg (· ++ " ") (hm n.toNat)

lemma respellLine_hash {e : Element} {hang : Nat} {text lead rest : String} (dialect : Dialect)
  (hs : e.attribute? "hanging" = some (toString (hang : Int))) (ht : e.text = some text)
  (hld : text = lead ++ rest) (hl : lead.length = hang) (hh : rest.toList.head? = some '#') :
  ∃ e', respellLine dialect e = .ok (e',some hang) ∧ e'.text = some text := by
  obtain ⟨cs,hcs⟩ : ∃ cs, rest.toList = '#' :: cs := by
    cases hr : rest.toList with
    | nil => rw [hr] at hh; cases hh
    | cons c cs =>
      rw [hr] at hh
      cases hh
      exact ⟨cs,rfl⟩
  have hd : text.toList.drop (position text.toList hang) = '#' :: cs := by
    rw [position,if_neg (by omega),hld,String.toList_append,Int.toNat_natCast,← hl,← String.length_toList,
      drop_left,hcs]
  rw [respellLine,hs]
  dsimp only
  rw [whole_toString_int,ok_bind,ht]
  dsimp only
  rw [hd,parse?_hash]
  refine ⟨_,rfl,?_⟩
  split
  · exact ht
  · exact ht

lemma fillLine_oneLine_iff {wd : Int} {start text : String} {hang : Nat} {c : Char} (hw : 0 < wd)
  (hlg : hang < text.length) (hls : text.toList.getLast? = some c) (hc : isBlank c = false) :
  fillLine (some wd) start text hang = .ok [ofList (smooth (start ++ text).toList)] ↔
    ((smooth (start ++ text).toList).length : Int) ≤ wd := by
  have hls' : (start ++ text).toList.getLast? = some c := by
    rw [String.toList_append,getLast?_append,hls]
    rfl
  rw [← @fill_oneLine_iff wd (start ++ spacesInt hang) (start ++ text) c hw hls' hc]
  have hl : (start ++ spacesInt hang).length < (smooth (start ++ text).toList).length := by
    have hle := length_expandTabsFrom 0 (start ++ text).toList
    rw [String.length_toList,String.length_append] at hle
    rw [smooth,length_map,String.length_append,spacesInt,spaces,length_ofList,length_replicate]
    omega
  have hk {line : String} (h : (if line.length < (start ++ spacesInt hang).length then start ++ spacesInt hang
      else line) = ofList (smooth (start ++ text).toList)) : line = ofList (smooth (start ++ text).toList) := by
    split at h
    · rw [h,length_ofList] at hl
      exact absurd hl (lt_irrefl _)
    · exact h
  rw [fillLine]
  dsimp only
  cases hf : fill wd (start ++ spacesInt hang) (start ++ text) with
  | error fault => exact ⟨fun h => (by cases h),fun h => (by cases h)⟩
  | ok ls =>
    rw [ok_bind]
    constructor
    · intro h
      have hln := Except.ok.inj h
      cases ls with
      | nil =>
        have he := hk (cons.inj hln).1
        rw [← length_ofList,← he] at hl
        exact absurd hl (Nat.not_lt_zero _)
      | cons line ls =>
        cases ls with
        | nil => rw [hk (cons.inj hln).1]
        | cons line' ls => cases (cons.inj hln).2
    · intro h
      obtain rfl := Except.ok.inj h
      have hlg : ¬ (ofList (smooth (start ++ text).toList)).length < (start ++ spacesInt hang).length := by
        rw [length_ofList]
        omega
      show Except.ok (([ofList _].map _).intersperse "\n") = _
      rw [map_singleton,if_neg hlg]
      rfl

theorem header_on_one_line_iff (hw : 1 < w) (htree : Throughout IsMarkdown tree)
    (hform : form? tree = some .prose)
    (hlists : Throughout (ShortLists w) tree) (hcode : ¬ CodeInList tree)
    (hh : h ∈ tree :: tree.descendants) {s : String}
    {n : Int} (hlevel : h.attribute? "level" = some s) (hn : whole s = .ok n)
    (hpos : 0 < n) {c : Char}
    (hlast : (String.join (spoken h)).toList.getLast? = some c) (hc : isBlank c = false) :
    (∃ made, (pieces .final w tree).toExcept = .ok made ∧
      (logicalLines .final (.ofList made)).toExcept = .ok ((pageOf w tree).elements .final w)) ∧
    ∃ r ∈ (pageOf w tree).rows, (r.lead w).length = w * r.level ∧
      r.text w = r.lead w ++ (String.ofList (replicate n.toNat '#') ++ " " ++
        String.join (spoken h)) ∧
      ∀ comment dialect indent, standing .final comment = .ok (dialect, indent) →
      ∀ width : Int, 0 < width →
        let written := writeComment .final (some width) comment
          (.ofList ((pageOf w tree).elements .final w))
        written.fault = none ∧ ∃ front filled ending back isFirst,
          written.texts = front ++ (filled ++ ending) ++ back ∧ (ending = [] ∨ ending = ["\n"]) ∧
          fillLine (some width) (leader dialect indent isFirst) (r.text w)
            ((w * r.level : Nat) : Int) = .ok filled ∧
          (filled = [String.ofList (smooth (leader dialect indent isFirst ++ r.text w).toList)] ↔
            ((smooth (leader dialect indent isFirst ++ r.text w).toList).length : Int) ≤ width) := by
  obtain ⟨r, hr, hne, htext⟩ := @header_row w tree h htree hform hcode hh s hlevel
  have hlead : (r.lead w).length = w * r.level := Row.length_lead (forall_marks (fun e he ordered i ho hi =>
    length_paddedMark hw fun h => lt_of_le_of_lt hi (he (h ▸ ho))) hlists r hr)
  rw [String.join_append, join_hashes hlevel hn] at htext
  obtain ⟨line, hline, hshown, hhanging⟩ := row_mem_elements (w := w) hr hne
  obtain ⟨before, after, hsplit⟩ := append_of_mem hline
  refine ⟨lines_of_tree htree hform hcode, r, hr, hlead, htext,
    fun comment dialect indent hstand width hwidth => ?_⟩
  have hhash : (String.ofList (replicate n.toNat '#') ++ " " ++
    String.join (spoken h)).toList.head? = some '#' := by
    obtain ⟨m, hm⟩ := Nat.exists_eq_succ_of_ne_zero (show n.toNat ≠ 0 by omega)
    rw [hm, replicate_succ]
    simp
  obtain ⟨e', hrespelled, hkept⟩ := @respellLine_hash line (w * r.level) _ _ _ dialect hhanging
    hshown htext hlead hhash
  have hall : ∀ x ∈ before ++ line :: after, Settable x := hsplit ▸ settable_elements
  obtain ⟨hfault, front, filled, back, ending, hfill, hending, -, htexts⟩ :=
    writeComment_line hstand hall hrespelled hwidth
  rw [hkept, Option.getD_some] at hfill
  rw [← hsplit] at hfault htexts
  refine ⟨hfault, front, filled, ending, back, before.isEmpty, htexts, hending, hfill, ?_⟩
  have hlast' : (r.text w).toList.getLast? = some c := by
    rw [htext, String.toList_append, String.toList_append, getLast?_append, getLast?_append, hlast]
    rfl
  have hlong : w * r.level < (r.text w).length := by
    rw [htext, String.length_append, hlead, ← String.length_toList (s := _ ++ _)]
    have := length_pos_of_mem (mem_of_head? hhash)
    omega
  rw [← fillLine_oneLine_iff hwidth hlong hlast' hc, hfill]
  exact ⟨fun h => congrArg _ h, Except.ok.inj⟩

def headerTree : Element :=
  blockOf "markdown" [] [blockOf "header" [("level","1"),("newlines","1")] [spanOf "abc def"]]

theorem header_on_one_line_at_depths :
    (Throughout (ShortLists 4) depthsTree ∧ ¬ CodeInList depthsTree) ∧
    ∃ r ∈ (pageOf 4 depthsTree).rows, r.text 4 = r.lead 4 ++ "# Depths" ∧ ∀ width : Int, 0 < width →
      ∃ filled isFirst, fillLine (some width) (leader .plain 0 isFirst) (r.text 4)
        ((4 * r.level : Nat) : Int) = .ok filled ∧
        (filled = [String.ofList (smooth (leader .plain 0 isFirst ++ r.text 4).toList)] ↔
          ((smooth (leader .plain 0 isFirst ++ r.text 4).toList).length : Int) ≤ width) := by
  have hmem : blockOf "header" [("level", "1"), ("newlines", "1")] [spanOf "Depths"] ∈
      depthsTree :: depthsTree.descendants := by
    rw [descendants_eq]
    exact mem_cons_of_mem _ (mem_flatMap.mpr ⟨_, mem_cons_self, mem_cons_self⟩)
  obtain ⟨-, r, hr, -, htext, hwidths⟩ := header_on_one_line_iff (n := 1) (c := 's')
    (by decide) depthsTree_markdown
    (by decide +kernel) depthsTree_short depthsTree_free hmem rfl
      (ok_of_toOption (by decide +kernel)) (by decide)
    (by decide +kernel) (by decide)
  have hstand : standing .final marginComment = .ok (.plain, 0) := ok_of_toOption (by decide +kernel)
  refine ⟨⟨depthsTree_short, depthsTree_free⟩, r, hr, htext.trans (congrArg (r.lead 4 ++ ·) (by decide +kernel)),
    fun width hwidth => ?_⟩
  obtain ⟨-, front, filled, ending, back, isFirst, -, -, hfill, hiff⟩ :=
    hwidths marginComment .plain 0 hstand width hwidth
  exact ⟨filled, isFirst, hfill, hiff⟩

theorem header_wraps_at_width : (pageOf 4 headerTree).rows.map (Row.text 4) = ["# abc def"] ∧
    standing .final marginComment = .ok (.plain, 0) ∧
    physicalLines (writeComment .final (some 8) marginComment
      (.ofList ((pageOf 4 headerTree).elements .final 4))).texts =
      ["/** #".toList, "/** abc".toList, "/** def".toList, " */".toList] :=
  ⟨by decide +kernel, ok_of_toOption (by decide +kernel), by decide +kernel⟩

end Tree

end Docweave
