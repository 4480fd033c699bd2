import Docweave.Proofs.Layout.Hanging

namespace Docweave.Tree

open Element Text List

variable {w : Nat} {tree e x : Element}

section

variable {s s' : Stand} {p : Page} {l : Layout}

lemma add_code_error (w : Int) (t : String) (h : l.texts ≠ []) :
  ∃ err, l.add .final (Stroke.piece .final w (.code t)) = .error err := by
  have hf : Layout.filled .final (l.tag.getD Edition.final.pieceTag) (Stroke.piece .final w (.code t))
      { l with tag := some (l.tag.getD Edition.final.pieceTag) } = .error (.undefined "text of element") := by
    show Layout.verbatim .final { l with tag := some (l.tag.getD Edition.final.pieceTag) }
      (l.tag.getD Edition.final.pieceTag) t (Stroke.piece .final w (.code t)) = _
    unfold Layout.verbatim
    rw [if_pos (by simpa using h)]
    rfl
  exact ⟨_,by rw [add_code_eq,hf]; rfl⟩

lemma texts_ne_nil (hw : 0 < w) (h : Sits .final w s p l) (hl : s.level ≠ 0) : l.texts ≠ [] := by
  rw [h.texts]
  intro hn
  obtain ⟨hld,-⟩ := append_eq_nil_iff.mp hn
  obtain ⟨hsp,hm⟩ := append_eq_nil_iff.mp hld
  have hs : p.row.start ≠ 0 := fun hs => hl (by rw [← h.level,Row.level,hs,hm]; rfl)
  rw [if_pos (Nat.mul_pos hw (Nat.pos_of_ne_zero hs))] at hsp
  cases hsp

lemma layout_jams (hw : 0 < w) {ss : List (Nat × Stroke)} (h : Sits .final w s p l) (hcr : Course s ss s')
  (hc : ∃ x ∈ ss, ∃ t, x.2 = .code t ∧ x.1 ≠ 0) :
  ∃ err, (written .final w ss).foldlM (Layout.add .final) l = .error err := by
  induction ss generalizing s p l with
  | nil => simp at hc
  | cons x ss ih =>
    obtain ⟨s1,hs,hr⟩ := Option.bind_eq_some_iff.mp hcr
    rw [written,map_cons,foldlM_cons]
    by_cases hx : ∃ t, x.2 = .code t ∧ x.1 ≠ 0
    · obtain ⟨k,stroke⟩ := x
      obtain ⟨t,rfl,hk⟩ := hx
      obtain ⟨rfl,-⟩ : s = .fresh k ∧ s = s1 := by simpa [Stand.step?] using hs
      obtain ⟨err,hf⟩ := add_code_error w t (texts_ne_nil hw h hk)
      exact ⟨err,by rw [hf]; rfl⟩
    obtain ⟨l1,ha,hst⟩ := sits_step h hs fun t ht => not_not.mp fun hk => hx ⟨t,ht,hk⟩
    rw [ha]
    refine ih hst hr ?_
    obtain ⟨y,hy,hc⟩ := hc
    rcases mem_cons.mp hy with rfl | hy
    · exact absurd hc hx
    · exact ⟨y,hy,hc⟩

end

lemma strokes_subset : ∀ e k, ∀ x ∈ e :: e.descendants, ∃ k', k ≤ k' ∧ strokes w k' x ⊆ strokes w k e := by
  refine Element.byChildren fun e ih k x hx => ?_
  rcases mem_cons.mp hx with rfl | hx
  · exact ⟨k,le_rfl,List.Subset.refl _⟩
  rw [descendants_eq] at hx
  obtain ⟨c,hc,hx⟩ := mem_flatMap.mp hx
  obtain ⟨k',hk',hs⟩ := ih c hc (inner k (orderOf e)) x hx
  refine ⟨k',le_trans (by rw [inner]; split <;> omega) hk',fun y hy => ?_⟩
  rw [strokes_eq]
  exact mem_append_left _ (mem_append_right _ (strokes_subset_childStrokes hc (hs hy)))

lemma throughout_below {Q : Element → Prop} : ∀ e, Throughout Q e →
    ∀ x ∈ e :: e.descendants, Throughout Q x := by
  refine Element.byChildren fun e ih he x hx => ?_
  rcases mem_cons.mp hx with rfl | hx
  · exact he
  · rw [descendants_eq] at hx
    obtain ⟨c,hc,hx⟩ := mem_flatMap.mp hx
    exact ih c hc ((throughout_iff.mp he).2 c hc) x hx

lemma deep_code (htr : Throughout IsMarkdown tree) (h : CodeInList tree) :
  ∃ x ∈ strokes w 0 tree, ∃ t, x.2 = .code t ∧ x.1 ≠ 0 := by
  obtain ⟨l,hl,ho,x,hx,hv⟩ := h
  obtain ⟨-,f,hf,ha⟩ := throughout_below tree htr l hl x hx
  obtain rfl : f = .code := by
    by_cases hsp : f = .span
    · subst hsp
      rw [(form?_span hf).2.1] at hv
      cases hv
    · exact (form?_other hf hsp).2.1.mp hv
  obtain ⟨-,-,-,-,hu,ht,-⟩ := ha
  obtain ⟨t,ht⟩ := Option.isSome_iff_exists.mp ht
  rcases mem_cons.mp hx with rfl | hx
  · rw [hu] at ho
    cases ho
  rw [descendants_eq] at hx
  obtain ⟨c,hc,hx⟩ := mem_flatMap.mp hx
  obtain ⟨k,-,hs⟩ := @strokes_subset w tree 0 l hl
  obtain ⟨k',hk',hs'⟩ := @strokes_subset w c (inner k (orderOf l)) x hx
  have hon : (k',.code t) ∈ strokes w k' x := by
    rw [strokes_eq,ownStrokes,ht,hv]
    simp
  refine ⟨(k',.code t),hs ?_,t,rfl,?_⟩
  · rw [strokes_eq]
    exact mem_append_left _ (mem_append_right _ (strokes_subset_childStrokes hc (hs' hon)))
  · rw [inner,if_pos ho] at hk'
    omega

def partsOf (e : Element) (t : String) : List (List Char) :=
  if e.has "verbatim" then (displayLines t.toList).map DisplayLine.whole else [(collapse t).toList]

lemma code_mem_lines {k : Nat} {t : String} {ss : List (Nat × Stroke)} {p : Page}
  (h : .code t ∈ p.lines ∨ (k,.code t) ∈ ss) : .code t ∈ (ss.foldl Page.write p).lines := by
  induction ss generalizing p with
  | nil => exact h.resolve_right (not_mem_nil)
  | cons x ss ih =>
    refine ih ?_
    rcases h with h | h
    · obtain ⟨k',stroke⟩ := x
      cases stroke <;> simp [Page.write,h]
    · rcases mem_cons.mp h with rfl | h
      · simp [Page.write]
      · exact .inr h

lemma row_mem_elements {p : Page} {r : Row} (hr : r ∈ p.rows) (hne : r.contents ≠ []) :
  ∃ line ∈ p.elements .final w, line.text = some (r.text w) ∧
    line.attribute? "hanging" = some (toString (w * r.level : Int)) := by
  rcases mem_append.mp hr with hr | hr
  · obtain ⟨line,hl,hrw⟩ := mem_filterMap.mp hr
    cases line with
    | row r' =>
      obtain rfl := Option.some.inj hrw
      exact ⟨r'.line .final w,mem_append_left _ (mem_flatMap.mpr ⟨_,hl,mem_cons_self⟩),rfl,rfl⟩
    | code t => cases hrw
  obtain rfl := mem_singleton.mp hr
  have ht : (p.row.texts w).isEmpty = false := by simp [Row.texts,hne]
  refine ⟨(p.row.line .final w).set "bareLine" (isTrue true),mem_append_right _ ?_,rfl,rfl⟩
  rw [ht]
  exact mem_cons_self

lemma infix_join {s : String} {ts : List String} (h : s ∈ ts) : s.toList <:+: (String.join ts).toList := by
  obtain ⟨before,after,rfl⟩ := append_of_mem h
  exact ⟨(String.join before).toList,(String.join after).toList,by simp [String.join_cons]⟩

theorem laid_out_iff_no_code_in_list (hw : 0 < w) (htree : Throughout IsMarkdown tree)
    (hform : form? tree = some .prose) :
    (∃ made lines, (pieces .final w tree).toExcept = .ok made ∧
      (logicalLines .final (.ofList made)).toExcept = .ok lines ∧
      ∀ e ∈ tree :: tree.descendants, ∀ t, e.text = some t → ∀ part ∈ partsOf e t,
        ∃ line ∈ lines, ∃ shown ∈ line.text, part <:+: shown.toList) ↔ ¬ CodeInList tree := by
  obtain ⟨s, hcourse, -, hflat, hpieces⟩ := course_tree w htree hform
  rw [hpieces]
  constructor
  · rintro ⟨made, lines, hmade, hlines, -⟩ hcode
    obtain ⟨fault, hfault⟩ := layout_jams hw (sits_start .final w) hcourse (deep_code htree hcode)
    obtain rfl := Except.ok.inj hmade
    rw [logicalLines, Stream.ofList, toExcept_layOutFrom, Stream.ofList, hfault] at hlines
    cases hlines
  · intro hcode
    obtain ⟨laid, hlaid, hsits⟩ := sits_run (sits_start .final w) hcourse (hflat hcode)
    refine ⟨_, (pageOf w tree).elements .final w, rfl, ?_, fun e he t ht part hpart => ?_⟩
    · rw [logicalLines, Stream.ofList, toExcept_layOutFrom, Stream.ofList, hlaid, pageOf, ← hsits.close]
      rfl
    · obtain ⟨k, -, hsub⟩ := @strokes_subset w tree 0 e he
      rw [partsOf] at hpart
      cases hverbatim : e.has "verbatim" with
      | true =>
        have hown : (k, .code t) ∈ strokes w 0 tree := hsub (by rw [strokes_eq, ownStrokes, ht, hverbatim]; simp)
        rw [hverbatim] at hpart
        obtain ⟨line, hline, rfl⟩ := mem_map.mp hpart
        have hcode : Line.code t ∈ (pageOf w tree).lines := code_mem_lines (.inr hown)
        refine ⟨_, mem_append_left _ (mem_flatMap.mpr ⟨_, hcode, mem_map.mpr ⟨line, hline, rfl⟩⟩), _, rfl, ?_⟩
        rw [String.toList_ofList]
        split
        · exact infix_refl _
        · exact (suffix_append _ _).isInfix
      | false =>
        have hown : (k, .text (collapse t)) ∈ strokes w 0 tree :=
          hsub (by rw [strokes_eq, ownStrokes, ht, hverbatim]; simp)
        rw [hverbatim] at hpart
        obtain rfl := mem_singleton.mp hpart
        have hsaid : (k, collapse t) ∈ (pageOf w tree).rows.flatMap Row.contents := by
          rw [pageOf, (rows_pageOf {} (strokes w 0 tree)).1]
          exact mem_append_right _ (mem_flatMap.mpr ⟨_, hown, mem_singleton.mpr rfl⟩)
        obtain ⟨r, hr, hmem⟩ := mem_flatMap.mp hsaid
        obtain ⟨line, hline, htext, -⟩ := row_mem_elements (w := w) hr (ne_nil_of_mem hmem)
        refine ⟨line, hline, r.text w, htext, ?_⟩
        have hshown : collapse t ∈ r.contents.map Prod.snd := mem_map.mpr ⟨(k, collapse t), hmem, rfl⟩
        rw [Row.text, String.toList_append]
        exact (infix_join hshown).trans (suffix_append _ _).isInfix

theorem laid_out_at_depths : (Throughout IsMarkdown depthsTree ∧ ¬ CodeInList depthsTree) ∧
    ∃ made lines, (pieces .final 4 depthsTree).toExcept = .ok made ∧
      (logicalLines .final (.ofList made)).toExcept = .ok lines ∧
      ∀ e ∈ depthsTree :: depthsTree.descendants, ∀ t, e.text = some t → ∀ part ∈ partsOf e t,
        ∃ line ∈ lines, ∃ shown ∈ line.text, part <:+: shown.toList := by
  exact ⟨⟨depthsTree_markdown, depthsTree_free⟩,
    (@laid_out_iff_no_code_in_list 4 depthsTree (by decide) depthsTree_markdown
      (by decide +kernel)).mpr depthsTree_free⟩

def memberCodeTree : Element :=
  blockOf "markdown" [] [blockOf "list" [("newlines","2"),("ordered","False")]
    [blockOf "list_item" [("newlines","2")] [blockOf "paragraph" [("newlines","2")] [spanOf "a"],
      { blockOf "block_code" [("verbatim","block")] [] with text := some "b" }]]]

theorem code_in_member_not_laid_out : Throughout IsMarkdown memberCodeTree ∧
    (pieces .final 4 memberCodeTree).fault.isNone = true ∧
    (logicalLines .final (pieces .final 4 memberCodeTree)).fault.isSome = true := by
  refine ⟨fun x => ?_, by decide +kernel, by decide +kernel⟩
  revert x
  decide +kernel

end Docweave.Tree
