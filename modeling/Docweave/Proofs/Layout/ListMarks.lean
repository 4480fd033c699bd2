import Docweave.Proofs.Layout.BlockRows
import Docweave.Proofs.Layout.ItemLetters

namespace Docweave

open List Text

namespace Tree

open Element

variable {w : Nat} {k : Nat} {tree x c : Element}

def Gapped (m : String) : Prop := ∃ ordered i gap, 0 < gap ∧ m = markText ordered i ++ spaces gap

def RoomyLists (w : Nat) (e : Element) : Prop := orderOf e = some true → e.children.length < 10 ^ (w - 2)

instance (w : Nat) : DecidablePred (RoomyLists w) := fun _ => inferInstanceAs (Decidable (_ → _))

lemma length_markText_lt_iff (hw : 1 < w) (ord : Bool) (i : Nat) :
  (markText ord i).length < w ↔ (ord → i + 1 < 10 ^ (w - 2)) := by
  cases ord with
  | false =>
    have hd : (markText false i).length = 1 := congrArg String.length (if_neg Bool.false_ne_true)
    simp [hd,hw]
  | true =>
    have hl : (markText true i).length = (i + 1).repr.length + 1 := by
      show ((i + 1).repr ++ ".").length = _
      rw [String.length_append]
      rfl
    rw [hl]
    by_cases ht : w = 2
    · subst ht
      have hp : (i + 1).repr.length ≠ 0 := by
        have hne : (Nat.toDigits 10 (i + 1)) ≠ [] := Nat.toDigits_ne_nil
        rw [Nat.repr_eq_ofList_toDigits,String.length_ofList]
        exact fun h => hne (length_eq_zero_iff.mp h)
      constructor
      · intro h
        omega
      · intro h
        have := h rfl
        simp at this
    have hi := @Nat.length_repr_le_iff (i + 1) (w - 2) (by omega)
    constructor
    · intro h _
      exact hi.mp (by omega)
    · intro h
      have := hi.mpr (h rfl)
      omega

lemma not_gapped_markText (ord : Bool) (i : Nat) : ¬ Gapped (markText ord i) := by
  rintro ⟨ord',i',gap,hg,heq⟩
  have hm : ' ' ∈ (markText ord i).toList := by
    rw [heq]
    simp [spaces]
    omega
  rcases mem_markText hm with hd | hdt | hds
  · exact absurd hd (by decide)
  · exact absurd hdt (by decide)
  · exact absurd hds (by decide)

lemma apart_paddedMark_iff (hw : 1 < w) (ord : Bool) (i : Nat) :
  Gapped (paddedMark w ord i) ↔ (ord → i + 1 < 10 ^ (w - 2)) := by
  rw [← length_markText_lt_iff hw,paddedMark]
  constructor
  · intro ha
    by_contra hl
    have hn : spacesInt (w - (markText ord i).length) = "" := by
      rw [spacesInt,Int.toNat_eq_zero.mpr (by omega)]
      rfl
    rw [hn,String.append_empty] at ha
    exact not_gapped_markText ord i ha
  · exact fun h => ⟨ord,i,_,by omega,rfl⟩

lemma lastLayout_blocks {es : List Element}
    (h : ∀ y ∈ es, y.attribute? "layout" = none) : lastLayout none es = none := by
  induction es with
  | nil => rfl
  | cons y es ih =>
    obtain ⟨hy,hes⟩ := forall_mem_cons.mp h
    have hs : (transition .final none y).1 = none := by simp [transition,hy]
    rw [lastLayout,foldl_cons,hs]
    exact ih hes

lemma IsMarkdown.members {ord : Bool} (hx : IsMarkdown x) (ho : orderOf x = some ord) :
  ∀ y ∈ x.children, y.attribute? "layout" = none := by
  obtain ⟨-,f,hf,ha⟩ := hx
  have hb : ∀ y ∈ x.children, IsBlockElement y := by
    cases f with
    | span => cases (form?_span hf).2.2.symm.trans ho
    | code => cases ha.2.2.2.2.1.symm.trans ho
    | prose =>
      have hl := ((form?_other hf (by decide)).2.2 (by decide)).mp (by rw [ho]; rfl)
      cases hl
    | list => exact ha.2.2.2
  intro y hy
  rcases (hb y hy).1 with hfr | hfr <;> exact (form?_other hfr (by decide)).1

lemma member_row (ht : Throughout IsMarkdown tree) (hf : form? tree = some .prose) (hcd : ¬ CodeInList tree)
  (hx : x ∈ tree :: tree.descendants) {ord : Bool} (ho : orderOf x = some ord) {i : Nat}
  (hc : x.children[i]? = some c) : ∃ k, ∃ r ∈ (pageOf w tree).rows, ∃ outer, r.start + outer.length = k ∧
    r.marks = outer ++ paddedMark w ord i :: (firstLine (strokes w (k + 1) c)).flatMap markedOf ∧
    r.contents = (firstLine (strokes w (k + 1) c)).flatMap saidOf := by
  obtain ⟨k,before,after,hs,-⟩ := @strokes_placed w tree ht 0 x hx
  obtain ⟨hi,hg⟩ := List.getElem?_eq_some_iff.mp hc
  have hp : x.children = x.children.take i ++ c :: x.children.drop (i + 1) := by
    rw [← hg,getElem_cons_drop,take_append_drop]
  have hl : (x.children.take i).length = i := length_take_of_le hi.le
  have hls : lastLayout none (x.children.take i) = none :=
    lastLayout_blocks fun y hy => (ht x hx).members ho y (mem_of_mem_take hy)
  have hch := childStrokes_append w k (some ord) (countToLast x.children) 0 none (x.children.take i)
    (c :: x.children.drop (i + 1))
  rw [← hp,Nat.zero_add,hl,hls,childStrokes,framed,changeStrokes,if_neg (by simp)] at hch
  rw [strokes_eq w k x,ho,hch] at hs
  have hst : strokes w 0 tree = (before ++ ((ownStrokes x).map (k,·) ++
      childStrokes w k (some ord) (countToLast x.children) 0 none (x.children.take i))) ++
        ((k,.mark (paddedMark w ord i)) :: strokes w (k + 1) c) ++
        ((k,.leave) :: ((endStrokes (countToLast x.children) i c).map (k,·) ++
          childStrokes w k (some ord) (countToLast x.children) (i + 1) (transition .final none c).1
            (x.children.drop (i + 1)) ++ (wrapStrokes x).map (k,·) ++ after)) := by
    rw [hs]
    simp [markStrokes,inner]
  obtain ⟨s,s',-,hcr,hrw⟩ := row_of_stretch ht hf hcd hst (by rintro y ⟨⟩; trivial)
  obtain ⟨s1,hsp,-⟩ := Option.bind_eq_some_iff.mp hcr
  obtain ⟨rfl,-⟩ : s = .fresh k ∧ .fresh (k + 1) = s1 := by simpa [Stand.step?] using hsp
  obtain ⟨r,hr,outer,hlv,hm,hsd⟩ := hrw rfl
  exact ⟨k,r,hr,outer,hlv,hm,hsd⟩

lemma rows_apart_iff (hw : 1 < w) (ht : Throughout IsMarkdown tree) (hf : form? tree = some .prose)
  (hc : ¬ CodeInList tree) :
  (∀ r ∈ (pageOf w tree).rows, (∀ m ∈ r.marks, Gapped m) ∧ (r.lead w).length = w * r.level) ↔
    Throughout (RoomyLists w) tree := by
  constructor
  · intro h x hx hor
    by_contra hln
    have hi : 10 ^ (w - 2) - 1 < x.children.length := by
      have := Nat.pow_pos (n := w - 2) (by decide : 0 < 10)
      omega
    obtain ⟨k,r,hr,outer,-,hmr,-⟩ := @member_row w tree x _ ht hf hc hx true hor _ (getElem?_eq_getElem hi)
    have ha := (h r hr).1 (paddedMark w true (10 ^ (w - 2) - 1)) (by rw [hmr]; simp)
    have hls := (apart_paddedMark_iff hw _ _).mp ha rfl
    omega
  · intro hl r hr
    have hrm : ∀ m ∈ r.marks, m.length = w ∧ Gapped m := by
      refine forall_marks (fun e he ord i ho hi => ?_) hl r hr
      have hro : ord = true → i + 1 < 10 ^ (w - 2) := fun h => lt_of_le_of_lt hi (he (h ▸ ho))
      refine ⟨length_paddedMark hw fun h => (hro h).trans_le ?_,(apart_paddedMark_iff hw ord i).mpr hro⟩
      exact Nat.pow_le_pow_right (by decide) (by omega)
    exact ⟨fun m hm => (hrm m hm).2,Row.length_lead fun m hm => (hrm m hm).1⟩

end Tree

namespace Node

variable {ns : List Node} {n : Node} {lvl : Option Int} {ord : Bool}

lemma listMark_eq (ord : Bool) (i : Nat) : listMark ord i = Tree.paddedMark 4 ord i := by
  show markText ord i ++ spaces (4 - (markText ord i).length) =
    markText ord i ++ spaces (4 - ((markText ord i).length : Int)).toNat
  rw [show (4 - ((markText ord i).length : Int)).toNat = 4 - (markText ord i).length by omega]

lemma markMembers_eq (lvl : Option Int) (ord : Bool) (idx : Nat) (texts : List String) :
  markMembers (.fields lvl (some ord)) idx texts =
    .ok (texts.mapIdx fun i t => listMark ord (idx + i) ++ t) := by
  induction texts generalizing idx with
  | nil => rfl
  | cons t ts ih =>
    rw [markMembers,ih,mapIdx_cons]
    simp only [Nat.add_assoc,Nat.add_comm 1]
    rfl

lemma output_member (hn : Sound n) (hk : n.blockKind? = some .listItem) (isLast : Bool) (wd : Option Int) :
  ∃ body ends, output isLast wd n = .ok (hangLines body ++ newlines ends) := by
  cases hn with
  | text s => cases hk
  | span => cases hk
  | block hs h =>
    obtain rfl := Option.some.inj hk
    obtain ⟨ns,last,rfl,hl⟩ := hs
    obtain ⟨ends,he⟩ := endsInParagraph_ok ns hl
    obtain ⟨ts,ht,-⟩ := outputAll_kept ((atLeastOne wd).map (· - 4)) fun n hn => (h n hn).kept
    refine ⟨String.join ts,if isLast then 0 else if ends then 2 else 1,?_⟩
    rw [output,ht,he]
    cases isLast <;> rfl

lemma outputNodes_members (h : ∀ n ∈ ns, Sound n ∧ n.blockKind? = some .listItem) (wd : Option Int) :
  ∃ ts, outputNodes wd none ns = .ok ts ∧ ts.length = ns.length ∧
    ∀ t ∈ ts, ∃ body ends, t = hangLines body ++ newlines ends := by
  induction ns with
  | nil => exact ⟨[],by rw [outputNodes],rfl,forall_mem_nil _⟩
  | cons n ns ih =>
    obtain ⟨⟨hn,hk⟩,hr⟩ := forall_mem_cons.mp h
    obtain ⟨body,ends,hb⟩ := output_member hn hk ns.isEmpty wd
    obtain ⟨ts,ht,hl,ha⟩ := ih hr
    refine ⟨_ :: ts,?_,by rw [length_cons,hl,length_cons],forall_mem_cons.mpr ⟨⟨body,ends,rfl⟩,ha⟩⟩
    rw [outputNodes,if_pos (by rw [hk]; rfl),hb,ht]
    rfl

lemma output_list (hls : Sound (.item (some .list) none (.fields lvl (some ord)) (.nodes ns))) (isLast : Bool)
  (wd : Option Int) : ∃ (ts : List String) (ends : Nat),
    output isLast wd (.item (some .list) none (.fields lvl (some ord)) (.nodes ns)) =
      .ok (String.join (ts.mapIdx fun i t => listMark ord i ++ t) ++ newlines ends) ∧
    ts.length = ns.length ∧ ∀ t ∈ ts, ∃ body ends, t = hangLines body ++ newlines ends := by
  cases hls with
  | block hs h =>
    obtain ⟨-,ns',hsm,hk⟩ := hs
    cases hsm
    obtain ⟨ts,ht,hl,ha⟩ := @outputNodes_members ns (fun n hn => ⟨h n hn,hk n hn⟩) (atLeastOne (atLeastOne wd))
    refine ⟨ts,if isLast then 0 else 2,?_,hl,ha⟩
    rw [output,outputAll,ht]
    dsimp only [bind,Except.bind]
    rw [markMembers_eq]
    simp only [Nat.zero_add]
    cases isLast <;> rfl

lemma listMarks_apart_iff (count : Nat) :
    (∀ i < count, Tree.Gapped (listMark ord i) ∧ (listMark ord i).length = 4) ↔
    (ord → count < 100) := by
  have hif (i : Nat) : Tree.Gapped (listMark ord i) ↔ (ord = true → i + 1 < 10 ^ 2) := by
    rw [listMark_eq]
    exact @Tree.apart_paddedMark_iff 4 (by decide) ord i
  constructor
  · intro h ho
    by_contra hln
    have hl := (hif 99).mp (h 99 (by omega)).1 ho
    exact absurd hl (by decide)
  · intro h i hi
    have hr : ord = true → i + 1 < 10 ^ 2 := fun ho => by have := h ho; omega
    exact ⟨(hif i).mpr hr,length_listMark fun ho => by have := hr ho; omega⟩

end Node

namespace Tree

open Element

theorem list_marks_apart_iff {w : Nat} {tree : Element} (hw : 1 < w)
    (htree : Throughout IsMarkdown tree)
    (hform : form? tree = some .prose) (hcode : ¬ CodeInList tree)
    {level : Option Int} {ordered : Bool}
    {ns : List Node} (hlist : Node.Sound (.item (some .list) none
      (.fields level (some ordered)) (.nodes ns))) :
    ((∃ made, (pieces .final w tree).toExcept = .ok made ∧
        (logicalLines .final (.ofList made)).toExcept = .ok ((pageOf w tree).elements .final w)) ∧
      (∀ x ∈ tree :: tree.descendants, ∀ order, orderOf x = some order →
        ∀ i c, x.children[i]? = some c →
        ∃ k, ∃ r ∈ (pageOf w tree).rows, ∃ outer, r.start + outer.length = k ∧
          r.marks = outer ++ paddedMark w order i :: (firstLine (strokes w (k + 1) c)).flatMap
            markedOf ∧
          r.contents = (firstLine (strokes w (k + 1) c)).flatMap saidOf) ∧
      ((∀ r ∈ (pageOf w tree).rows, (∀ m ∈ r.marks, Gapped m) ∧ (r.lead w).length = w * r.level) ↔
        Throughout (RoomyLists w) tree)) ∧
    ((∀ isLast width, ∃ (texts : List String) (ends : Nat),
        Node.output isLast width (.item (some .list) none
          (.fields level (some ordered)) (.nodes ns)) =
          .ok (String.join (texts.mapIdx fun i t => Node.listMark ordered i ++ t) ++
            Node.newlines ends) ∧
        texts.length = ns.length ∧
        ∀ t ∈ texts, ∃ body ends, t = Node.hangLines body ++ Node.newlines ends) ∧
      ((∀ i < ns.length, Gapped (Node.listMark ordered i) ∧ (Node.listMark ordered i).length = 4) ↔
        (ordered = true → ns.length < 100))) := by
  exact ⟨⟨lines_of_tree htree hform hcode, fun x hx order horder i c hc =>
    member_row htree hform hcode hx horder hc,
    rows_apart_iff hw htree hform hcode⟩, Node.output_list hlist,
      Node.listMarks_apart_iff ns.length⟩

def itemsOf (texts : List String) : Node :=
  .item (some .list) none (.fields none (some true))
    (.nodes (texts.map fun t => .block .listItem .none [.ofText t]))

lemma sound_itemsOf (ts : List String) : (itemsOf ts).Sound := by
  refine .block ⟨⟨none,true,rfl⟩,_,rfl,forall_mem_map.mpr fun _ _ => rfl⟩ (forall_mem_map.mpr fun t _ => ?_)
  exact .block ⟨[],_,rfl,rfl⟩ (forall_mem_singleton.mpr (.span _ _ (forall_mem_nil _)))

theorem list_marks_apart_at_depths :
    (Throughout IsMarkdown depthsTree ∧ ¬ CodeInList depthsTree ∧
      Throughout (RoomyLists 4) depthsTree) ∧
      (∀ r ∈ (pageOf 4 depthsTree).rows, (∀ m ∈ r.marks, Gapped m) ∧
        (r.lead 4).length = 4 * r.level) ∧
      ∀ i < 2, Gapped (Node.listMark true i) ∧ (Node.listMark true i).length = 4 := by
  have hlists : Throughout (RoomyLists 4) depthsTree := fun x => by
    revert x
    decide +kernel
  obtain ⟨⟨-, -, hrows⟩, -, hitems⟩ := list_marks_apart_iff (w := 4) (by decide) depthsTree_markdown
    (by decide +kernel) depthsTree_free (sound_itemsOf ["a", "b"])
  exact ⟨⟨depthsTree_markdown, depthsTree_free, hlists⟩, hrows.mpr hlists, hitems.mpr fun _ => by decide⟩

def hundredTree : Element :=
  blockOf "markdown" [] [blockOf "list" [("newlines","2"),("ordered","True")]
    (replicate 100 (blockOf "list_item" [("newlines","1")] [spanOf "a"]))]

theorem hundredth_mark_meets_text :
    (pageOf 4 hundredTree).rows.getLast?.map (Row.text 4) = some "100.a" ∧
    ∃ before, Node.output true (some 80) (itemsOf (replicate 100 "a")) =
      .ok (before ++ "100.a") := by
  have hms : (Node.outputNodes (some 80) none ((replicate 100 "a").map fun t =>
    .block .listItem .none [.ofText t])).toOption =
      some (replicate 99 "a\n" ++ ["a"]) := by decide +kernel
  have hmark : Node.listMark true (0 + 99) ++ "a" = "100.a" := by decide +kernel
  refine ⟨by decide +kernel, String.join ((replicate 99 "a\n").mapIdx fun i t => Node.listMark true (0 + i) ++ t), ?_⟩
  rw [itemsOf, Node.output, Node.outputAll]
  change (do
    let ts ← Node.outputNodes (some 80) none _
    let ms ← Node.markMembers (.fields none (some true)) 0 ts
    pure (String.join ms ++ "")) = _
  rw [ok_of_toOption hms, ok_bind, Node.markMembers_eq, ok_bind, mapIdx_concat, length_replicate,
    String.join_append, hmark,
    show String.join ["100.a"] = "100.a" by decide +kernel, String.append_empty]
  rfl

end Tree

end Docweave
