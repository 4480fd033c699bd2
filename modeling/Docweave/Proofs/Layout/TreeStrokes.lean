import Docweave.Proofs.Layout.Widths

namespace Docweave.Tree

open List hiding tail
open Element Text

lemma whole_toString_int (n : Int) : whole (toString n) = .ok n := by
  cases n with
  | ofNat n => exact whole_toString n
  | negSucc n =>
    have hl : (toString (Int.negSucc n)).toList = '-' :: Nat.toDigits 10 (n + 1) := by
      show ("-" ++ toString (n + 1)).toList = _
      simp
    have hb : ∀ c ∈ '-' :: Nat.toDigits 10 (n + 1), isBlank c = false := by
      rw [forall_mem_cons]
      exact ⟨by decide,fun c hc =>
        not_isBlank_of_isDigit (Nat.isDigit_of_mem_toDigits (by decide) (by decide) hc)⟩
    have hs : whole? (toString (Int.negSucc n)) = some (Int.negSucc n) := by
      rw [whole?,hl,trim_of_no_blank hb]
      simp only [natural?_toDigits]
      rfl
    rw [whole,hs]

lemma whole_one : whole "1" = .ok 1 := ok_of_toOption (by decide +kernel)

inductive Stroke
  | text (s : String)
  | mark (s : String)
  | leave
  | feed (count : String)
  | code (s : String)

def Stroke.piece (d : Edition) (w : Int) : Stroke → Element
  | .text s => Tree.piece d (some s) []
  | .mark s => Tree.piece d (some s) [("indent",toString w)]
  | .leave => Tree.piece d none [("indent",toString (0 - w))]
  | .feed n => Tree.piece d none [("newlines",n)]
  | .code s => Tree.piece d (some s) [("verbatim","block"),("indentFixed",toString w)]

def hashes (e : Element) : List String :=
  match e.attribute? "level" with
  | none => []
  | some s => replicate ((whole s).toOption.getD 0).toNat "#" ++ [" "]

def wrapStrokes (e : Element) : List Stroke := (e.attribute? "wrap").toList.map .text

def ownStrokes (e : Element) : List Stroke :=
  wrapStrokes e ++ (hashes e).map .text ++
    e.text.toList.map fun s => if e.has "verbatim" then .code s else .text (collapse s)

def paddedMark (w : Int) (ordered : Bool) (index : Nat) : String :=
  markText ordered index ++ spacesInt (w - (markText ordered index).length)

def markStrokes (w : Int) (order : Option Bool) (index : Nat) : List Stroke :=
  order.toList.map fun ordered => .mark (paddedMark w ordered index)

def changeStrokes (last : Option String) (child : Element) : List Stroke :=
  if last = some "span" ∧ child.attribute? "layout" = none then [.feed "1"] else []

def endStrokes (count index : Nat) (child : Element) : List Stroke :=
  if index + 1 < count then (child.attribute? "newlines").toList.map .feed else []

def inner (depth : Nat) (order : Option Bool) : Nat := if order.isSome then depth + 1 else depth

def framed (w : Int) (depth : Nat) (order : Option Bool) (count index : Nat)
    (last : Option String) (child : Element) (inside : List (Nat × Stroke)) : List (Nat × Stroke) :=
  (markStrokes w order index).map (depth,·) ++ (changeStrokes last child).map (inner depth order,·) ++ inside ++
    ((if order.isSome then [Stroke.leave] else []) ++ endStrokes count index child).map (depth,·)

mutual

def strokes (w : Int) (depth : Nat) : Element → List (Nat × Stroke)
  | ⟨tag,attributes,text,tail,children⟩ =>
    let e : Element := ⟨tag,attributes,text,tail,children⟩
    (ownStrokes e).map (depth,·) ++ childStrokes w depth (orderOf e) (countToLast children) 0 none children ++
      (wrapStrokes e).map (depth,·)

def childStrokes (w : Int) (depth : Nat) (order : Option Bool) (count : Nat) :
    Nat → Option String → List Element → List (Nat × Stroke)
  | _, _, [] => []
  | index, last, child :: rest =>
    framed w depth order count index last child (strokes w (inner depth order) child) ++
      childStrokes w depth order count (index + 1) (transition .final last child).1 rest

end

lemma strokes_eq (w : Int) (depth : Nat) (e : Element) :
    strokes w depth e = (ownStrokes e).map (depth,·) ++
    childStrokes w depth (orderOf e) (countToLast e.children) 0 none e.children ++
      (wrapStrokes e).map (depth,·) := by
  cases e
  rw [strokes]

lemma strokes_leaf (w : Int) (depth : Nat) {e : Element} (hl : e.children = []) :
  strokes w depth e = (ownStrokes e ++ wrapStrokes e).map (depth,·) := by
  rw [strokes_eq,hl,childStrokes,append_nil,map_append]

lemma wrapStrokes_subset (e : Element) : wrapStrokes e ⊆ ownStrokes e := fun _ hs =>
  mem_append_left _ (mem_append_left _ hs)

lemma ownStrokes_shown {e : Element} (h : e.has "verbatim" = false) : ownStrokes e =
  ((e.attribute? "wrap").toList ++ hashes e ++ e.text.toList.map collapse).map Stroke.text := by
  simp [ownStrokes,wrapStrokes,h]

lemma countToLast_eq {es : List Element} (h : ∀ e ∈ es, e.tag ≠ "doc") : countToLast es = es.length := by
  have hn : es.reverse.dropWhile (·.tag == "doc") = es.reverse := by
    cases hr : es.reverse with
    | nil => rfl
    | cons x xs =>
      have ht := h x (mem_reverse.mp (hr ▸ mem_cons_self))
      rw [dropWhile_cons_of_neg (by simpa using ht)]
  rw [countToLast,hn,length_reverse]

lemma childStrokes_concat (w : Int) (depth : Nat) (order : Option Bool) (count idx : Nat) (last : Option String)
  (init : List Element) (c : Element) :
  ∃ front last', childStrokes w depth order count idx last (init ++ [c]) = front ++
      framed w depth order count (idx + init.length) last' c (strokes w (inner depth order) c) ∧
    (last = none → (∀ x ∈ init, x.attribute? "layout" = none) → last' = none) := by
  induction init generalizing idx last with
  | nil => exact ⟨[],last,by rw [nil_append,childStrokes,childStrokes]; simp,fun h _ => h⟩
  | cons x init ih =>
    obtain ⟨front,last',hs,hl⟩ := ih (idx + 1) (transition .final last x).1
    refine ⟨framed w depth order count idx last x (strokes w (inner depth order) x) ++ front,last',?_,
      fun hn hb => hl ?_ fun y hy => hb y (mem_cons_of_mem _ hy)⟩
    · rw [cons_append,childStrokes,hs,append_assoc,length_cons,Nat.add_comm init.length,Nat.add_assoc]
    · simp [transition,hn,hb x mem_cons_self]

structure Supplies (w : Int) (Q : Element → Prop) (P : Stroke → Prop) : Prop where
  own : ∀ e, Q e → ∀ s ∈ ownStrokes e, P s
  mark : ∀ e, Q e → ∀ ordered i, orderOf e = some ordered → i < e.children.length →
    P (.mark (paddedMark w ordered i))
  leave : P .leave
  change : P (.feed "1")
  ends : ∀ e n, Q e → e.attribute? "newlines" = some n → P (.feed n)

section

variable {w : Int} {Q : Element → Prop} {P : Stroke → Prop} (h : Supplies w Q P)

include h

mutual

lemma forall_strokes (depth : Nat) : ∀ {e : Element}, Throughout Q e → ∀ x ∈ strokes w depth e, P x.2
  | ⟨tag,attrs,text,tail,children⟩, he => by
    obtain ⟨hh,hk⟩ := throughout_iff.mp he
    have hm := h.own _ hh
    rw [strokes]
    simp only [forall_mem_append,forall_mem_map]
    refine ⟨⟨hm,forall_childStrokes depth _ _ _ _ (fun ord i ho hi => ?_) hk⟩,fun s hs => hm s ?_⟩
    · exact h.mark _ hh ord i ho (by simpa using hi)
    · exact mem_append_left _ (mem_append_left _ hs)

lemma forall_childStrokes (depth : Nat) (order : Option Bool) (count idx : Nat) (last : Option String) :
    ∀ {es : List Element}, (∀ ord i, order = some ord → i < idx + es.length →
      P (.mark (paddedMark w ord i))) → (∀ e ∈ es, Throughout Q e) →
        ∀ x ∈ childStrokes w depth order count idx last es, P x.2
  | [], _, _ => by simp [childStrokes]
  | e :: es, hm, hes => by
    obtain ⟨he,hes⟩ := forall_mem_cons.mp hes
    rw [childStrokes,framed]
    simp only [forall_mem_append,forall_mem_map]
    refine ⟨⟨⟨⟨?_,?_⟩,forall_strokes _ he⟩,?_,?_⟩,forall_childStrokes depth order count (idx + 1) _ ?_ hes⟩
    · cases order with
      | none => simp [markStrokes]
      | some ord => simpa [markStrokes] using hm ord idx rfl (by simp)
    · rw [changeStrokes]
      split <;> simp [h.change]
    · split <;> simp [h.leave]
    · rw [endStrokes]
      split
      · intro s hs
        obtain ⟨n,hn,rfl⟩ := mem_map.mp hs
        exact h.ends e n (throughout_iff.mp he).1 (Option.mem_toList.mp hn)
      · simp
    · intro ord i ho hi
      exact hm ord i ho (by simp only [length_cons]; omega)

end

end

structure Readable (e : Element) : Prop where
  level : ∀ s, e.attribute? "level" = some s → ∃ n, whole s = .ok n
  block : e.has "verbatim" = true → e.attribute? "verbatim" = some "block"

section

variable (d : Edition) (w : Int) {e : Element}

def written (ss : List (Nat × Stroke)) : List Element := ss.map fun x => x.2.piece d w

lemma headerPieces_readable (he : Readable e) :
  headerPieces d e = .ok ((hashes e).map fun s => Tree.piece d (some s) []) := by
  rw [headerPieces,hashes]
  cases hl : e.attribute? "level" with
  | none => rfl
  | some s =>
    obtain ⟨n,hn⟩ := he.level s hl
    dsimp only
    rw [hn]
    simp only [bind,Except.bind,pure,Except.pure,Except.toOption,Option.getD,map_append,map_replicate,
      map_cons,map_nil]

lemma textPieces_readable (he : Readable e) : textPieces d w e = (e.text.toList.map fun s =>
    (if e.has "verbatim" then Stroke.code s else .text (collapse s))).map (Stroke.piece d w) := by
  rw [textPieces]
  cases e.text with
  | none => rfl
  | some s =>
    cases hvr : e.has "verbatim" with
    | false =>
      have hn : e.attribute? "verbatim" = none := by
        have hv : e.value? "verbatim" = none := by simpa [has] using hvr
        rw [attribute?,hv]
      simp [hn,Stroke.piece]
    | true =>
      have hb := he.block hvr
      have hv : e.value? "verbatim" = some (.text "block") := by
        rw [attribute?] at hb
        split at hb
        · next s hs => rw [hs,Option.some.inj hb]
        · cases hb
      simp only [hb,copyAttributes,foldl_cons,hv]
      rfl

lemma transition_strokes (last : Option String) (child : Element) :
  transition d last child = ((transition .final last child).1,(changeStrokes last child).map
    (Stroke.piece d w)) := by
  rw [transition,transition,changeStrokes]
  split
  · rfl
  · split <;> rfl

lemma memberMark_ok (hw : 0 ≤ w) (ord : Bool) (idx : Nat) :
    memberMark w ord idx = .ok (paddedMark w ord idx) := by
  rw [memberMark,if_neg (by omega)]
  rfl

mutual

lemma pieces_strokes (hw : 0 ≤ w) (depth : Nat) : ∀ {e : Element}, Throughout Readable e →
    pieces d w e = .ofList (written d w (strokes w depth e))
  | ⟨tag,attrs,text,tail,children⟩, he => by
    obtain ⟨hh,hk⟩ := throughout_iff.mp he
    rw [pieces,strokes,headerPieces_readable d hh,textPieces_readable d w hh,
      childPieces_strokes hw depth _ _ _ _ hk]
    simp only [written,ownStrokes,wrapStrokes,map_append,map_map,Stream.append,Stream.ofList,Stream.ofExcept,
      Option.toList_map,append_assoc]
    rfl

lemma childPieces_strokes (hw : 0 ≤ w) (depth : Nat) (order : Option Bool) (count idx : Nat)
    (last : Option String) : ∀ {es : List Element}, (∀ e ∈ es, Throughout Readable e) →
      childPieces d w order count idx last es =
        .ofList (written d w (childStrokes w depth order count idx last es))
  | [], _ => by
    rfl
  | e :: es, hes => by
    obtain ⟨he,hes⟩ := forall_mem_cons.mp hes
    simp only [childPieces]
    rw [childStrokes,pieces_strokes hw (inner depth order) he,transition_strokes d w,
      childPieces_strokes hw depth order count (idx + 1) _ hes]
    cases order <;> by_cases hm : idx + 1 < count <;> cases hn : e.attribute? "newlines" <;>
      simp [written,framed,endStrokes,markStrokes,hm,hn,memberMark_ok w hw,Stream.append,Stream.ofList,
        Stream.ofExcept,Stroke.piece,bind,Except.bind,pure,Except.pure]

end

end

def spanOf (text : String) : Element :=
  { tag := "text", attributes := [("layout",.text "span")], text := some text }

def blockOf (tag : String) (attributes : List (String × String)) (children : List Element) : Element :=
  { tag, attributes := attributes.map fun (k,v) => (k,.text v), children }

end Docweave.Tree
