import Docweave.Proofs.Base.Elements
import Docweave.Proofs.Comments.Scanning

namespace Docweave.Comment

open Block List

def settledLine (k : Nat) (allLed : Bool) : Strip → Line
  | .middle n m =>
    if allLed then lineOf (.middle n m)
    else
      { number := some n
        indent := some (min m.indent (k + 1) : Nat)
        text := some (String.ofList (shuffledText k m))
        ending := some (String.ofList (lineEnd m.after))
        part := some .middle }
  | s => lineOf s

def partOf : Strip → Option Part
  | .code _ _ => none
  | .start _ _ => some .start
  | .middle _ _ => some .middle
  | .finish _ _ => some .finish

lemma part_settledLine (k : Nat) (allLed : Bool) (s : Strip) : (settledLine k allLed s).part = partOf s := by
  cases s with
  | middle n m => cases allLed <;> rfl
  | _ => rfl

lemma hasSymbol_lineOf {s : Strip} (h : s.isCode = false) : hasSymbol (lineOf s) = !s.isBare := by
  cases s with
  | code n cs => cases h
  | start n m => rfl
  | middle n m => cases hl : m.leader <;> simp only [lineOf,Strip.isBare,hl] <;> rfl
  | finish n i => rfl

lemma survey_started (start : Int) {ss : List Strip} (h : ∀ s ∈ ss, s.isCode = false) :
  survey (some start) (ss.map lineOf) = .ok (some start,!ss.any Strip.isBare) := by
  induction ss with
  | nil => rfl
  | cons s ss ih =>
    rw [map_cons,survey]
    simp only [hasSymbol_lineOf (h s mem_cons_self),any_cons]
    cases hs : s.isBare with
    | true => rfl
    | false =>
      exact ih fun s' hs' => h s' (mem_cons_of_mem _ hs')

lemma Remark.isCode_later (r : Remark) : ∀ s ∈ r.later, s.isCode = false :=
  fun s hs => r.isCode_strips s (mem_cons_of_mem _ hs)

lemma Remark.partOf_later (r : Remark) : ∀ s ∈ r.later, partOf s ≠ some .start := by
  intro s hs
  rw [later,mem_append,mem_map,Option.mem_toList,Option.map_eq_some_iff] at hs
  rcases hs with ⟨p,-,rfl⟩ | ⟨p,-,rfl⟩ <;> simp [partOf]

lemma survey_strips (r : Remark) :
  survey none (r.strips.map lineOf) = .ok (some (r.mark.indent.length : Int),r.allLed) := by
  exact survey_started _ r.isCode_later

lemma spacesInt_natCast (n : Nat) : Text.spacesInt n = String.ofList (replicate n ' ') := rfl

lemma shuffleLine_lineOf (k : Nat) (s : Strip) :
  shuffleLine (some (k : Int)) (lineOf s) = .ok (settledLine k false s) := by
  cases s with
  | code n cs => rfl
  | start n m => rfl
  | finish n i => rfl
  | middle n m =>
    have he : excess (some (k : Int)) (lineOf (.middle n m)) = .ok ((m.indent - (k + 1) : Nat) : Int) := by
      simp only [excess,lineOf]
      split <;> congr 1 <;> omega
    have hi : (if ((m.indent - (k + 1) : Nat) : Int) > 0 then
        some ((m.indent : Int) - ((m.indent - (k + 1) : Nat) : Int)) else some (m.indent : Int)) =
        some ((min m.indent (k + 1) : Nat) : Int) := by
      split <;> congr 1 <;> omega
    have ht : Text.spacesInt ((m.indent - (k + 1) : Nat) : Int) ++
        ((if m.leader = .bare then none else some "*" : Option String).getD "") ++
        Text.spacesInt ((if m.leader = .starSpace then some 1 else none : Option Int).getD 0) ++
        String.ofList (bodyText m.after) = String.ofList (shuffledText k m) := by
      rw [shuffledText,spacesInt_natCast]
      have hz : Text.spacesInt 0 = "" := rfl
      have ho : Text.spacesInt 1 = " " := rfl
      rw [← String.toList_inj]
      cases m.leader <;> simp [Leader.symbol,Leader.margin,hz,ho]
    have hln : (if ((m.indent - (k + 1) : Nat) : Int) > 0 then
        { lineOf (.middle n m) with
          indent := (lineOf (.middle n m)).indent.map (· - ((m.indent - (k + 1) : Nat) : Int)) }
        else lineOf (.middle n m)) =
        { lineOf (.middle n m) with indent := some ((min m.indent (k + 1) : Nat) : Int) } := by
      rw [← hi]
      split <;> rfl
    have hp : ¬ (lineOf (.middle n m)).part ≠ some .middle := fun h => h rfl
    rw [shuffleLine,if_neg hp,he]
    simp only [bind,Except.bind,hln]
    split
    · rename_i hsm
      simp only [Bool.and_eq_true,decide_eq_true_eq,Bool.not_eq_true'] at hsm
      obtain ⟨⟨hz,hsy⟩,-⟩ := hsm
      have hb : m.leader = .bare := by
        have hl : hasSymbol (lineOf (.middle n m)) = false := hsy
        rw [hasSymbol_lineOf rfl] at hl
        simpa [Strip.isBare] using hl
      have hs : m.indent - (k + 1) = 0 := by omega
      have hbd : shuffledText k m = bodyText m.after := by
        simp [shuffledText,hs,hb,Leader.symbol,Leader.margin]
      simp only [lineOf,settledLine,hbd,hb]
      rfl
    · simp only [lineOf,Option.getD_some,ht]
      rfl

lemma surveyIndents_ok (start : Int) (allLed : Bool) (middle : Option Int) {ls : List Line}
  (h : ∀ l ∈ ls, l.part ≠ some .start) : ∃ r, surveyIndents (some start) allLed middle ls = .ok r := by
  induction ls generalizing middle with
  | nil => exact ⟨_,rfl⟩
  | cons l ls ih =>
    have hr (middle' : Option Int) := ih middle' fun l' hl' => h l' (mem_cons_of_mem _ hl')
    have hf : ∃ fits, indentFits (some start) l.indent = .ok fits := by
      rw [indentFits]
      split <;> exact ⟨_,rfl⟩
    obtain ⟨fits,hf⟩ := hf
    have hs (b : Bool) (middle' : Option Int) : ∃ r, (if b = true then
        surveyIndents (some start) allLed middle' ls else pure (middle',false)) = .ok r := by
      cases b with
      | true => exact hr middle'
      | false => exact ⟨_,rfl⟩
    rw [surveyIndents,if_neg (h l mem_cons_self)]
    split
    · exact hr middle
    cases middle with
    | none =>
      simp only [hf]
      exact hs _ _
    | some m =>
      exact hs _ _

lemma make_ok (r : Remark) (src : String) : ∃ b, Block.make (r.strips.map lineOf) (some src) = .ok b ∧
    b.lines = r.strips.map (settledLine r.mark.indent.length r.allLed) ∧
    b.indentStart = some (r.mark.indent.length : Int) ∧ b.allHaveSymbol = r.allLed := by
  have hm : (r.strips.map lineOf).mapM (shuffleLine (some (r.mark.indent.length : Int))) =
      .ok (r.strips.map (settledLine r.mark.indent.length false)) := by
    rw [mapM_ok_iff,forall₂_map_left_iff,forall₂_map_right_iff,forall₂_same]
    exact fun s _ => shuffleLine_lineOf _ s
  have hld (h : r.allLed = true) :
    r.strips.map lineOf = r.strips.map (settledLine r.mark.indent.length r.allLed) := by
    rw [h]
    refine map_congr_left fun s _ => ?_
    cases s <;> rfl
  have hlt : ∀ l ∈ (r.strips.map (settledLine r.mark.indent.length r.allLed)).drop 1, l.part ≠ some .start := by
    intro l hl
    obtain ⟨s,hs,rfl⟩ := mem_map.mp hl
    rw [part_settledLine]
    exact r.partOf_later s hs
  obtain ⟨⟨middle,inPlace⟩,hi⟩ :=
    surveyIndents_ok (r.mark.indent.length : Int) r.allLed none hlt
  simp only [Block.make,survey_strips,bind,Except.bind]
  cases h : r.allLed with
  | true =>
    rw [← hld h] at hi
    rw [h] at hi
    simp only [hi]
    exact ⟨_,rfl,(hld h).trans (by rw [h]),rfl,rfl⟩
  | false =>
    rw [h] at hi
    simp only [hm,hi]
    exact ⟨_,rfl,rfl,rfl,rfl⟩

structure IsBlock (r : Remark) (b : Block) : Prop where
  lines : b.lines = r.strips.map (settledLine r.mark.indent.length r.allLed)
  indentStart : b.indentStart = some (r.mark.indent.length : Int)
  allHaveSymbol : b.allHaveSymbol = r.allLed

def IsPiece : Passage → Piece → Prop
  | .code n cs, .code line => line = .of n (String.ofList cs)
  | .comment r, .block b => IsBlock r b
  | _, _ => False

lemma isPiece_code {n : Nat} {cs : List Char} {piece : Piece} (h : IsPiece (.code n cs) piece) :
  piece = .code (.of n (String.ofList cs)) := by
  cases piece with
  | block b => exact absurd h id
  | code line => exact congrArg _ h

lemma isPiece_comment {r : Remark} {piece : Piece} (h : IsPiece (.comment r) piece) :
  ∃ b, piece = .block b ∧ IsBlock r b := by
  cases piece with
  | code line => exact absurd h id
  | block b => exact ⟨b,rfl,h⟩

lemma gather_pending (src : Option String) (pending : List Line) {ls : List Line}
  (h : ∀ l ∈ ls, l.part ≠ some .finish) (rest : List Scanned) (fault : Option Fault) :
  gather src pending (ls.map .comment ++ rest) fault = gather src (pending ++ ls) rest fault := by
  induction ls generalizing pending with
  | nil => rw [map_nil,nil_append,append_nil]
  | cons l ls ih =>
    rw [map_cons,cons_append,gather]
    simp only [if_neg (h l mem_cons_self)]
    rw [ih _ fun l' hl' => h l' (mem_cons_of_mem _ hl'),append_assoc,singleton_append]

lemma map_scannedOf {ss : List Strip} (h : ∀ s ∈ ss, s.isCode = false) :
  ss.map scannedOf = (ss.map lineOf).map .comment := by
  rw [map_map]
  refine map_congr_left fun s hs => ?_
  cases s with
  | code n cs => exact absurd (h _ hs) (by simp [Strip.isCode])
  | _ => rfl

lemma gather_comment (r : Remark) (src : String) (rest : List Scanned) (hr : r.finish.isSome ∨ rest = []) :
  ∃ b, gather (some src) [] (r.strips.map scannedOf ++ rest) none =
      .cons (.block b) (gather (some src) [] rest none) ∧ IsBlock r b := by
  obtain ⟨b,hb,hln,hsr,hld⟩ := make_ok r src
  refine ⟨b,?_,hln,hsr,hld⟩
  rw [map_scannedOf r.isCode_strips]
  have ho : ∀ l ∈ r.front.map lineOf, l.part ≠ some .finish := by
    intro l hl
    obtain ⟨s,hs,rfl⟩ := mem_map.mp hl
    obtain rfl | ⟨n,m,rfl⟩ := Remark.mem_front hs <;> simp [lineOf]
  cases hf : r.finish with
  | none =>
    obtain rfl : rest = [] := by simpa [hf] using hr
    rw [Remark.strips_unfinished hf] at hb ⊢
    rw [gather_pending _ _ ho,nil_append]
    simp only [Remark.front,map_cons] at hb ⊢
    simp only [gather,hb]
    rfl
  | some p =>
    rw [Remark.strips_finish hf,map_append] at hb ⊢
    rw [map_append,append_assoc,gather_pending _ _ ho,nil_append]
    simp only [map_cons,map_nil,singleton_append]
    rw [gather]
    simp only [map_cons,map_nil] at hb
    have hfn : (lineOf (.finish p.1 p.2)).part = some .finish := rfl
    simp only [hfn,if_true,hb]

lemma gather_passages {ps : List Passage} (hps : Composed ps) (src : String) :
  ∃ pieces, gather (some src) [] ((ps.flatMap Passage.strips).map scannedOf) none =
      ⟨pieces,none⟩ ∧ Forall₂ IsPiece ps pieces := by
  induction ps with
  | nil => exact ⟨[],rfl,.nil⟩
  | cons p ps ih =>
    obtain ⟨pieces,hg,hp⟩ := ih hps.2
    rw [flatMap_cons,map_append]
    cases p with
    | code n cs =>
      refine ⟨.code (.of n (String.ofList cs)) :: pieces,?_,.cons rfl hp⟩
      simp only [Passage.strips,map_cons,map_nil,singleton_append,scannedOf]
      rw [gather]
      simp only [hg]
      rfl
    | comment r =>
      have hr : r.finish.isSome = true ∨ (ps.flatMap Passage.strips).map scannedOf = [] :=
        hps.1.imp_right fun hn => by rw [hn]; rfl
      obtain ⟨b,hb,hbl⟩ := gather_comment r src _ hr
      refine ⟨.block b :: pieces,?_,.cons hbl hp⟩
      rw [Passage.strips,hb,hg]
      rfl

end Docweave.Comment
