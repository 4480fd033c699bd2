import Docweave.Diff
import Mathlib.Algebra.Order.Ring.Int
import Mathlib.Data.List.Perm.Basic

namespace Docweave.Diff

open List

variable {left right : List String} {i j n stop' stop : Nat} {α : Type} {ms : List Match} {es group : List Edit}

def Agree (left right : List String) (i j n : Nat) : Prop := ∀ k < n, left[i + k]? = right[j + k]?

lemma Agree.append {m : Nat} (h : Agree left right i j m) (h' : Agree left right (i + m) (j + m) n) :
  Agree left right i j (m + n) := by
  intro k hk
  by_cases hkm : k < m
  · exact h k hkm
  · have hr := h' (k - m) (by omega)
    have hi : i + m + (k - m) = i + k := by omega
    have hj : j + m + (k - m) = j + k := by omega
    rwa [hi,hj] at hr

lemma getElem?_slice (l : List α) (i j k : Nat) : (slice l i j)[k]? = if k < j - i then l[i + k]? else none := by
  rw [slice,getElem?_take,getElem?_drop]

lemma length_slice {l : List α} (h : j ≤ l.length) : (slice l i j).length = j - i := by
  rw [slice,length_take,length_drop]
  omega

lemma slice_eq_of_agree (h : Agree left right i j n) : slice left i (i + n) = slice right j (j + n) := by
  refine ext_getElem? fun k => ?_
  rw [getElem?_slice,getElem?_slice,Nat.add_sub_cancel_left,Nat.add_sub_cancel_left]
  split
  · exact h k (by assumption)
  · rfl

structure Match.Within (left right : List String) (w : Window) (m : Match) : Prop where
  leftStart : w.leftStart ≤ m.left
  leftStop : m.left + m.size ≤ w.leftStop
  rightStart : w.rightStart ≤ m.right
  rightStop : m.right + m.size ≤ w.rightStop
  agree : Agree left right m.left m.right m.size

variable {w : Window}

structure RunTo (left right : List String) (w : Window) (i j n : Nat) : Prop where
  left_le : n ≤ i
  right_le : n ≤ j
  within : Match.Within left right w ⟨i - n,j - n,n⟩

lemma RunTo.step (h : RunTo left right w i j n) (hi : i < w.leftStop) (hj : j < w.rightStop)
  (heq : left[i]? = right[j]?) : RunTo left right w (i + 1) (j + 1) (n + 1) := by
  obtain ⟨hl,hr,hs,-,hs',-,ha⟩ := h
  have ho : Agree left right (i - n + n) (j - n + n) 1 := by
    intro k hk
    obtain rfl : k = 0 := by omega
    rwa [Nat.sub_add_cancel hl,Nat.sub_add_cancel hr]
  have hal := ha.append ho
  refine ⟨by omega,by omega,?_,?_,?_,?_,?_⟩
  · simpa using hs
  · dsimp only
    omega
  · simpa using hs'
  · dsimp only
    omega
  · simpa using hal

lemma mem_placesOf {line : String} {ls : List String} (h : j ∈ placesOf line i ls) :
  i ≤ j ∧ ls[j - i]? = some line := by
  induction ls generalizing i with
  | nil => cases h
  | cons l ls ih =>
    have hlt (hj : j ∈ placesOf line (i + 1) ls) : i ≤ j ∧ (l :: ls)[j - i]? = some line := by
      obtain ⟨hle,hln⟩ := ih hj
      obtain ⟨k,rfl⟩ := Nat.exists_eq_add_of_le hle
      have hk : i + 1 + k - i = (i + 1 + k - (i + 1)) + 1 := by omega
      rw [hk]
      exact ⟨by omega,hln⟩
    rw [placesOf] at h
    split at h
    · rename_i hl
      rcases mem_cons.mp h with rfl | hj
      · rw [Nat.sub_self,hl]
        exact ⟨Nat.le_refl j,rfl⟩
      · exact hlt hj
    · exact hlt h

lemma line_of_target {places : List Nat} (h : (targets left right)[i]? = some places) (hj : j ∈ places) :
  left[i]? = right[j]? := by
  rw [targets,getElem?_map] at h
  obtain ⟨line,hl,rfl⟩ := Option.map_eq_some_iff.mp h
  dsimp only at hj
  split at hj
  · cases hj
  · rw [hl,(mem_placesOf hj).2.symm,Nat.sub_zero]

structure Search.Sound (left right : List String) (w : Window) (i : Nat) (s : Search) : Prop where
  best : s.best.Within left right w
  ends : ∀ p ∈ s.ends, RunTo left right w i (p.1 + 1) p.2

lemma best_within {runs : List (Nat × Nat)} {best : Match} (h : best.Within left right w)
    (hr : ∀ p ∈ runs, RunTo left right w i (p.1 + 1) p.2) :
    (runs.foldl (fun (best : Match) (j,k) => if best.size < k then ⟨i - k,j + 1 - k,k⟩ else best)
      best).Within left right w := by
  induction runs generalizing best with
  | nil => exact h
  | cons p runs ih =>
    rw [forall_mem_cons] at hr
    refine ih ?_ hr.2
    dsimp only
    split
    · exact hr.1.within
    · exact h

lemma Search.Sound.extendRuns {i : Nat} {s : Search} {places : List Nat}
  (h : s.Sound left right w i) (hi : w.leftStart ≤ i) (hst : i < w.leftStop)
  (hpl : ∀ j ∈ places, left[i]? = right[j]?) : (extendRuns w i s places).Sound left right w (i + 1) := by
  have hr : ∀ p ∈ (Diff.extendRuns w i s places).ends, RunTo left right w (i + 1) (p.1 + 1) p.2 := by
    intro p hp
    obtain ⟨j,hj,rfl⟩ := mem_map.mp hp
    obtain ⟨hj,hw⟩ := mem_filter.mp hj
    simp only [Bool.and_eq_true,decide_eq_true_eq] at hw
    refine RunTo.step ?_ hst hw.2 (hpl j hj)
    have hn : RunTo left right w i j 0 :=
      ⟨by omega,by omega,hi,by dsimp only; omega,hw.1,by dsimp only; omega,fun k hk => absurd hk (Nat.not_lt_zero k)⟩
    split
    · exact hn
    rename_i hps
    cases hf : s.ends.lookup (j - 1) with
    | none => exact hn
    | some k =>
      obtain ⟨before,after,hs,-⟩ := lookup_eq_some_iff.mp hf
      have hrn := h.ends (j - 1,k) (by rw [hs]; simp)
      rwa [Nat.sub_add_cancel (Nat.one_le_iff_ne_zero.mpr hps)] at hrn
  exact ⟨best_within h.best hr,hr⟩

lemma search_sound {places : List (List Nat)} {s : Search}
    (h : s.Sound left right w (w.leftStart + n))
  (hs : w.leftStart + n + places.length ≤ w.leftStop)
  (hp : ∀ t ps, places[t]? = some ps → ∀ j ∈ ps, left[w.leftStart + n + t]? = right[j]?) :
  ((places.zipIdx n).foldl (fun s (ps,i) => extendRuns w (w.leftStart + i) s ps) s).best.Within
    left right w := by
  induction places generalizing n s with
  | nil => exact h.best
  | cons ps places ih =>
    rw [length_cons] at hs
    refine ih (h.extendRuns (by omega) (by omega) (hp 0 ps rfl)) (by omega) fun t qs hqs => ?_
    have hl := hp (t + 1) qs hqs
    rwa [show w.leftStart + n + (t + 1) = w.leftStart + (n + 1) + t by omega] at hl

structure Window.Of (left right : List String) (w : Window) : Prop where
  left_le : w.leftStart ≤ w.leftStop
  left_length : w.leftStop ≤ left.length
  right_le : w.rightStart ≤ w.rightStop
  right_length : w.rightStop ≤ right.length

lemma commonLength_le (xs ys : List String) : commonLength xs ys ≤ xs.length ∧
    commonLength xs ys ≤ ys.length := by
  induction xs generalizing ys with
  | nil => simp [commonLength]
  | cons x xs ih =>
    cases ys with
    | nil => simp [commonLength]
    | cons y ys =>
      rw [commonLength,length_cons,length_cons]
      have hr := ih ys
      split <;> omega

lemma commonLength_agree (xs ys : List String) : ∀ k < commonLength xs ys, xs[k]? = ys[k]? := by
  induction xs generalizing ys with
  | nil => simp [commonLength]
  | cons x xs ih =>
    cases ys with
    | nil => simp [commonLength]
    | cons y ys =>
      rw [commonLength]
      split
      · rename_i hxy
        intro k hk
        cases k with
        | zero => rw [hxy]; rfl
        | succ k => exact ih ys k (by omega)
      · intro k hk
        exact absurd hk (Nat.not_lt_zero k)

lemma agree_forth (hs : stop ≤ left.length) (hs' : stop' ≤ right.length)
  (hn : n = commonLength (slice left i stop) (slice right j stop')) :
  n ≤ stop - i ∧ n ≤ stop' - j ∧ Agree left right i j n := by
  obtain ⟨hle,hle'⟩ := commonLength_le (slice left i stop) (slice right j stop')
  rw [length_slice hs,← hn] at hle
  rw [length_slice hs',← hn] at hle'
  refine ⟨hle,hle',fun k hk => ?_⟩
  have hsm := commonLength_agree _ _ k (hn ▸ hk)
  rwa [getElem?_slice,getElem?_slice,if_pos (by omega),if_pos (by omega)] at hsm

lemma getElem?_reverse_slice {l : List String} {k : Nat} (hj : j ≤ l.length) (hk : k < j - i) :
  (slice l i j).reverse[k]? = l[j - 1 - k]? := by
  rw [getElem?_reverse (by rw [length_slice hj]; exact hk),getElem?_slice,length_slice hj,if_pos (by omega)]
  congr 1
  omega

lemma agree_back {start start' : Nat} (hi : i ≤ left.length) (hj : j ≤ right.length)
  (hn : n = commonLength (slice left start i).reverse (slice right start' j).reverse) :
  n ≤ i - start ∧ n ≤ j - start' ∧ Agree left right (i - n) (j - n) n := by
  obtain ⟨hle,hle'⟩ := commonLength_le (slice left start i).reverse (slice right start' j).reverse
  rw [length_reverse,length_slice hi,← hn] at hle
  rw [length_reverse,length_slice hj,← hn] at hle'
  refine ⟨hle,hle',fun k hk => ?_⟩
  have hs := commonLength_agree _ _ (n - 1 - k) (show n - 1 - k < _ by rw [← hn]; omega)
  rw [getElem?_reverse_slice hi (by omega),getElem?_reverse_slice hj (by omega)] at hs
  rwa [show i - 1 - (n - 1 - k) = i - n + k by omega,show j - 1 - (n - 1 - k) = j - n + k by omega] at hs

lemma Match.Within.grow {m : Match} {back forth : Nat} (h : m.Within left right w)
  (hb : back ≤ m.left - w.leftStart ∧ back ≤ m.right - w.rightStart ∧
    Agree left right (m.left - back) (m.right - back) back)
  (hf : forth ≤ w.leftStop - (m.left + m.size) ∧ forth ≤ w.rightStop - (m.right + m.size) ∧
    Agree left right (m.left + m.size) (m.right + m.size) forth) :
  Match.Within left right w ⟨m.left - back,m.right - back,m.size + back + forth⟩ := by
  obtain ⟨hl,hl',hr,hr',hag⟩ := h
  obtain ⟨hb,hb',hp⟩ := hb
  obtain ⟨hf,hf',haf⟩ := hf
  have hm : m.left - back + back = m.left := by omega
  have hm' : m.right - back + back = m.right := by omega
  have hs : m.left - back + (back + m.size) = m.left + m.size := by omega
  have hs' : m.right - back + (back + m.size) = m.right + m.size := by omega
  have hi : Agree left right (m.left - back) (m.right - back) (back + m.size) :=
    hp.append (by rwa [hm,hm'])
  have ha : Agree left right (m.left - back) (m.right - back) (back + m.size + forth) :=
    hi.append (by rwa [hs,hs'])
  refine ⟨?_,?_,?_,?_,?_⟩
  · dsimp only
    omega
  · dsimp only
    omega
  · dsimp only
    omega
  · dsimp only
    omega
  · rwa [Nat.add_comm back m.size] at ha

lemma best_of_search (hw : w.Of left right) : ((slice (targets left right) w.leftStart w.leftStop).zipIdx.foldl
    (fun s (ps,i) => extendRuns w (w.leftStart + i) s ps)
    ⟨⟨w.leftStart,w.rightStart,0⟩,[]⟩).best.Within left right w := by
  have hs : Search.Sound left right w (w.leftStart + 0) ⟨⟨w.leftStart,w.rightStart,0⟩,[]⟩ :=
    ⟨⟨Nat.le_refl _,hw.left_le,Nat.le_refl _,hw.right_le,fun k hk => absurd hk (Nat.not_lt_zero k)⟩,
      forall_mem_nil _⟩
  have hl : (slice (targets left right) w.leftStart w.leftStop).length ≤ w.leftStop - w.leftStart :=
    length_take_le _ _
  have hle := hw.left_le
  refine search_sound hs (by omega) fun t ps hps => ?_
  rw [getElem?_slice] at hps
  split at hps
  · exact fun j hj => line_of_target hps hj
  · cases hps

lemma longest_within (hw : w.Of left right) :
    (longest left right (targets left right) w).Within left right w := by
  have hb := best_of_search hw
  refine hb.grow (agree_back ?_ ?_ rfl) (agree_forth hw.left_length hw.right_length rfl)
  · exact Nat.le_trans (Nat.le_add_right _ _) (Nat.le_trans hb.leftStop hw.left_length)
  · exact Nat.le_trans (Nat.le_add_right _ _) (Nat.le_trans hb.rightStop hw.right_length)

def Steps (left right : List String) : Nat → Nat → List Match → Nat → Nat → Prop
  | i, j, [], stop, stop' => i ≤ stop ∧ j ≤ stop'
  | i, j, m :: ms, stop, stop' =>
    i ≤ m.left ∧ j ≤ m.right ∧ Agree left right m.left m.right m.size ∧
      Steps left right (m.left + m.size) (m.right + m.size) ms stop stop'

lemma Steps.append {ns : List Match} {m : Match} (h : Steps left right i j ms m.left m.right)
  (hm : Agree left right m.left m.right m.size)
  (h' : Steps left right (m.left + m.size) (m.right + m.size) ns stop stop') :
  Steps left right i j (ms ++ m :: ns) stop stop' := by
  induction ms generalizing i j with
  | nil => exact ⟨h.1,h.2,hm,h'⟩
  | cons n ms ih => exact ⟨h.1,h.2.1,h.2.2.1,ih h.2.2.2⟩

lemma matchesIn_steps (fuel : Nat) (hw : w.Of left right) :
  Steps left right w.leftStart w.rightStart (matchesIn left right (targets left right) fuel w)
    w.leftStop w.rightStop := by
  induction fuel generalizing w with
  | zero => exact ⟨hw.left_le,hw.right_le⟩
  | succ fuel ih =>
    have hln := longest_within hw
    rw [matchesIn]
    generalize longest left right (targets left right) w = m at hln ⊢
    split
    · exact ⟨hw.left_le,hw.right_le⟩
    have hi {v : Window} (hv : v.Of left right) : Steps left right v.leftStart v.rightStart
          (if v.leftStart < v.leftStop ∧ v.rightStart < v.rightStop then
            matchesIn left right (targets left right) fuel v else []) v.leftStop v.rightStop := by
      split
      · exact ih hv
      · exact ⟨hv.left_le,hv.right_le⟩
    obtain ⟨hlf,hlf',hr,hr',ha⟩ := hln
    obtain ⟨-,hl,-,hl'⟩ := hw
    exact (hi (v := ⟨w.leftStart,m.left,w.rightStart,m.right⟩)
      ⟨hlf,by dsimp only; omega,hr,by dsimp only; omega⟩).append ha
      (hi (v := ⟨m.left + m.size,w.leftStop,m.right + m.size,w.rightStop⟩) ⟨hlf',hl,hr',hl'⟩)

lemma Steps.merge (h : Steps left right i j ms stop stop') :
    Steps left right i j (mergeMatches ms) stop stop' := by
  fun_induction mergeMatches ms generalizing i j with
  | case1 m n rest ht ih =>
    obtain ⟨hm,hm',ha,hn,hn',ha',hr⟩ := h
    refine ih ⟨hm,hm',ha.append ?_,?_⟩
    · rwa [ht.1,ht.2]
    · rwa [← Nat.add_assoc,← Nat.add_assoc,ht.1,ht.2]
  | case2 m n rest ht ih => exact ⟨h.1,h.2.1,h.2.2.1,ih h.2.2.2⟩
  | case3 ms hms => exact h

lemma allMatches_steps (left right : List String) :
  Steps left right 0 0 (allMatches left right) left.length right.length := by
  have hw : Window.Of left right ⟨0,left.length,0,right.length⟩ :=
    ⟨Nat.zero_le _,Nat.le_refl _,Nat.zero_le _,Nat.le_refl _⟩
  exact (matchesIn_steps _ hw).merge

def Tiles (left right : List String) : Nat → Nat → List Edit → Nat → Nat → Prop
  | i, j, [], stop, stop' => i = stop ∧ j = stop'
  | i, j, e :: es, stop, stop' =>
    e.window.leftStart = i ∧ e.window.rightStart = j ∧ i ≤ e.window.leftStop ∧
      j ≤ e.window.rightStop ∧
      (e.kind = .equal → slice left i e.window.leftStop = slice right j e.window.rightStop) ∧
      (e.kind = .insert → e.window.leftStop = i) ∧ (e.kind = .delete → e.window.rightStop = j) ∧
      Tiles left right e.window.leftStop e.window.rightStop es stop stop'

lemma gapEdit_tiles {i' j' : Nat} (hi : i ≤ i') (hj : j ≤ j') (h : Tiles left right i' j' es stop stop') :
  Tiles left right i j (gapEdit ⟨i,i',j,j'⟩ ++ es) stop stop' := by
  rw [gapEdit]
  by_cases hl : j < j'
  · rw [decide_eq_true hl]
    by_cases hs : i < i'
    · rw [decide_eq_true hs]
      exact ⟨rfl,rfl,hi,hj,nofun,nofun,nofun,h⟩
    · obtain rfl : i = i' := by omega
      rw [decide_eq_false hs]
      exact ⟨rfl,rfl,hi,hj,nofun,fun _ => rfl,nofun,h⟩
  obtain rfl : j = j' := by omega
  rw [decide_eq_false hl]
  by_cases hs : i < i'
  · rw [decide_eq_true hs]
    exact ⟨rfl,rfl,hi,hj,nofun,nofun,fun _ => rfl,h⟩
  · obtain rfl : i = i' := by omega
    rw [decide_eq_false hs]
    exact h

lemma editsFrom_tiles (h : Steps left right i j ms stop stop') :
  Tiles left right i j (editsFrom stop stop' i j ms) stop stop' := by
  induction ms generalizing i j with
  | nil =>
    rw [editsFrom,← append_nil (gapEdit _)]
    exact gapEdit_tiles h.1 h.2 ⟨rfl,rfl⟩
  | cons m ms ih =>
    obtain ⟨hi,hj,ha,hr⟩ := h
    refine gapEdit_tiles hi hj ⟨rfl,rfl,?_,?_,fun _ => slice_eq_of_agree ha,nofun,nofun,ih hr⟩
    · exact Nat.le_add_right _ _
    · exact Nat.le_add_right _ _

lemma slice_append {l : List α} {k : Nat} (hij : i ≤ j) (hjk : j ≤ k) :
    slice l i j ++ slice l j k = slice l i k := by
  obtain ⟨m,rfl⟩ := Nat.exists_eq_add_of_le hij
  obtain ⟨n,rfl⟩ := Nat.exists_eq_add_of_le hjk
  rw [slice,slice,slice,Nat.add_sub_cancel_left,Nat.add_sub_cancel_left,Nat.add_assoc i m n,
    Nat.add_sub_cancel_left,← drop_drop,take_add]

def oldPart (left : List String) (e : Edit) : List String :=
  slice left e.window.leftStart e.window.leftStop

def newPart (right : List String) (e : Edit) : List String :=
  slice right e.window.rightStart e.window.rightStop

def gain (left right : List String) (x : String) (e : Edit) : Int :=
  (newPart right e).count x - (oldPart left e).count x

def isChange (e : Edit) : Bool := e.kind != .equal

lemma Tiles.gain {i j stop stop' : Nat} {es : List Edit} (h : Tiles left right i j es stop stop')
  (x : String) : i ≤ stop ∧ j ≤ stop' ∧ ((es.filter isChange).map (gain left right x)).sum =
    (slice right j stop').count x - (slice left i stop).count x := by
  induction es generalizing i j with
  | nil =>
    obtain ⟨rfl,rfl⟩ := h
    simp [slice]
  | cons e es ih =>
    obtain ⟨rfl,rfl,hl,hr,he,-,-,hrs⟩ := h
    obtain ⟨hs,hs',hsm⟩ := ih hrs
    have hg : ((List.filter isChange (e :: es)).map (Diff.gain left right x)).sum =
        Diff.gain left right x e + ((es.filter isChange).map (Diff.gain left right x)).sum := by
      by_cases hc : isChange e = true
      · rw [filter_cons_of_pos hc,map_cons,sum_cons]
      · have hz : Diff.gain left right x e = 0 := by
          rw [Diff.gain,newPart,oldPart,he (by simpa [isChange] using hc),Int.sub_self]
        rw [filter_cons_of_neg hc,hz,Int.zero_add]
    rw [hg,hsm,← slice_append hl hs,← slice_append hr hs',count_append,count_append,Diff.gain,newPart,oldPart]
    omega

lemma filter_trimFirst (n : Nat) (es : List Edit) : (trimFirst n es).filter isChange = es.filter isChange := by
  unfold trimFirst
  split
  · rfl
  · rfl

lemma filter_trimLast (n : Nat) (es : List Edit) : (trimLast n es).filter isChange = es.filter isChange := by
  unfold trimLast
  split
  · rename_i w hl
    obtain ⟨before,rfl⟩ := getLast?_eq_some_iff.mp hl
    rw [dropLast_concat,filter_append,filter_append]
    rfl
  · rfl

lemma filter_groupFrom (n : Nat) (group es : List Edit) :
  (groupFrom n group es).flatten.filter isChange = (group ++ es).filter isChange := by
  fun_induction groupFrom n group es with
  | case1 => rfl
  | case2 w => rfl
  | case3 group _ _ => simp
  | case4 group w rest hl ih =>
    rw [flatten_cons,filter_append,ih]
    simp [isChange]
  | case5 group w rest hs ih => rw [ih,append_assoc,singleton_append]
  | case6 group e rest hne ih => rw [ih,append_assoc,singleton_append]

lemma filter_groups (n : Nat) (es : List Edit) : (groups n es).flatten.filter isChange = es.filter isChange := by
  rw [groups,filter_groupFrom,nil_append,filter_trimLast,filter_trimFirst]

def tally (x : String) : Bool → List String → Int
  | _, [] => 0
  | side, line :: rest =>
    match line.toList with
    | '*' :: '*' :: _ => tally x false rest
    | '-' :: '-' :: _ => tally x true rest
    | ' ' :: _ => tally x side rest
    | cs => (if cs.drop 2 = x.toList then (if side then 1 else -1) else 0) + tally x side rest

def sign (side : Bool) : Int := if side then 1 else -1

lemma tally_stars (x : String) (side : Bool) (line : String) (rest : List String) :
  tally x side (("***" ++ line) :: rest) = tally x false rest := by
  rw [tally,String.toList_append]
  rfl

lemma tally_dashes (x : String) (side : Bool) (line : String) (rest : List String) :
  tally x side (("---" ++ line) :: rest) = tally x true rest := by
  rw [tally,String.toList_append]
  rfl

lemma tally_equal (x : String) (side : Bool) (line : String) (rest : List String) :
  tally x side ((Kind.equal.mark ++ line) :: rest) = tally x side rest := by
  rw [tally,String.toList_append]
  rfl

lemma tally_change {kind : Kind} (h : kind ≠ .equal) (x : String) (side : Bool) (line : String)
    (rest : List String) :
    tally x side ((kind.mark ++ line) :: rest) =
      (if line = x then sign side else 0) + tally x side rest := by
  have hl : (if line.toList = x.toList then sign side else 0) = if line = x then sign side else 0 := by
    simp only [String.toList_inj]
  cases kind with
  | equal => exact absurd rfl h
  | insert | delete | replace =>
    rw [tally,String.toList_append,← hl]
    rfl

lemma tally_lines {e : Edit} (x : String) (side : Bool) (ls rest : List String) :
    tally x side (ls.map (e.kind.mark ++ ·) ++ rest) =
      (if isChange e then sign side * ls.count x else 0) + tally x side rest := by
  induction ls with
  | nil => simp
  | cons line ls ih =>
    rw [map_cons,cons_append]
    by_cases hk : e.kind = .equal
    · have hs : isChange e = false := by simp [isChange,hk]
      rw [hk] at ih ⊢
      rw [tally_equal,ih,hs]
      rfl
    have hc : isChange e := by simp [isChange,hk]
    rw [tally_change hk,ih,hc,count_cons]
    by_cases hl : line = x
    · simp only [hl,beq_self_eq_true]
      push_cast
      rw [Int.mul_add]
      omega
    · simp [hl]

def shownLines (part : Edit → List String) (es : List Edit) : List String :=
  es.flatMap fun e => (part e).map (e.kind.mark ++ ·)

def amount (x : String) (part : Edit → List String) (es : List Edit) : Int :=
  ((es.filter isChange).map fun e => ((part e).count x : Int)).sum

lemma amount_cons {e : Edit} (h : isChange e) (x : String) (part : Edit → List String)
  (es : List Edit) : amount x part (e :: es) = (part e).count x + amount x part es := by
  rw [amount,filter_cons_of_pos h,map_cons,sum_cons,amount]

lemma tally_shownLines (x : String) (side : Bool) (part : Edit → List String) (es : List Edit)
  (rest : List String) : tally x side (shownLines part es ++ rest) =
    sign side * amount x part es + tally x side rest := by
  induction es with
  | nil => simp [shownLines,amount]
  | cons e es ih =>
    have hf : shownLines part (e :: es) ++ rest = (part e).map (e.kind.mark ++ ·) ++
      (shownLines part es ++ rest) := by
      rw [shownLines,flatMap_cons,append_assoc,shownLines]
    rw [hf,tally_lines,ih]
    by_cases hc : isChange e = true
    · rw [amount_cons hc,hc,if_pos rfl,Int.mul_add,Int.add_assoc]
    · rw [if_neg hc,Int.zero_add,amount,amount,filter_cons_of_neg hc]

def Fair (left right : List String) (e : Edit) : Prop :=
  (e.kind = .insert → oldPart left e = []) ∧ (e.kind = .delete → newPart right e = [])

lemma Tiles.fair (h : Tiles left right i j es stop stop') : ∀ e ∈ es, Fair left right e := by
  induction es generalizing i j with
  | nil => exact forall_mem_nil _
  | cons e es ih =>
    obtain ⟨rfl,rfl,-,-,-,hi,hd,hr⟩ := h
    refine forall_mem_cons.mpr ⟨⟨fun hk => ?_,fun hk => ?_⟩,ih hr⟩
    · rw [oldPart,hi hk,slice,Nat.sub_self,take_zero]
    · rw [newPart,hd hk,slice,Nat.sub_self,take_zero]

lemma sum_gain (x : String) (h : ∀ e ∈ es.filter isChange, Fair left right e) :
  ((es.filter isChange).map (gain left right x)).sum = amount x (newPart right) (es.filter (·.kind != .delete)) -
      amount x (oldPart left) (es.filter (·.kind != .insert)) := by
  induction es with
  | nil => rfl
  | cons e es ih =>
    obtain ⟨kind,w⟩ := e
    cases kind with
    | equal => exact ih h
    | replace =>
      obtain ⟨-,hr⟩ := forall_mem_cons.mp h
      rw [filter_cons_of_pos rfl,filter_cons_of_pos rfl,filter_cons_of_pos rfl,
        map_cons,sum_cons,ih hr,amount_cons rfl,amount_cons rfl,gain]
      omega
    | insert =>
      obtain ⟨⟨hn,-⟩,hr⟩ := forall_mem_cons.mp h
      rw [filter_cons_of_pos rfl,filter_cons_of_pos rfl,filter_cons_of_neg (by simp),
        map_cons,sum_cons,ih hr,amount_cons rfl,gain,hn rfl,count_nil]
      omega
    | delete =>
      obtain ⟨⟨-,hn⟩,hr⟩ := forall_mem_cons.mp h
      rw [filter_cons_of_pos rfl,filter_cons_of_neg (by simp),filter_cons_of_pos rfl,
        map_cons,sum_cons,ih hr,amount_cons rfl,gain,hn rfl,count_nil]
      omega

lemma shown_old (h : group.any isLeft = false) : (group.filter (·.kind != .insert)).filter isChange = [] := by
  rw [filter_filter,filter_eq_nil_iff]
  intro e he
  have hno := any_eq_false.mp h e he
  cases hk : e.kind <;> simp [isLeft,isChange,hk] at hno ⊢

lemma shown_new (h : group.any isRight = false) : (group.filter (·.kind != .delete)).filter isChange = [] := by
  rw [filter_filter,filter_eq_nil_iff]
  intro e he
  have hno := any_eq_false.mp h e he
  cases hk : e.kind <;> simp [isRight,isChange,hk] at hno ⊢

lemma tally_side (x : String) (side shown : Bool) (part : Edit → List String) (es : List Edit)
    (rest : List String)
    (h : shown = false → es.filter isChange = []) :
    tally x side ((if shown then shownLines part es else []) ++ rest) =
      sign side * amount x part es + tally x side rest := by
  cases shown with
  | true => exact tally_shownLines x side part es rest
  | false => simp [amount,h rfl]

lemma tally_showGroup (x : String) (side : Bool) (rest : List String)
  (hr : tally x true rest = tally x side rest) (h : ∀ e ∈ group.filter isChange, Fair left right e) :
  tally x side (showGroup left right group ++ rest) =
    ((group.filter isChange).map (gain left right x)).sum + tally x side rest := by
  cases hh : group.head? with
  | none =>
    rw [head?_eq_none_iff.mp hh]
    simp [showGroup]
  | some first =>
    cases hl : group.getLast? with
    | none =>
      rw [getLast?_eq_none_iff.mp hl] at hh
      cases hh
    | some last =>
      have hs : ∃ old new, showGroup left right group =
          ["***" ++ "************\n","***" ++ old] ++
            (if group.any isLeft then shownLines (oldPart left) (group.filter (·.kind != .insert))
              else []) ++
            ["---" ++ new] ++
            (if group.any isRight then shownLines (newPart right) (group.filter (·.kind != .delete))
              else []) := by
        rw [showGroup,hh,hl]
        exact ⟨" " ++ range first.window.leftStart last.window.leftStop ++ " ****\n",
          " " ++ range first.window.rightStart last.window.rightStop ++ " ----\n",rfl⟩
      obtain ⟨old,new,hs⟩ := hs
      rw [hs,append_assoc,append_assoc,append_assoc,cons_append,
        cons_append,nil_append,tally_stars,tally_stars,tally_side _ _ _ _ _ _ shown_old,
        cons_append,nil_append,tally_dashes,tally_side _ _ _ _ _ _ shown_new,hr,
        sum_gain x h,sign,sign]
      simp only [if_true,Bool.false_eq_true,if_false]
      omega

lemma tally_groups {gs : List (List Edit)} (x : String) (side : Bool)
  (h : ∀ e ∈ gs.flatten.filter isChange, Fair left right e) : tally x side (gs.flatMap (showGroup left right)) =
    ((gs.flatten.filter isChange).map (gain left right x)).sum := by
  induction gs generalizing side with
  | nil => rfl
  | cons g gs ih =>
    rw [flatten_cons,filter_append,forall_mem_append] at h
    rw [flatMap_cons,tally_showGroup x side _ ((ih true h.2).trans (ih side h.2).symm) h.1,
      ih side h.2,flatten_cons,filter_append,map_append,sum_append]

lemma tally_context (n : Nat) (leftName rightName : String) (left right : List String) (x : String) :
  tally x false (context n leftName rightName left right) = right.count x - left.count x := by
  have ht : Tiles left right 0 0 (edits left right) left.length right.length :=
    editsFrom_tiles (allMatches_steps left right)
  have hf : ∀ e ∈ (groups n (edits left right)).flatten.filter isChange, Fair left right e := by
    rw [filter_groups]
    exact fun e he => ht.fair e (mem_of_mem_filter he)
  have ha : ((((groups n (edits left right)).flatten.filter isChange)).map (gain left right x)).sum =
      right.count x - left.count x := by
    rw [filter_groups,(ht.gain x).2.2,slice,slice,drop_zero,drop_zero,Nat.sub_zero,
      Nat.sub_zero,take_length,take_length]
  rw [context]
  split
  · rename_i hn
    rw [List.isEmpty_iff.mp hn] at ha
    exact ha
  · change tally x false (("***" ++ (" " ++ leftName ++ "\n")) :: ("---" ++ (" " ++ rightName ++ "\n")) ::
      (groups n (edits left right)).flatMap (showGroup left right)) = _
    rw [tally_stars,tally_dashes,tally_groups x true hf,ha]

lemma perm_of_context {leftName rightName : String} {right' : List String}
  (h : context n leftName rightName left right = context n leftName rightName left right') :
  right.Perm right' := by
  rw [perm_iff_count]
  intro x
  have hs := tally_context n leftName rightName left right x
  rw [h,tally_context] at hs
  omega

end Docweave.Diff
