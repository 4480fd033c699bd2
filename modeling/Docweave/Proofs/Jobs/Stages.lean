import Docweave.Job.Staged
import Docweave.Proofs.Base.Elements

namespace Docweave

open List

namespace Element

structure Kept (e e' : Element) : Prop where
  tag : e'.tag = e.tag
  text : e'.text = e.text
  leaf : e.children = [] → e' = e

lemma Kept.refl (e : Element) : Kept e e := ⟨rfl,rfl,fun _ => rfl⟩

lemma Kept.trans {a b c : Element} (hab : Kept a b) (hbc : Kept b c) : Kept a c := by
  refine ⟨hbc.tag.trans hab.tag,hbc.text.trans hab.text,fun h => ?_⟩
  obtain rfl := hab.leaf h
  exact hbc.leaf h

lemma kept_children {e : Element} {es : List Element} (h : e.children = [] → es = []) :
    Kept e { e with children := es } := by
  refine ⟨rfl,rfl,fun hn => ?_⟩
  cases e
  simp_all

lemma kept_modifyAt (f : Element → Element) {addr : Address} (h : addr ≠ []) (e : Element) :
  Kept e (e.modifyAt f addr) := by
  cases addr with
  | nil => exact absurd rfl h
  | cons i rest =>
    refine kept_children fun hn => ?_
    rw [hn,modify_nil]

end Element

namespace Tree

open Element

variable {e e' : Element} {d : Edition}

lemma changeAt_ok {f : Element → Except Fault Element} {addr : Address} (h : changeAt f addr e = .ok e') :
  e' = e ∨ ∃ x x', e.at? addr = some x ∧ f x = .ok x' ∧ e' = e.modifyAt (fun _ => x') addr := by
  rw [changeAt] at h
  split at h
  · cases h
    exact .inl rfl
  · next x hx =>
      obtain ⟨x',hx',rfl⟩ := map_ok h
      exact .inr ⟨x,x',hx,hx',rfl⟩

lemma changeAt_kept {f : Element → Except Fault Element} (hf : ∀ {e e'}, f e = .ok e' → Kept e e')
  {addr : Address} (h : changeAt f addr e = .ok e') : Kept e e' := by
  rcases changeAt_ok h with rfl | ⟨x,x',hx,hx',rfl⟩
  · exact .refl _
  cases addr with
  | nil =>
    cases hx
    exact hf hx'
  | cons i rest => exact kept_modifyAt _ (cons_ne_nil _ _) e

lemma onGrandchildren_run {test : Element → Bool} {step : Nat → Nat → Element → Except Fault Element}
  {R : Element → Element → Prop} (hr : ∀ e, R e e) (ht : ∀ {a b c}, R a b → R b c → R a c)
  (hs : ∀ {addr i j e e'}, changeAt (step i j) addr e = .ok e' → R e e') {fuel : Nat}
  (h : onGrandchildren test step fuel e = .ok e') : R e e' := by
  induction fuel generalizing e with
  | zero =>
    cases h
    exact hr _
  | succ fuel ih =>
    rw [onGrandchildren] at h
    split at h
    · cases h
      exact hr _
    · obtain ⟨changed,hc,h⟩ := bind_ok h
      exact ht (hs hc) (ih h)

lemma kept_of_child {i : Nat} {p : Element} {es : List Element} (h : e.children[i]? = some p) :
    Kept e { e with children := es } := by
  refine kept_children fun hn => ?_
  rw [hn] at h
  cases h

lemma liftReference_kept {leaveMarkers : Bool} {i j : Nat} (h : liftReference d leaveMarkers i j e = .ok e') :
  Kept e e' := by
  rw [liftReference] at h
  split at h
  · next parent hp =>
      split at h
      · cases leaveMarkers with
        | true =>
          obtain ⟨marked,-,h⟩ := bind_ok h
          obtain ⟨spans,-,h⟩ := bind_ok h
          obtain ⟨_,-,rfl⟩ := map_ok h
          exact kept_of_child hp
        | false =>
          obtain ⟨spans,-,h⟩ := bind_ok h
          obtain ⟨_,-,rfl⟩ := map_ok h
          exact kept_of_child hp
      · cases h
        exact .refl e
  · cases h
    exact .refl e

lemma splitBefore_kept {i j : Nat} (h : splitBefore i j e = .ok e') : Kept e e' := by
  rw [splitBefore] at h
  split at h
  · next parent hp =>
      split at h
      · obtain ⟨shown,-,rfl⟩ := map_ok h
        exact kept_of_child hp
      · cases h
        exact .refl e
  · cases h
    exact .refl e

lemma liftTrees_kept {leaveMarkers : Bool} (h : liftTrees d leaveMarkers e = .ok e') : Kept e e' := by
  obtain ⟨lifted,hlf,hl⟩ := bind_ok h
  have hk := onGrandchildren_run .refl .trans (changeAt_kept liftReference_kept) hlf
  split at hl
  · obtain ⟨_,-,hl⟩ := bind_ok hl
    obtain ⟨_,-,hl⟩ := bind_ok hl
    cases hl
  · cases hl
    exact hk

lemma kept_of_children {f : List Element → Except Fault (List Element)} (hf : f [] = .ok [])
    (h : (do return { e with children := ← f e.children }) = Except.ok e') : Kept e e' := by
  obtain ⟨es,hes,rfl⟩ := map_ok h
  refine kept_children fun hn => ?_
  rw [hn,hf] at hes
  exact (Except.ok.inj hes).symm

lemma liftSingles_kept {tagRemove countName : String}
    (h : liftSingles tagRemove countName e = .ok e') : Kept e e' :=
  kept_of_children (f := List.mapM (changeDown (liftSingle tagRemove countName) e.size)) rfl h

lemma setNewlines_kept (h : setNewlines e = .ok e') : Kept e e' :=
  kept_of_children (f := mapHeadsEach setNewline) rfl h

lemma stripNewlines_kept (h : stripNewlines e = .ok e') : Kept e e' :=
  kept_of_children (f := mapUpEach stripIn) rfl h

lemma joinIn_kept (h : joinIn e = .ok e') : Kept e e' := by
  obtain ⟨j,hj,hl⟩ := bind_ok h
  split at hl
  · cases hl
    exact .refl e
  rename_i hr
  cases hl
  refine ⟨rfl,rfl,fun hn => ?_⟩
  rw [hn] at hj
  cases hj
  exact absurd rfl hr

lemma joinTexts_kept (h : joinTexts e = .ok e') : Kept e e' := by
  obtain ⟨tag,attributes,text,tail,children⟩ := e
  obtain ⟨es,hes,hj⟩ := bind_ok h
  refine Kept.trans ?_ (joinIn_kept hj)
  refine ⟨rfl,rfl,fun hn => ?_⟩
  obtain rfl : children = [] := hn
  cases hes
  rfl

lemma resolveSplitters_kept (h : resolveSplitters e = .ok e') : Kept e e' :=
  onGrandchildren_run .refl .trans (changeAt_kept splitBefore_kept) h

lemma manipulated_kept
    (h : (do stripNewlines (← joinTexts (← resolveSplitters (← setNewlines e)))) = Except.ok e') :
    Kept e e' := by
  obtain ⟨e1,h1,h⟩ := bind_ok h
  obtain ⟨e2,h2,h⟩ := bind_ok h
  obtain ⟨e3,h3,h4⟩ := bind_ok h
  exact (((setNewlines_kept h1).trans (resolveSplitters_kept h2)).trans (joinTexts_kept h3)).trans
    (stripNewlines_kept h4)

lemma kept_append {child : Element} (h : e.children ≠ []) : Kept e (e.append child) :=
  kept_children fun hn => absurd hn h

lemma addPieces_kept {indentWidth : Int} (h : addPieces indentWidth e = .ok e') : Kept e e' := by
  rw [addPieces] at h
  split at h
  · cases h
    exact .refl e
  rename_i markdown hf
  obtain ⟨made,-,rfl⟩ := map_ok h
  refine kept_append fun hn => ?_
  rw [hn] at hf
  cases hf

lemma layOut_kept (h : layOut e = .ok e') : Kept e e' := by
  rw [layOut] at h
  split at h
  · cases h
    exact .refl e
  · obtain ⟨made,-,rfl⟩ := map_ok h
    refine kept_children fun hn => ?_
    rw [hn,modify_nil]

lemma dropStage_kept (tag : String) (e : Element) : Kept e (dropStage tag e) := by
  rw [dropStage]
  split
  · refine kept_children fun hn => ?_
    rw [hn,eraseIdx_nil]
  · exact .refl e

lemma parse_extract : Step.parse "extract" = .ok [.child "extract"] :=
  ok_of_toOption (by decide +kernel)

lemma childIndex?_of_leaf (tag : String) (h : e.children = []) : childIndex? tag e = none := by
  rw [childIndex?,h]
  rfl

lemma parseExtract_kept {tagMarkdown : String}
    (h : parseExtract "extract" tagMarkdown e = .ok e') : Kept e e' := by
  rw [parseExtract,parse_extract,ok_bind] at h
  split at h
  · cases h
    exact .refl e
  rename_i extract hf
  split at h
  · obtain ⟨markdown,-,hm⟩ := bind_ok h
    obtain ⟨marked,-,rfl⟩ := map_ok hm
    refine kept_append fun hnl => ?_
    have hn : e.first? [.child "extract"] = none := by
      simp [first?,select,Step.take,childNodes,hnl]
    rw [hn] at hf
    cases hf
  · cases h

lemma settleLines_kept {comment ls : Element} {r : Element × Element}
  (h : settleLines comment ls = .ok r) : r.1.tag = comment.tag ∧ r.1.text = comment.text := by
  rw [settleLines] at h
  split at h
  · dsimp only at h
    split at h
    all_goals
      obtain ⟨shuffled,-,h⟩ := bind_ok h
      obtain ⟨indents,-,rfl⟩ := map_ok h
      cases indents.found with
      | none => exact ⟨rfl,rfl⟩
      | some n => exact ⟨rfl,rfl⟩
  · obtain ⟨shown,-,h⟩ := bind_ok h
    cases h

lemma settleComment_kept {tagLines : String} (h : settleComment tagLines e = .ok e') : Kept e e' := by
  rw [settleComment] at h
  split at h
  · cases h
    exact .refl e
  rename_i i ls hl
  obtain ⟨r,hr,rfl⟩ := map_ok h
  obtain ⟨htg,ht⟩ := settleLines_kept hr
  refine ⟨htg,ht,fun hn => ?_⟩
  rw [childIndex?_of_leaf tagLines hn] at hl
  cases hl

lemma extract_kept {name tag : String} (h : extract name tag e = .ok e') : Kept e e' := by
  obtain ⟨ts,ht,hl⟩ := bind_ok h
  cases ts with
  | none =>
    cases hl
    exact .refl e
  | some ts =>
    cases hl
    refine kept_append fun hn => ?_
    have hlf : e.descendants = [] := by
      rw [descendants,hn]
      rfl
    rw [extraction,hlf] at ht
    cases ht

def Awaits (d : Edition) (e : Element) : Prop :=
  (d = .draft → e.tag = "doc_uri") ∧ e.value? "resolved" = some (.text (isTrue false))

instance (d : Edition) (e : Element) : Decidable (Awaits d e) :=
  inferInstanceAs (Decidable (_ ∧ _))

lemma waiting_eq (d : Edition) (e : Element) :
  waiting d e = ((forest [] 0 e.children).filter fun p => Awaits d p.2).map Prod.fst := by
  cases d with
  | final =>
    simp [waiting,select,Step.take,nodesBelow,Test.holds,Awaits,Bool.beq_eq_decide_eq]
  | draft =>
    simp [waiting,select,Step.take,nodesBelow,Test.holds,Awaits,filter_filter,
      Bool.beq_eq_decide_eq,Bool.and_comm]

lemma mem_waiting_iff {addr : Address} : addr ∈ waiting d e ↔ addr ≠ [] ∧
    ∃ m, e.at? addr = some m ∧ Awaits d m := by
  rw [waiting_eq,mem_map]
  constructor
  · rintro ⟨⟨addr,m⟩,hm,rfl⟩
    obtain ⟨hf,ha⟩ := mem_filter.mp hm
    obtain ⟨hne,hat⟩ := mem_below_iff.mp hf
    exact ⟨hne,m,hat,of_decide_eq_true ha⟩
  · rintro ⟨hne,m,hat,ha⟩
    exact ⟨(addr,m),mem_filter.mpr ⟨mem_below_iff.mpr ⟨hne,hat⟩,decide_eq_true ha⟩,rfl⟩

end Tree

lemma perform_of_toOption {σ α : Type} {a : Act σ α} {s : σ} {x : α} (h : (a.perform s).1.toOption = some x) :
  a.perform s = (.ok x,(a.perform s).2) :=
  Prod.ext (ok_of_toOption h) rfl

namespace Act

variable {σ τ α β : Type} {s s' : σ} {a : Act σ α} {b : α}

lemma perform_bind_eq (a : Act σ α) (f : α → Act σ β) (s : σ) :
    (a >>= f).perform s = ExceptT.bindCont f (a.perform s).1 (a.perform s).2 := rfl

lemma bind_cases {f : α → Act σ β} {r : Except Fault β} (h : (a >>= f).perform s = (r,s')) :
  (∃ err, a.perform s = (.error err,s') ∧ r = .error err) ∨
    ∃ x s1, a.perform s = (.ok x,s1) ∧ (f x).perform s1 = (r,s') := by
  rcases ha : a.perform s with ⟨result,s1⟩
  rw [perform_bind_eq,ha] at h
  cases result with
  | error err =>
    cases h
    exact .inl ⟨err,rfl,rfl⟩
  | ok x => exact .inr ⟨x,s1,rfl,h⟩

lemma bind_ok {f : α → Act σ β} {b : β} (h : (a >>= f).perform s = (.ok b,s')) :
  ∃ x s1, a.perform s = (.ok x,s1) ∧ (f x).perform s1 = (.ok b,s') :=
  (bind_cases h).resolve_left (by simp)

lemma perform_tryCatch_ok {f : Fault → Act σ α} (h : a.perform s = (.ok b,s')) :
  (tryCatch a f).perform s = (.ok b,s') := by
  have hs : StateT.run a s = (.ok b,s') := h
  simp [tryCatch,tryCatchThe,MonadExceptOf.tryCatch,ExceptT.tryCatch,Act.perform,hs]
  rfl

lemma perform_tryCatch_error {f : Fault → Act σ α} {err : Fault} (h : a.perform s = (.error err,s')) :
  (tryCatch a f).perform s = (f err).perform s' := by
  have hs : StateT.run a s = (.error err,s') := h
  simp [tryCatch,tryCatchThe,MonadExceptOf.tryCatch,ExceptT.tryCatch,Act.perform,hs]
  rfl

lemma pure_ok {a : α} (h : (pure a : Act σ α).perform s = (.ok b,s')) : a = b ∧ s = s' := by
  cases h
  exact ⟨rfl,rfl⟩

lemma map_ok {f : α → β} {b : β} (h : (do return f (← a)).perform s = (.ok b,s')) :
    ∃ x s1, a.perform s = (.ok x,s1) ∧ f x = b ∧ s1 = s' := by
  obtain ⟨x,s1,hx,hl⟩ := bind_ok h
  exact ⟨x,s1,hx,pure_ok hl⟩

lemma ofExcept_ok {a : Except Fault α} (h : (ofExcept a).perform s = (.ok b,s')) : a = .ok b := by
  cases a with
  | error err => cases h
  | ok a => rw [(pure_ok h).1]

lemma get_bind_ok {f : σ → Act σ β} {b : β} (h : ((get : Act σ σ) >>= f).perform s = (.ok b,s')) :
    (f s).perform s = (.ok b,s') := h

lemma ofExcept_bind_ok {a : Except Fault α} {f : α → Act σ β} {b : β}
  (h : (ofExcept a >>= f).perform s = (.ok b,s')) : ∃ x, a = .ok x ∧ (f x).perform s = (.ok b,s') := by
  cases a with
  | error err => cases h
  | ok x => exact ⟨x,rfl,h⟩

lemma within_ok {get : τ → σ} {set : σ → τ → τ} {t t' : τ} (h : (a.within get set).perform t = (.ok b,t')) :
  ∃ s1, a.perform (get t) = (.ok b,s1) :=
  ⟨(a.perform (get t)).2,Prod.ext (Prod.mk.inj h).1 rfl⟩

def Returns (a : Act σ α) (b : α) : Prop := ∃ s s', a.perform s = (.ok b,s')

lemma mapM_ok {f : α → Act σ β} {xs : List α} {ys : List β}
  (h : (xs.mapM f).perform s = (.ok ys,s')) : Forall₂ (fun x => (f x).Returns) xs ys := by
  induction xs generalizing s s' ys with
  | nil =>
    obtain ⟨rfl,-⟩ := pure_ok h
    exact .nil
  | cons x xs ih =>
    rw [mapM_cons] at h
    obtain ⟨y,s1,hy,h⟩ := bind_ok h
    obtain ⟨ys',s2,hys,h⟩ := bind_ok h
    obtain ⟨rfl,-⟩ := pure_ok h
    exact .cons ⟨s,s1,hy⟩ (ih hys)

end Act

namespace Tree

open Element

variable {fs : Files.Store} {e e' : Element}

lemma resolveAt_kept {addr : Address} (ha : addr ≠ []) (h : (resolveAt fs e addr).Returns e') : Kept e e' := by
  obtain ⟨s,s',h⟩ := h
  rw [resolveAt] at h
  split at h
  · cases h
    exact .refl e
  · obtain ⟨resolved,s1,-,rfl,-⟩ := Act.map_ok h
    exact kept_modifyAt _ ha e

lemma resolveRounds_related {R : Element × Shelf → Element × Shelf → Prop} (hr : ∀ p, R p p)
  (ht : ∀ {p q r}, R p q → R q r → R p r)
  (hs : ∀ {addr e s e' s'}, addr ≠ [] → (resolveAt fs e addr).perform s = (.ok e',s') → R (e,s) (e',s'))
  {d : Edition} {fuel : Nat} {s s' : Shelf} (h : (resolveRounds d fs fuel e).perform s = (.ok e',s')) :
  R (e,s) (e',s') := by
  have he {as : List Address} {e e' : Element} {s s' : Shelf} (ha : ∀ a ∈ as, a ≠ [])
      (h : (as.foldlM (resolveAt fs) e).perform s = (.ok e',s')) : R (e,s) (e',s') := by
    induction as generalizing e s with
    | nil =>
      cases h
      exact hr _
    | cons a as ih =>
      obtain ⟨e1,s1,h1,h⟩ := Act.bind_ok h
      rw [forall_mem_cons] at ha
      exact ht (hs ha.1 h1) (ih ha.2 h)
  induction fuel generalizing e s with
  | zero =>
    cases h
    exact hr _
  | succ fuel ih =>
    rw [resolveRounds] at h
    split at h
    · cases h
      exact hr _
    · obtain ⟨e1,s1,h1,h⟩ := Act.bind_ok h
      exact ht (he (fun a ha => (mem_waiting_iff.mp ha).1) h1) (ih h)

lemma resolveAll_kept {d : Edition} (h : (resolveAll d fs e).Returns e') : Kept e e' := by
  obtain ⟨s,s',h⟩ := h
  obtain ⟨shelf,s1,-,h⟩ := Act.bind_ok h
  exact resolveRounds_related (R := fun p q => Kept p.1 q.1) (fun _ => .refl _) .trans
    (fun ha h => resolveAt_kept ha ⟨_,_,h⟩) h

end Tree

namespace Job

open Element Docweave.Tree

variable {path : Path.Simple} {name : String} {es es' : List Element} {s s' : Job}

lemma withShelf_ok {α : Type} {f : Files.Store → Act Shelf α} {b : α} (h : (withShelf f).Returns b) :
  ∃ fs, (f fs).Returns b := by
  obtain ⟨s,s',h⟩ := h
  obtain ⟨j,s1,-,h⟩ := Act.bind_ok h
  obtain ⟨s2,h⟩ := Act.within_ok h
  exact ⟨j.store,_,s2,h⟩

lemma stage_ok {f : Element → Act Job Element} (h : (stage path name f es).perform s = (.ok es',s')) :
  Forall₂ (fun e => (f e).Returns) es es' := by
  obtain ⟨made,s1,hm,h⟩ := Act.bind_ok h
  obtain ⟨_,s2,-,rfl,-⟩ := Act.map_ok h
  exact Act.mapM_ok hm

lemma plainStage_kept {f : Element → Except Fault Element} (hf : ∀ {e e'}, f e = .ok e' → Kept e e')
  (h : (plainStage path name f es).perform s = (.ok es',s')) : Forall₂ Kept es es' :=
  (stage_ok h).imp fun _ _ ⟨_,_,he⟩ => hf (Act.ofExcept_ok he)

lemma readComments_kept (h : (readComments path).perform s = (.ok es,s')) :
  ∃ marked, Tree.readLines 4 path.text (s.store.lines path.text) = .ok marked ∧
    Forall₂ Kept (gatherComments {} marked) es := by
  have hr := Act.get_bind_ok h
  obtain ⟨marked,s2,hm,hw⟩ := Act.bind_ok hr
  obtain ⟨_,s3,-,hst⟩ := Act.bind_ok hw
  refine ⟨marked,Act.ofExcept_ok hm,plainStage_kept (fun he => ?_) hst⟩
  obtain ⟨settled,hs,hex⟩ := bind_ok he
  exact (settleComment_kept hs).trans (extract_kept hex)

lemma markdown_kept {e e' : Element}
    (h : (do return dropStage "lines" (← parseExtract "extract" "markdown" e)) = Except.ok e') : Kept e e' := by
  obtain ⟨read,hr,rfl⟩ := map_ok h
  exact (parseExtract_kept hr).trans (dropStage_kept "lines" read)

lemma resolved_kept {e e' : Element} (h : (withShelf (resolveAll .final · e)).Returns e') : Kept e e' := by
  obtain ⟨fs,h⟩ := withShelf_ok h
  exact resolveAll_kept h

lemma forall₂_kept_trans {xs ys zs : List Element} (hxy : Forall₂ Kept xs ys)
  (hyz : Forall₂ Kept ys zs) : Forall₂ Kept xs zs :=
  forall₂_comp (T := Kept) (fun _ _ _ h h' => h.trans h') hxy hyz

lemma renderStaged_kept {src : String} {out : List (Element × String)} {counts : List (String × Nat)}
  (h : (renderStaged src).perform s = (.ok (out,counts),s')) :
  ∃ marked, Tree.readLines 4 (Path.Simple.of src).text (s.store.lines (Path.Simple.of src).text) = .ok marked ∧
    Forall₂ (fun e w => ∃ e', Kept e e' ∧ writeElement s.settings.width e' = .ok w)
      (gatherComments {} marked) out := by
  have hs := Act.get_bind_ok h
  obtain ⟨es1,s1,h1,h⟩ := Act.bind_ok hs
  obtain ⟨es2,s2,h2,h⟩ := Act.bind_ok h
  obtain ⟨es3,s3,h3,h⟩ := Act.bind_ok h
  obtain ⟨es4,s4,h4,h⟩ := Act.bind_ok h
  obtain ⟨es5,s5,h5,h⟩ := Act.bind_ok h
  obtain ⟨es6,s6,h6,h⟩ := Act.bind_ok h
  obtain ⟨out',s7,h7,h⟩ := Act.bind_ok h
  obtain ⟨_,s8,-,hp,-⟩ := Act.map_ok h
  cases hp
  obtain ⟨marked,hm,k1⟩ := readComments_kept h1
  have k2 := forall₂_kept_trans k1 (plainStage_kept markdown_kept h2)
  have k3 := forall₂_kept_trans k2 ((stage_ok h3).imp fun _ _ => resolved_kept)
  have k4 := forall₂_kept_trans k3 (plainStage_kept liftSingles_kept h4)
  have k5 := forall₂_kept_trans k4 (plainStage_kept liftTrees_kept h5)
  have k6 := forall₂_kept_trans k5 (plainStage_kept manipulated_kept h6)
  refine ⟨marked,hm,forall₂_comp (fun e e1 w hk hw => ?_) k6 (Act.mapM_ok h7)⟩
  obtain ⟨_,_,hw⟩ := hw
  obtain ⟨e2,hpc,hw⟩ := bind_ok (Act.ofExcept_ok hw)
  obtain ⟨e3,hl,hwr⟩ := bind_ok hw
  exact ⟨e3,(hk.trans (addPieces_kept hpc)).trans (layOut_kept hl),hwr⟩

end Job

end Docweave
