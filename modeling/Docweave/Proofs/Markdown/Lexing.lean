import Docweave.Proofs.Comments.MarkedSources
import Docweave.Proofs.Markdown.Markup
import Docweave.Proofs.Markdown.Preparing

namespace Docweave

open List

namespace Pattern

open Markup (removeAll_eq)

variable {p : Pattern} {cs : List Char} {f : Found}

lemma subject_matchStart (h : p.matchStart cs = some f) : f.subject = cs := by
  obtain ⟨hp,hr⟩ := foundAt_split h
  rw [Found.subject,hp,append_assoc,← hr]
  rfl

lemma gaps_subset {fs : List Found} (hfs : ∀ f ∈ fs, f.subject = cs) (origin : Nat) :
  ∀ gap ∈ gaps cs origin fs, gap ⊆ cs := by
  induction fs generalizing origin with
  | nil =>
    intro gap hg
    obtain rfl := mem_singleton.mp hg
    exact drop_subset _ _
  | cons f fs ih =>
    rw [forall_mem_cons] at hfs
    intro gap hg
    rcases mem_cons.mp hg with rfl | hg
    · refine List.Subset.trans (drop_subset _ _) ?_
      rw [← hfs.1,Found.subject,append_assoc]
      exact subset_append_left _ _
    · exact ih hfs.2 f.stop gap hg

lemma removeAll_subset (p : Pattern) (cs : List Char) : p.removeAll cs ⊆ cs := by
  intro c hc
  rw [removeAll_eq,mem_flatten] at hc
  obtain ⟨gap,hg,hc⟩ := hc
  exact gaps_subset subject_findAll 0 gap hg hc

end Pattern

namespace Found

variable {f : Found} {cs : List Char}

lemma matched_subset (h : f.subject = cs) : f.matched ⊆ cs := by
  rw [← h,subject]
  intro c hc
  simp [hc]

lemma after_subset (h : f.subject = cs) : f.after ⊆ cs := by
  rw [← h]
  exact subset_append_right _ _

lemma chars?_subset (h : f.subject = cs) (lbl : String) : (f.chars? lbl).getD [] ⊆ cs := by
  rw [chars?,h]
  cases f.span? lbl with
  | none => exact nil_subset _
  | some s => exact List.Subset.trans (take_subset _ _) (drop_subset _ _)

lemma toList_textD (f : Found) (lbl : String) : (f.textD lbl).toList = (f.chars? lbl).getD [] := by
  rw [textD,text?]
  cases f.chars? lbl with
  | none => rfl
  | some cs => exact String.toList_ofList

end Found

namespace Markup

open Pattern (removeAll_subset subject_findAll subject_matchStart)

variable {cs : List Char} {l : Lexed}

def CodeOf (P : Char → Prop) : Token → Prop
  | Token.code text _ => ∀ c ∈ text.toList, P c
  | _ => True

variable {P : Char → Prop}

lemma dropEndNewlines_subset (cs : List Char) : dropEndNewlines cs ⊆ cs := by
  intro c hc
  exact mem_reverse.mp (dropWhile_subset _ (mem_reverse.mp hc))

lemma memberText_subset (cs : List Char) : memberText cs ⊆ cs := by
  rw [memberText]
  split
  · exact List.Subset.trans (removeAll_subset _ _) (removeAll_subset _ _)
  · exact removeAll_subset _ _

lemma looseMembers_bodies (loose : Bool) (bodies : List (List Char)) :
  ∀ m ∈ looseMembers loose bodies, m.2 ∈ bodies := by
  induction bodies generalizing loose with
  | nil => simp [looseMembers]
  | cons body rest ih =>
    have hc (inner next : Bool) : ∀ m ∈ (inner,body) :: looseMembers next rest, m.2 ∈ body :: rest := by
      rw [forall_mem_cons]
      exact ⟨mem_cons_self,fun m hm => mem_cons_of_mem _ (ih next m hm)⟩
    rw [looseMembers]
    split
    · simp
    · split
      · exact hc _ _
      · exact hc _ _

lemma members_subset (cs : List Char) : ∀ m ∈ members cs, m.2 ⊆ cs := by
  intro m hm
  obtain ⟨f,hf,hb⟩ := mem_map.mp (looseMembers_bodies _ _ m hm)
  rw [← hb]
  exact List.Subset.trans (memberText_subset _) (Found.chars?_subset (subject_findAll f hf) _)

lemma mem_footnoteText {c : Char} (h : c ∈ footnoteText cs) : c = '\n' ∨ c ∈ cs := by
  by_cases hc : c = '\n'
  · exact .inl hc
  refine .inr ?_
  have hj : ['\n'].intercalate (cs.splitOn '\n') = cs := intercalate_splitOn '\n'
  rw [← hj,mem_intercalate_iff hc]
  rw [footnoteText] at h
  split at h
  · next first rest hln =>
      obtain ⟨l,hl,hm⟩ := (mem_intercalate_iff hc).mp h
      rw [hln]
      rcases mem_cons.mp hl with rfl | hl
      · exact ⟨l,mem_cons_self,hm⟩
      · obtain ⟨l',hl',rfl⟩ := mem_map.mp hl
        exact ⟨l',mem_cons_of_mem _ hl',drop_subset _ _ hm⟩
  · cases h

lemma all_push {t : Token} (hl : All (CodeOf P) l.tokens) (ht : CodeOf P t) : All (CodeOf P) (l.push t).tokens :=
  hl.append fun _ ht' => mem_singleton.mp ht' ▸ ht

lemma all_foldl {β : Type} {g : Lexed → β → Lexed} {xs : List β}
  (hg : ∀ l, ∀ x ∈ xs, All (CodeOf P) l.tokens → All (CodeOf P) (g l x).tokens) (hl : All (CodeOf P) l.tokens) :
  All (CodeOf P) (xs.foldl g l).tokens := by
  induction xs generalizing l with
  | nil => exact hl
  | cons x xs ih =>
    exact ih (fun l y hy => hg l y (mem_cons_of_mem _ hy)) (hg l x mem_cons_self hl)

lemma matchStart_of_firstMatch {rules : List BlockRule} {r : BlockRule} {f : Found}
  (h : firstMatch cs rules = some (r,f)) : r.pattern.matchStart cs = some f := by
  induction rules with
  | nil => cases h
  | cons other rules ih =>
    rw [firstMatch] at h
    split at h
    · next hm =>
        cases h
        exact hm
    · exact ih h

lemma codeOf_lexFrom (hfd : P '\n') (fuel : Nat) (rules : List BlockRule) (depth : Depth)
  (hcs : ∀ c ∈ cs, P c) (hl : All (CodeOf P) l.tokens) : All (CodeOf P)
  (lexFrom fuel rules depth cs l).tokens := by
  induction fuel generalizing rules depth cs l with
  | zero => exact hl
  | succ fuel ih =>
    rw [lexFrom]
    split
    · exact hl
    split
    · exact hl
    next r f hf =>
      have hs := subject_matchStart (matchStart_of_firstMatch hf)
      have hmt := Found.matched_subset hs
      have hlb (lbl : String) := Found.chars?_subset hs lbl
      have hi (rules : List BlockRule) (depth : Depth) {xs : List Char} (hxs : ∀ c ∈ xs, P c)
          {l : Lexed} (hl : All (CodeOf P) l.tokens) :
          All (CodeOf P) (lexFrom fuel rules depth (dropEndNewlines xs) l).tokens :=
        ih rules depth (fun c hc => hxs c (dropEndNewlines_subset xs hc)) hl
      refine ih rules depth (fun c hc => hcs c (Found.after_subset hs hc)) ?_
      cases r with
      | newline =>
        dsimp only
        split
        · exact all_push hl trivial
        · exact hl
      | rule => exact all_push hl trivial
      | indentedCode =>
        refine all_push hl fun c hc => hcs c (hmt (removeAll_subset codeIndent _ ?_))
        rwa [String.toList_ofList] at hc
      | fencedCode =>
        refine all_push hl fun c hc => hcs c (hlb "code" ?_)
        rwa [Found.toList_textD] at hc
      | heading => exact all_push hl trivial
      | underlined => exact all_push hl trivial
      | quote =>
        refine all_push ?_ trivial
        split
        · exact all_push (all_push hl trivial) trivial
        · exact hi _ _ (fun c hc => hcs c (hmt (removeAll_subset _ _ hc))) (all_push hl trivial)
      | list =>
        refine all_push ?_ trivial
        split
        · exact all_push (all_push (all_push (all_push hl trivial) trivial) trivial) trivial
        · refine all_foldl (fun l m hm hl => all_push (hi _ _ (fun c hc => ?_)
            (all_push hl ?_)) trivial) (all_push hl trivial)
          · exact hcs c (hmt (members_subset _ m hm hc))
          · split <;> trivial
      | html => exact all_push hl trivial
      | linkDefinition => exact hl
      | footnoteDefinition =>
        dsimp only
        split
        · exact hl
        · refine all_push (hi _ _ (fun c hc => ?_) (all_push hl trivial)) trivial
          rcases mem_footnoteText hc with rfl | hc
          · exact hfd
          · exact hcs c (hlb "note" hc)
      | table => exact all_push hl trivial
      | plainTable => exact all_push hl trivial
      | paragraph => exact all_push hl trivial
      | textLine => exact all_push hl trivial

def Seldom (c : Char) : Prop := c = '\t' ∨ c = '\r'

lemma not_seldom_prepare (s : String) : ∀ c ∈ prepare s, ¬ Seldom c := by
  have hr : Comment.AsRead (Text.normalizeNewlines s.toList)
      (Text.expandTabsFrom 4 0 (Text.normalizeNewlines s.toList)) :=
    .expanded (by decide) 0 (Comment.no_return_normalized _)
  intro c hc
  obtain ⟨c0,hc0,rfl⟩ := mem_map.mp (removeAll_subset _ _ hc)
  split
  · rintro (h | h) <;> cases h
  · rintro (rfl | rfl)
    · exact hr.no_escapes.2 hc0
    · exact hr.no_escapes.1 hc0

lemma codeOf_tokens (s : String) (links : List String) (footnotes : List (String × Nat)) :
  All (CodeOf fun c => ¬ Seldom c) (Lexed.add { links, footnotes } (prepare s)).tokens :=
  codeOf_lexFrom (by rintro (h | h) <;> cases h) _ _ _
    (fun c hc => not_seldom_prepare s c (dropEndNewlines_subset _ hc)) all_nil

end Markup

end Docweave
