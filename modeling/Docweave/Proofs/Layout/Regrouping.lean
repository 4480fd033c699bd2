import Docweave.Proofs.Layout.Filling
import Docweave.Proofs.Trees.TextRuns

namespace Docweave

open List
open String (join toList_append join_cons)

namespace Node

open Text

structure Strand where
  node : Node
  included : Bool

def strands : Node → List Strand
  | .item (some .included) _ _ contents => (membersOf contents).map (⟨·,true⟩)
  | n => [⟨n,false⟩]

inductive Part where
  | wrapped (members : List Strand)
  | apart (member : Strand)

namespace Part

def strands : Part → List Strand
  | wrapped ms => ms
  | apart m => [m]

def isWrapped : Part → Bool
  | wrapped _ => true
  | apart _ => false

def node (kind : BlockKind) (trait : Trait) : Part → Node
  | wrapped ms => block kind trait (ms.map Strand.node)
  | apart m => m.node

end Part

variable {kind : BlockKind} {trait : Trait} {parts : List Part} {ss : List Strand} {n : Node} {ns : List Node}

def Seated (kind : BlockKind) (s : Strand) : Prop := s.included = true → canContain kind s.node = .ok true

def Lawful (kind : BlockKind) : Part → Prop
  | .wrapped ms => ms ≠ [] ∧ ∀ m ∈ ms, Seated kind m
  | .apart m => m.included = true ∧ canContain kind m.node = .ok false

structure Regrouped (kind : BlockKind) (parts : List Part) : Prop where
  lawful : ∀ p ∈ parts, Lawful kind p
  spaced : parts.IsChain fun p q => p.isWrapped = false ∨ q.isWrapped = false

lemma Regrouped.concat {q : Part} (h : Regrouped kind parts) (hq : Lawful kind q)
  (hl : ∀ p ∈ parts.getLast?, p.isWrapped = false ∨ q.isWrapped = false) : Regrouped kind (parts ++ [q]) := by
  refine ⟨forall_mem_append.mpr ⟨h.lawful,forall_mem_singleton.mpr hq⟩,?_⟩
  refine isChain_append.mpr ⟨h.spaced,isChain_singleton _,fun p hp r hr => ?_⟩
  cases hr
  exact hl p hp

namespace Merged

variable {m m' : Merged}

def Collects (kind : BlockKind) (trait : Trait) (ss : List Strand) (m : Merged) : Prop :=
  ∃ parts last, m = ⟨parts.map (Part.node kind trait),last.map Strand.node⟩ ∧
    parts.flatMap Part.strands ++ last = ss ∧ Regrouped kind parts ∧ (∀ s ∈ last, Seated kind s) ∧
    ∀ p ∈ parts.getLast?, p.isWrapped = false

lemma Collects.flush (h : m.Collects kind trait ss) :
    ∃ parts, m.flush kind trait = parts.map (Part.node kind trait) ∧
  parts.flatMap Part.strands = ss ∧ Regrouped kind parts := by
  obtain ⟨parts,last,rfl,rfl,hp,hl,he⟩ := h
  cases last with
  | nil => exact ⟨parts,rfl,(append_nil _).symm,hp⟩
  | cons s last =>
    refine ⟨parts ++ [.wrapped (s :: last)],?_,by simp [Part.strands],?_⟩
    · simp [Merged.flush,Part.node]
    · exact hp.concat ⟨cons_ne_nil _ _,hl⟩ fun p hp => .inl (he p hp)

lemma Collects.member (h : m.Collects kind trait ss) (hm : m.member kind trait n = .ok m') :
  m'.Collects kind trait (ss ++ [⟨n,true⟩]) := by
  obtain ⟨b,hb,hm⟩ := bind_ok hm
  cases b with
  | true =>
    obtain ⟨parts,last,rfl,rfl,hp,hl,he⟩ := h
    cases hm
    refine ⟨parts,last ++ [⟨n,true⟩],by simp,append_assoc _ _ _ |>.symm,hp,?_,he⟩
    exact forall_mem_append.mpr ⟨hl,forall_mem_singleton.mpr fun _ => hb⟩
  | false =>
    obtain ⟨parts,hf,rfl,hp⟩ := h.flush
    cases hm
    refine ⟨parts ++ [.apart ⟨n,true⟩],[],?_,by simp [Part.strands],?_,forall_mem_nil _,by simp [Part.isWrapped]⟩
    · simp [hf,Part.node]
    · exact hp.concat ⟨rfl,hb⟩ fun _ _ => .inr rfl

lemma Collects.run {α : Type} {f : Merged → α → Except Fault Merged} {g : α → List Strand} {as : List α}
  (h : m.Collects kind trait ss) (hm : as.foldlM f m = .ok m')
  (hf : ∀ {m a m' ss}, m.Collects kind trait ss → f m a = .ok m' → m'.Collects kind trait (ss ++ g a)) :
  m'.Collects kind trait (ss ++ as.flatMap g) := by
  induction as generalizing m ss with
  | nil =>
    cases hm
    rwa [flatMap_nil,append_nil]
  | cons a as ih =>
    obtain ⟨m1,ha,hm⟩ := bind_ok hm
    rw [flatMap_cons,← append_assoc]
    exact ih (hf h ha) hm

lemma Collects.child (h : m.Collects kind trait ss) (hm : m.child kind trait n = .ok m') :
  m'.Collects kind trait (ss ++ strands n) := by
  rw [Merged.child.eq_def] at hm
  split at hm
  · rw [strands,map_eq_flatMap]
    exact h.run hm Collects.member
  · next hb =>
      obtain ⟨parts,last,rfl,rfl,hp,hl,he⟩ := h
      cases hm
      rw [strands.eq_2 _ (by rintro _ _ _ h; cases h; exact hb rfl)]
      refine ⟨parts,last ++ [⟨_,false⟩],by simp,append_assoc _ _ _ |>.symm,hp,?_,he⟩
      exact forall_mem_append.mpr ⟨hl,forall_mem_singleton.mpr fun h => by cases h⟩
  · cases hm

end Merged

theorem mergeIncluded_regroups {out : List Node} (h : mergeIncluded kind trait ns = .ok out) :
    ∃ parts, out = parts.map (Part.node kind trait) ∧
      parts.flatMap Part.strands = ns.flatMap strands ∧
      Regrouped kind parts := by
  obtain ⟨m,hm,rfl⟩ := map_ok h
  have hs : Merged.Collects kind trait [] ⟨[],[]⟩ :=
    ⟨[],[],rfl,rfl,⟨forall_mem_nil _,.nil⟩,forall_mem_nil _,by simp⟩
  exact (hs.run hm Merged.Collects.child).flush

def spliced : List Node :=
  [ofText "a",block .included .none [ofText "b",block .paragraph .none [ofText "c"],ofText "d"],
    block .included .none [],span .strong (.text "e")]

theorem regroups_spliced :
    mergeIncluded .paragraph .none spliced = .ok [block .paragraph .none [ofText "a",ofText "b"],
      block .paragraph .none [ofText "c"],block .paragraph .none [ofText "d",
        span .strong (.text "e")]] ∧
    ∃ parts, [block .paragraph .none [ofText "a",ofText "b"],block .paragraph .none [ofText "c"],
        block .paragraph .none [ofText "d",span .strong (.text "e")]] =
          parts.map (Part.node .paragraph .none) ∧
      parts.flatMap Part.strands = spliced.flatMap strands ∧ Regrouped .paragraph parts :=
  ⟨rfl,mergeIncluded_regroups rfl⟩

end Node

namespace Command

open Pattern Text

lemma spells_lineCommand {c c' : Cursor} {next : Following}
    (h : (lineStart ++ lit "@" ++ keywords).meet c next = some c') :
    ∃ w ∈ words, ∃ rest, c.rest = w.toList ++ rest ∧ next (c.skip w.toList rest) = some c' := by
  change (if _ then (lit "@" ++ keywords).meet c next else none) = some c' at h
  split at h
  · exact tries_words.spells h
  · cases h

lemma found_lineBreak {cs : List Char} {f : Found} (h : f ∈ lineBreak.pattern.findAll cs) :
  ∃ blanks, blanks.all isBlank ∧ f.textD "command" ∈ words ∧
  f.matched = blanks ++ (f.textD "command").toList := by
  obtain ⟨moving,c,hc,hf⟩ := foundAt_of_mem_findAll h
  obtain ⟨c',hm,rfl⟩ := Option.map_eq_some_iff.mp hf
  obtain ⟨blanks,rest,hb,hr,hm⟩ := taken_of_runGreedy rfl hm
  obtain ⟨w,hw,rest',hr',hm⟩ := spells_lineCommand hm
  dsimp only at hm
  split at hm
  · cases hm
  cases hm
  have hf : Found.between c (((c.skip blanks rest).skip w.toList rest').record "command"
    (c.skip blanks rest).offset) =
      ⟨c.before.reverse,blanks ++ w.toList,rest',
        [("command",⟨c.before.reverse.length + blanks.length,
        c.before.reverse.length + (blanks ++ w.toList).length⟩)]⟩ := by
    rw [Cursor.skip_append,length_reverse,← hc.offset,← Found.between_skip]
    simp [Cursor.record,Cursor.skip,hc.captures]
  rw [hf,Found.textD_capture,String.ofList_toList]
  exact ⟨blanks,all_eq_true.mpr hb,hw,rfl⟩

end Command

namespace Node

open Text Pattern

def StartsCommand (s : String) : Prop := ∃ w ∈ Command.words, w.toList <+: s.toList

def piece (f : Found) (gap : List Char) : String := f.textD "command" ++ String.ofList gap

lemma zipWith_piece (cs : List Char) {fs : List Found} (h : ∀ f ∈ fs, f.textD "command" ∈ Command.words ∧
  letters f.matched = letters (f.textD "command").toList) (origin : Nat) :
  ∃ gap gaps', gaps cs origin fs = gap :: gaps' ∧ (∀ p ∈ zipWith piece fs gaps', StartsCommand p) ∧
    letters (Text.interleave (gap :: gaps') (fs.map Found.matched)).flatten =
      letters gap ++ letters (join (zipWith piece fs gaps')).toList := by
  induction fs generalizing origin with
  | nil => exact ⟨cs.drop origin,[],rfl,forall_mem_nil _,by simp [Text.interleave]⟩
  | cons f fs ih =>
    obtain ⟨⟨hw,hf⟩,hr⟩ := forall_mem_cons.mp h
    obtain ⟨gap,gaps',hg,hs,hl⟩ := ih hr f.stop
    refine ⟨f.before.drop origin,gap :: gaps',by rw [gaps,hg],forall_mem_cons.mpr ⟨⟨_,hw,?_⟩,hs⟩,?_⟩
    · rw [piece,toList_append]
      exact prefix_append _ _
    · simp only [map_cons,Text.interleave.eq_1 _ (gap :: gaps'),flatten_cons,letters_append,hf,hl,
        zipWith_cons_cons,piece,join_cons,toList_append,String.toList_ofList,append_assoc]

lemma letters_dropWhile (cs : List Char) : letters (cs.dropWhile isBlank) = letters cs := by
  have h := letters_append (cs.takeWhile isBlank) (cs.dropWhile isBlank)
  rwa [takeWhile_append_dropWhile,letters_of_blank all_takeWhile,nil_append,eq_comm] at h

lemma letters_trimLines (s : String) : letters (trimLines s) = letters s.toList := by
  conv_rhs => rw [← flatten_displayLines s.toList,← flatMap_def]
  rw [trimLines]
  cases displayLines s.toList with
  | nil => rfl
  | cons l ls => simp [← flatMap_def,letters_flatMap,letters_dropWhile]

lemma commandPieces_spec (s : String) : ∃ first later, commandPieces s = first :: later ∧
  (∀ p ∈ later, StartsCommand p) ∧ letters (join (first :: later)).toList = letters s.toList := by
  have hf := @Command.found_lineBreak (trimLines s)
  have hi := flatten_findAll Command.lineBreak.pattern (trimLines s)
  rw [← letters_trimLines,commandPieces]
  generalize Command.lineBreak.pattern.findAll (trimLines s) = fs at hf hi ⊢
  obtain ⟨gap,gaps',hg,hs,hl⟩ := @zipWith_piece (trimLines s) fs (fun f hm => by
    obtain ⟨blanks,hb,hw,hm⟩ := hf hm
    exact ⟨hw,by rw [hm,letters_append,letters_of_blank hb,nil_append]⟩) 0
  rw [hg] at hi ⊢
  refine ⟨_,_,rfl,hs,?_⟩
  rw [← hi,hl,join_cons,toList_append,letters_append,String.toList_ofList]
  rfl

def put (cs : List Char) : List (List Char ⊕ Node) → List (List Char ⊕ Node)
  | .inl ds :: rest => .inl (cs ++ ds) :: rest
  | rest => .inl cs :: rest

def lay (n : Node) (rest : List (List Char ⊕ Node)) : List (List Char ⊕ Node) :=
  match n.textContents? with
  | some (.text s) => put (letters s.toList) rest
  | _ => .inr n :: rest

def squeezed (ns : List Node) : List (List Char ⊕ Node) := ns.foldr lay []

variable {s : String} {texts ts : List String} {rest : List (List Char ⊕ Node)}
  {ms ns items : List Node} {n : Node}

lemma put_append (cs ds : List Char) : put (cs ++ ds) rest = put cs (put ds rest) := by
  rcases rest with _ | ⟨_ | _,_⟩ <;> simp [put]

lemma lay_text (h : n.textContents? = some (.text s)) : lay n rest = put (letters s.toList) rest := by rw [lay,h]

def putAll (texts : List String) (rest : List (List Char ⊕ Node)) : List (List Char ⊕ Node) :=
  (texts.map ofText).foldr lay rest

lemma putAll_join (h : ts ≠ []) : putAll ts rest = put (letters (join ts).toList) rest := by
  induction ts with
  | nil => exact absurd rfl h
  | cons t ts ih =>
    rw [join_cons,toList_append,letters_append,put_append]
    cases ts with
    | nil =>
      rcases rest with _ | ⟨_ | _,_⟩ <;> simp [putAll,lay,ofText,span,textContents?,put]
    | cons u ts => rw [← ih (cons_ne_nil _ _)]; rfl

lemma foldr_lay_texts (h : Forall₂ (wording? · = some ·) ms ts) : ms.foldr lay rest = putAll ts rest := by
  induction h with
  | nil => rfl
  | cons hm _ ih => rw [foldr_cons,ih,lay_text (wording?_eq_some.mp hm)]; rfl

lemma foldr_lay_condensed (h : Condenses wording? (fun _ => ofText) ns items) : items.foldr lay
    rest = ns.foldr lay rest := by
  conv_rhs => rw [← flatten_runs wording? ns]
  rw [Condenses] at h
  generalize runs wording? ns = gs at h
  induction h with
  | nil => rfl
  | cons hm _ ih =>
    rw [flatten_cons,foldr_append,← ih]
    cases hm with
    | one => rfl
    | several _ ht => rw [foldr_lay_texts ht,putAll_join (by rintro rfl; cases ht)]; rfl

def Led (ms : List Node) : Prop := ∃ s rest, ms = ofText s :: rest ∧ StartsCommand s

lemma Led.append (h : Led ms) (ns : List Node) : Led (ms ++ ns) := by
  obtain ⟨s,rest,rfl,hs⟩ := h
  exact ⟨s,rest ++ ns,rfl,hs⟩

lemma led_singleton (h : StartsCommand s) : Led [ofText s] := ⟨s,[],rfl,h⟩

namespace Cut

variable {make : List Node → Node} {c c' : Cut} {groups more : List (List Node)}

structure Gathers (make : List Node → Node) (seen : List Node) (c : Cut) (groups : List (List Node)) : Prop where
  done : c.done = groups.map make
  led : ∀ l ∈ (groups ++ [c.current]).tail, Led l
  lays : ∀ rest, (groups.flatten ++ c.current).foldr lay rest = seen.foldr lay rest

lemma led_tail {ms ms' : List Node} (h : ∀ l ∈ (groups ++ [ms]).tail, Led l) (hm : Led ms → Led ms')
  (hl : ∀ l ∈ more, Led l) : ∀ l ∈ (groups ++ ms' :: more).tail, Led l := by
  cases groups with
  | nil => exact hl
  | cons g gs =>
    obtain ⟨hg,hs⟩ := forall_mem_append.mp h
    exact forall_mem_append.mpr ⟨hg,forall_mem_cons.mpr ⟨hm (forall_mem_singleton.mp hs),hl⟩⟩

lemma pieces_later (done : List Node) (p : String) (later : List String) :
  ∃ gs last, pieces make false ⟨done,[]⟩ (p :: later) = ⟨done ++ gs.map make,last⟩ ∧
    gs ++ [last] = (p :: later).map ([ofText ·]) := by
  induction later generalizing done p with
  | nil => exact ⟨[],[ofText p],by simp [pieces],rfl⟩
  | cons q later ih =>
    obtain ⟨gs,last,hp,hg⟩ := ih (done ++ [make [ofText p]]) q
    exact ⟨[ofText p] :: gs,last,by simp [pieces,hp],by rw [cons_append,hg]; rfl⟩

def headOf (c : Cut) (first : String) (later : List String) : List Node :=
  if first = "" ∧ later ≠ [] then c.current else c.current ++ [ofText first]

lemma pieces_first (c : Cut) (first : String) (later : List String) :
  ∃ gs last, pieces make true c (first :: later) = ⟨c.done ++ gs.map make,last⟩ ∧
    gs ++ [last] = headOf c first later :: later.map ([ofText ·]) := by
  cases later with
  | nil => exact ⟨[],headOf c first [],by simp [pieces,headOf],rfl⟩
  | cons q later =>
    obtain ⟨gs,last,hp,hg⟩ := @pieces_later make (c.done ++ [make (headOf c first (q :: later))]) q later
    refine ⟨_ :: gs,last,?_,by rw [cons_append,hg]⟩
    simpa [pieces,headOf,String.isEmpty_iff] using hp

lemma lays_headOf (c : Cut) (first : String) (later : List String) :
  (headOf c first later ++ later.map ofText).foldr lay rest =
    c.current.foldr lay (putAll (first :: later) rest) := by
  rw [headOf]
  split
  · next h =>
      obtain ⟨rfl,hl⟩ := h
      rw [foldr_append]
      change _ = c.current.foldr lay (put [] (putAll later rest))
      rw [putAll_join hl,← put_append,nil_append,← putAll_join hl]
      rfl
  · rw [append_assoc,foldr_append]
    rfl

lemma Gathers.step {seen : List Node} (h : Gathers make seen c groups) (hn : Uniform n) :
  ∃ c' groups', step make c n = .ok c' ∧ Gathers make (seen ++ [n]) c' groups' := by
  rcases hn with ⟨-,hn | ⟨s,hn⟩⟩
  · refine ⟨⟨c.done,c.current ++ [n]⟩,groups,
      by rw [Cut.step,hn],h.done,led_tail h.led (·.append _) (forall_mem_nil _),?_⟩
    intro rest
    rw [← append_assoc,foldr_append,h.lays,foldr_append]
  · obtain ⟨first,later,hc,hs,hl⟩ := commandPieces_spec s
    obtain ⟨gs,last,hp,hg⟩ := @pieces_first make c first later
    refine ⟨⟨c.done ++ gs.map make,last⟩,groups ++ gs,
      by rw [Cut.step,hn]; exact congrArg Except.ok (hc ▸ hp),?_,?_,?_⟩
    · rw [h.done,map_append]
    · rw [append_assoc,hg]
      refine led_tail h.led (fun h => ?_) ?_
      · rw [headOf]
        split
        · exact h
        · exact h.append _
      · exact forall_mem_map.mpr fun p hp => led_singleton (hs p hp)
    · intro rest
      have hf : gs.flatten ++ last = headOf c first later ++ later.map ofText := by
        have := congrArg flatten hg
        rwa [flatten_append,flatten_singleton,flatten_cons,← flatMap_def,← map_eq_flatMap] at this
      rw [flatten_append,append_assoc,hf,foldr_append,lays_headOf,← foldr_append,h.lays,foldr_append,
        putAll_join (cons_ne_nil _ _),hl,foldr_cons,lay_text hn]
      rfl

lemma Gathers.run {seen : List Node} (h : Gathers make seen c groups) (hn : ∀ n ∈ ns, Uniform n) :
  ∃ c' groups', ns.foldlM (Cut.step make) c = .ok c' ∧ Gathers make (seen ++ ns) c' groups' := by
  induction ns generalizing c groups seen with
  | nil => exact ⟨c,groups,rfl,by rwa [append_nil]⟩
  | cons n ns ih =>
    obtain ⟨hn,hr⟩ := forall_mem_cons.mp hn
    obtain ⟨c1,g1,hs,h1⟩ := h.step hn
    obtain ⟨c2,g2,hm,h2⟩ := ih h1 hr
    refine ⟨c2,g2,by rw [foldlM_cons,hs]; exact hm,?_⟩
    rwa [append_assoc,singleton_append] at h2

end Cut

inductive TextBlock : Node → Prop
  | code (span : Option ItemKind) (trait : Trait) (contents : Contents) :
      TextBlock (.item (some .code) span trait contents)
  | spans {kind : BlockKind} {trait : Trait} {ms : List Node} : (∀ m ∈ ms, Uniform m) →
    TextBlock (block kind trait ms)

inductive CutsInto : Node → List Node → Prop
  | code (span : Option ItemKind) (trait : Trait) (contents : Contents) :
      CutsInto (.item (some .code) span trait contents) [.item (some .code) span trait contents]
  | spans {kind : BlockKind} {trait : Trait} {ms first : List Node} {later : List (List Node)} : kind ≠ .code →
      squeezed (first :: later).flatten = squeezed ms → (∀ l ∈ later, Led l) →
      CutsInto (block kind trait ms) ((first :: later).map (block kind trait))

lemma cutCommands_cuts (h : TextBlock n) : ∃ out, cutCommands n = .ok out ∧ CutsInto n out := by
  cases h with
  | code => exact ⟨_,rfl,.code _ _ _⟩
  | @spans kind trait ms hm =>
    by_cases hk : kind = .code
    · subst hk
      exact ⟨_,rfl,.code _ _ _⟩
    · obtain ⟨items,hc,hl,hp⟩ := consolidate_condenses hm
      have hs : Cut.Gathers (block kind trait) [] ⟨[],[]⟩ [] := ⟨rfl,forall_mem_nil _,fun _ => rfl⟩
      obtain ⟨c,gs,hf,h⟩ := hs.run hp
      have hg : ∃ first later, gs ++ [c.current] = first :: later := exists_cons_of_ne_nil (by simp)
      obtain ⟨first,later,hg⟩ := hg
      refine ⟨(first :: later).map (block kind trait),?_,.spans hk ?_ ?_⟩
      · rw [block,cutCommands.eq_2 _ _ _ _ (by rintro ⟨⟩; exact hk rfl),membersOf,hc]
        rw [← hg,map_append,← h.done]
        exact congrArg (· >>= fun c => pure (c.done ++ [block kind trait c.current])) hf
      · rw [← hg,flatten_append,flatten_singleton]
        exact (h.lays []).trans (foldr_lay_condensed hl)
      · have := h.led
        rwa [hg] at this

theorem cutAllCommands_keeps_text (h : ∀ n ∈ ns, TextBlock n) :
    ∃ groups, cutAllCommands ns = .ok groups.flatten ∧ Forall₂ CutsInto ns groups := by
  induction ns with
  | nil => exact ⟨[],rfl,.nil⟩
  | cons n ns ih =>
    obtain ⟨hn,hr⟩ := forall_mem_cons.mp h
    obtain ⟨out,hc,ho⟩ := cutCommands_cuts hn
    obtain ⟨groups,hs,hg⟩ := ih hr
    exact ⟨out :: groups,by rw [cutAllCommands,hc,ok_bind,hs]; rfl,.cons ho hg⟩

def commanded : List Node :=
  [.item (some .code) none .none (.text "x\n@param"),
    block .header (.level 2) [span .strong (.text "s"),ofText "a\n  @par",ofText "am x\n@returns y",
      span .code (.text "z")]]

theorem commanded_keeps_text :
    (∀ n ∈ commanded, TextBlock n) ∧
    ∃ groups, cutAllCommands commanded = .ok groups.flatten ∧
    Forall₂ CutsInto commanded groups := by
  have h : ∀ n ∈ commanded, TextBlock n := by
    refine forall_mem_cons.mpr ⟨.code _ _ _,forall_mem_singleton.mpr (.spans ?_)⟩
    simp only [forall_mem_cons]
    exact ⟨⟨rfl,.inl rfl⟩,uniform_ofText _,uniform_ofText _,⟨rfl,.inl rfl⟩,forall_mem_nil _⟩
  exact ⟨h,cutAllCommands_keeps_text h⟩

end Node

end Docweave
