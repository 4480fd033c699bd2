import Docweave.Proofs.Jobs.Extraction

namespace Docweave

open List Text Comment

def Fault.Reports (cause f : Fault) : Prop :=
  f.category = cause.category ∧ f.cause = some cause ∧ ∃ block : String,
    f.message = Fault.shown cause.category ("Error getting Markdown items. Block:" ++ block ++ ".")

def Category.IsRaised (c : Category) : Prop :=
  c = .value ∨ c.isSystem = true ∨ c = .runtime ∨ c = .assertion ∨ c = .unsupported ∨ c = .noKey

def isAscii (s : String) : Bool := s.toList.all fun c => c.toNat < 128

lemma quotedBytes_cases (s : String) : (isAscii s ∧ ∃ t, quotedBytes s = .ok t) ∨
    ¬ isAscii s ∧ ∃ span, quotedBytes s = .error (.notAscii s span) := by
  have ha : isAscii s ↔ (quotedBytes? s).isSome := by simp [isAscii,quotedBytes?_isSome_iff]
  rw [ha,quotedBytes]
  cases quotedBytes? s with
  | none => exact .inr ⟨by simp,_,rfl⟩
  | some t => exact .inl ⟨rfl,t,rfl⟩

lemma mapM_quotedBytes (f : String → String) (texts : List String) :
    (texts.all isAscii ∧ ∃ out, texts.mapM (fun s => (quotedBytes s).map f) = .ok out) ∨
    ¬ texts.all isAscii ∧ ∃ s span, texts.mapM (fun s => (quotedBytes s).map f) = .error (.notAscii s span) := by
  induction texts with
  | nil => exact .inl ⟨rfl,[],rfl⟩
  | cons s texts ih =>
    rw [all_cons,Bool.and_eq_true,mapM_cons]
    rcases quotedBytes_cases s with ⟨hs,t,ht⟩ | ⟨hs,span,ht⟩
    · rcases ih with ⟨hr,out,ho⟩ | ⟨hr,s',span,ho⟩
      · exact .inl ⟨⟨hs,hr⟩,f t :: out,by rw [ht,ho]; rfl⟩
      · exact .inr ⟨fun h => hr h.2,s',span,by rw [ht,ho]; rfl⟩
    · exact .inr ⟨fun h => hs h.1,s,span,by rw [ht]; rfl⟩

namespace Comment

variable {r : Remark} {b : Block} {src : String}

lemma isAscii_spacesInt (n : Int) : isAscii (spacesInt n) := by
  rw [isAscii,spacesInt,spaces,String.toList_ofList,all_replicate]
  split <;> rfl

lemma isBlock_make (h : Block.make (r.strips.map lineOf) (some src) = .ok b) : IsBlock r b ∧ b.items = none := by
  obtain ⟨b',hb,hl,hi,hs⟩ := make_ok r src
  obtain rfl := Except.ok.inj (h.symm.trans hb)
  refine ⟨⟨hl,hi,hs⟩,?_⟩
  obtain ⟨⟨start,allLed⟩,-,h⟩ := bind_ok h
  cases allLed <;>
  · obtain ⟨_,-,h⟩ := bind_ok h
    obtain ⟨_,-,h⟩ := bind_ok h
    cases h
    rfl

lemma describe_cases (hb : IsBlock r b) (hi : b.items = none) :
    (b.texts.all isAscii ∧ ∃ shown, b.describe = .ok shown) ∨
    ¬ b.texts.all isAscii ∧ ∃ s span, b.describe = .error (.notAscii s span) := by
  have ho : (b.opened r.mark.indent.length ++ ["\n",spacesInt (r.mark.indent.length + 1),"*/"]).all isAscii := by
    cases hd : b.dialect <;> simp [Block.opened,isAscii_spacesInt,hd,Dialect.isSwift] <;> decide
  have ht : (b.outputs none).texts = .ok (b.opened r.mark.indent.length ++
      ["\n",spacesInt (r.mark.indent.length + 1),"*/"]) := by
    rw [Block.outputs,hb.indentStart,hi]
  obtain ⟨-,out,hout⟩ := (mapM_quotedBytes ("    " ++ ·) _).resolve_right fun h => h.1 ho
  rw [Block.describe,lineNumbers_ok hb,ok_bind]
  rcases mapM_quotedBytes ("    " ++ ·) b.texts with ⟨ha,out',ho'⟩ | ⟨ha,s,span,ho'⟩
  · refine .inl ⟨ha,?_⟩
    simp only [ho',ok_bind,ht,hout]
    exact ⟨_,rfl⟩
  · exact .inr ⟨ha,s,span,by simp only [ho']; rfl⟩

end Comment

namespace Job

variable {r : Remark} {b : Block} {path : String} {j : Job} {fault : Fault} {ascii : Bool}

def blockItems (path : String) (b : Block) : Act Job (List Node) :=
  withShelf fun store => (Node.read (String.join b.texts)).within
    (fun shelf => ⟨{},{ store, shelf, source := some path }⟩) fun s _ => s.env.shelf

lemma readBlock_fails (h : ((blockItems path b).perform j).1 = .error fault) :
    ((readBlock path b).perform j).1 = .error (blockFault b fault) := by
  have hr : readBlock path b = do
      let items ← tryCatch (blockItems path b) fun fault => Act.fail (blockFault b fault)
      return { b with items := some items } := rfl
  rw [hr,Act.perform_bind_eq,Act.perform_tryCatch_error (Prod.ext h rfl)]
  rfl

lemma blockFault_cases (hb : Block.make (r.strips.map lineOf) (some path) = .ok b)
    (hc : fault.category.IsRaised) :
  (b.texts.all isAscii ∧ fault.Reports (blockFault b fault)) ∨
  ¬ b.texts.all isAscii ∧ (blockFault b fault).category = .notAscii ∧
  ¬ fault.Reports (blockFault b fault) := by
  have ho : ¬ (fault.category = .notUtf8 ∨ fault.category = .notAscii) := by
    rintro (h | h) <;> simp [h,Category.IsRaised,Category.isSystem] at hc
  obtain ⟨hb,hi⟩ := isBlock_make hb
  rw [blockFault]
  rcases describe_cases hb hi with ⟨ha,shown,hs⟩ | ⟨ha,s,span,hs⟩
  · simp only [hs,if_neg ho]
    exact .inl ⟨ha,rfl,rfl,shown,rfl⟩
  · rw [hs]
    exact .inr ⟨ha,rfl,fun h => ho (.inr h.1.symm)⟩

theorem block_fault_reported_iff (hblock : Block.make (r.strips.map lineOf) (some path) = .ok b)
    (hread : ((blockItems path b).perform j).1 = .error fault) (hraised : fault.category.IsRaised) :
    ∃ f, ((readBlock path b).perform j).1 = .error f ∧ (fault.Reports f ↔ b.texts.all isAscii) := by
  refine ⟨blockFault b fault, readBlock_fails hread, ?_⟩
  rcases blockFault_cases hblock hraised with ⟨hascii, hreports⟩ | ⟨hascii, -, hmasked⟩
  · exact iff_of_true hreports hascii
  · exact iff_of_false hmasked hascii

def quoteRemark (after : List Char) : Remark := ⟨1,⟨[],true,after⟩,[],some (1,none)⟩

def idleJob : Job := { store := Files.Store.empty ["w"] }

def failsAs : Except Fault (List Node) → Option Category
  | .ok _ => none
  | .error f => some f.category

def Quotes (after : List Char) (b : Block) (fault : Fault) : Prop :=
  Block.make ((quoteRemark after).strips.map lineOf) (some "a.h") = .ok b ∧
    ((blockItems "a.h" b).perform idleJob).1 = .error fault ∧ fault.category = .unsupported

lemma exists_quotes {after : List Char}
    (h : ((Block.make ((quoteRemark after).strips.map lineOf) (some "a.h")).toOption.map
    fun b => (failsAs ((blockItems "a.h" b).perform idleJob).1,b.texts.all isAscii)) =
      some (some .unsupported,ascii)) :
  ∃ b fault, Quotes after b fault ∧ fault.category.IsRaised ∧ b.texts.all isAscii = ascii := by
  obtain ⟨b,hb,hf⟩ := Option.map_eq_some_iff.mp h
  obtain ⟨hf,ha⟩ := Prod.mk.inj hf
  cases hr : ((blockItems "a.h" b).perform idleJob).1 with
  | ok items =>
    rw [hr] at hf
    cases hf
  | error fault =>
    rw [hr] at hf
    have hc := Option.some.inj hf
    exact ⟨b,fault,⟨ok_of_toOption hb,hr,hc⟩,by simp [hc,Category.IsRaised],ha⟩

theorem block_fault_reported_at_quote : ∃ b fault f, Quotes ['>', ' ', 'b', ' '] b fault ∧
    ((readBlock "a.h" b).perform idleJob).1 = .error f ∧ fault.Reports f := by
  obtain ⟨b, fault, hquotes, hraised, hascii⟩ := @exists_quotes true ['>', ' ', 'b', ' '] (by decide +kernel)
  obtain ⟨f, hfails, hreports⟩ := block_fault_reported_iff hquotes.1 hquotes.2.1 hraised
  exact ⟨b, fault, f, hquotes, hfails, hreports.mpr hascii⟩

theorem block_fault_masked_at_accent : ∃ b fault f, Quotes ['>', ' ', 'é', ' '] b fault ∧
    ((readBlock "a.h" b).perform idleJob).1 = .error f ∧ f.category = .notAscii ∧
    ¬ fault.Reports f := by
  obtain ⟨b, fault, hquotes, hraised, hascii⟩ := @exists_quotes false ['>', ' ', 'é', ' '] (by decide +kernel)
  obtain ⟨-, hmasked⟩ := (blockFault_cases hquotes.1 hraised).resolve_left fun h =>
    by rw [hascii] at h; cases h.1
  exact ⟨b, fault, _, hquotes, readBlock_fails hquotes.2.1, hmasked⟩

end Job

end Docweave
