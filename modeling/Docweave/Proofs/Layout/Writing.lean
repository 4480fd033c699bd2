import Docweave.Proofs.Base.Elements
import Docweave.Tree.Output

namespace Docweave.Tree

open List Element Text
open String (join)

variable {d : Edition} {w : Option Int} {lang : Dialect} {ind : Int} {next start : String} {e e' : Element}
  {ts : List String} {es : List Element} {err : Option Fault}

inductive Respells (e : Element) : Element → Prop
  | same : Respells e e
  | warned (text : String) : Respells e (e.insert 0 { tag := "warning", text := some text })
  | grouped (labels : List String) : Respells e (e.setValue "atGroups" (.names labels))
  | led (labels : List String) (lead text : String) :
      Respells e { (e.setValue "atGroups" (.names labels)).set "atPrefix" lead with text := some text }

lemma respellLine_ok {hang : Option Int} (h : respellLine lang e = .ok (e',hang)) :
  (e.attribute? "hanging" = none ∧ hang = none ∧ e' = e) ∨
    e.attribute? "hanging" ≠ none ∧ hang.isSome ∧ Respells e e' := by
  rw [respellLine] at h
  split at h
  · next hn =>
      cases h
      exact .inl ⟨hn,rfl,rfl⟩
  next s hs =>
    refine .inr ⟨by simp [hs],?_⟩
    obtain ⟨n,-,h⟩ := bind_ok h
    split at h
    · dsimp only at h
      split at h
      · cases h
        refine ⟨rfl,?_⟩
        split
        · exact .warned _
        · exact .same
      · split at h
        · cases h
          exact ⟨rfl,.grouped _⟩
        · cases h
          exact ⟨rfl,.led _ _ _⟩
    · cases h

def ending (e : Element) : List String := if e.has "bareLine" then [] else ["\n"]

inductive WritesLine (w : Option Int) (lang : Dialect) (start : String) (e e' : Element) : List String → Prop
  | plain {text : String} (hresp : respellLine lang e = .ok (e',none)) (htext : e'.text = some text) :
      WritesLine w lang start e e' (start :: text :: ending e')
  | filled {hang : Int} {ts : List String} (hresp : respellLine lang e = .ok (e',some hang))
      (hfill : fillLine w start (e'.text.getD "") hang = .ok ts) : WritesLine w lang start e e' (ts ++ ending e')

lemma writeLine_ok_iff : writeLine w lang start e = .ok (e',ts) ↔ WritesLine w lang start e e' ts := by
  constructor
  · intro h
    obtain ⟨⟨e1,hang⟩,hr,h⟩ := bind_ok h
    cases hang with
    | none =>
      dsimp only at h
      split at h
      · next text ht =>
          cases h
          exact .plain hr ht
      · cases h
    | some n =>
      obtain ⟨filled,hf,h⟩ := bind_ok h
      cases h
      exact .filled hr hf
  · intro h
    cases h with
    | plain hr ht =>
      rw [writeLine,hr,ok_bind]
      dsimp only
      rw [ht]
      rfl
    | filled hr hf =>
      rw [writeLine,hr,ok_bind]
      dsimp only
      rw [hf]
      rfl

lemma writeLinesFrom_eq (h : writeLine w lang start e = .ok (e',ts)) (es : List Element) (err : Option Fault) :
  writeLinesFrom w lang next start (e :: es) err =
    let rest := writeLinesFrom w lang next next es err
    ⟨ts ++ rest.texts,e' :: rest.lines,rest.fault⟩ := by
  rw [writeLinesFrom,h]

lemma writeLinesFrom_ok (h : (writeLinesFrom w lang next start (e :: es) err).fault = none) :
  ∃ e' ts, writeLine w lang start e = .ok (e',ts) ∧ (writeLinesFrom w lang next next es err).fault = none := by
  cases hw : writeLine w lang start e with
  | error fault =>
    rw [writeLinesFrom,hw] at h
    cases h
  | ok r =>
    rw [writeLinesFrom_eq hw] at h
    exact ⟨_,_,rfl,h⟩

def leader (dialect : Dialect) (indent : Int) (isFirst : Bool) : String :=
  if dialect.isSwift then spacesInt (indent + 1)
  else if isFirst then spacesInt indent ++ "/**" ++ " "
  else spacesInt (indent + 1) ++ "* "

lemma writeComment_eq (hs : standing d e = .ok (lang,ind)) (ls : Stream Element) :
    writeComment d w e ls =
      let all := writeLinesFrom w lang (leader lang ind false) (leader lang ind true) ls.items ls.fault
      { all with texts := (if lang.isSwift then [spacesInt ind ++ "/**" ++ "\n"] else []) ++ all.texts ++
          if all.fault.isSome then [] else
            (if ls.items.isEmpty && !lang.isSwift then [leader lang ind true] else []) ++
              ["\n",spacesInt (ind + 1),"*/"] } := by
  rw [writeComment,hs]
  cases lang with
  | swift =>
    have hn : spacesInt (ind + 1) ++ "" = leader .swift ind false := String.append_empty
    have hst : leader .swift ind true = leader .swift ind false := rfl
    have hsw : Dialect.swift.isSwift := rfl
    simp only [hsw,if_true,hn,hst,Bool.not_true,Bool.and_false,Bool.false_eq_true,if_false]
  | plain => rfl

lemma writeComment_ok {ls : Stream Element} (h : (writeComment d w e ls).fault = none) :
  ∃ lang ind, standing d e = .ok (lang,ind) := by
  cases hs : standing d e with
  | error fault =>
    rw [writeComment,hs] at h
    cases h
  | ok r => exact ⟨_,_,rfl⟩

def outputLines (e : Element) : List Element :=
  match childIndex? "outputs" e with
  | none => []
  | some i => ((e.children[i]?).map Element.children).getD []

inductive WritesElement (w : Option Int) (e : Element) : Element × String → Prop
  | code {text : String} (hindex : childIndex? "outputs" e = none) (htext : e.text = some text) :
      WritesElement w e (e,text)
  | comment {i : Nat} {all : Written} (hindex : childIndex? "outputs" e = some i)
      (hall : writeComment .final w e (.ofList (outputLines e)) = all) (hfault : all.fault = none) :
      WritesElement w e ({ e with children := e.children.modify i fun c => { c with children := all.lines } },
        join all.texts)

lemma writeElement_ok_iff {r : Element × String} : writeElement w e = .ok r ↔ WritesElement w e r := by
  rw [writeElement]
  constructor
  · intro h
    split at h
    · next hi =>
        split at h
        · next text ht =>
            cases h
            exact .code hi ht
        · cases h
    · next i hi =>
        dsimp only at h
        split at h
        · cases h
        · next hf =>
            cases h
            rw [show ((e.children[i]?).map Element.children).getD [] =
              outputLines e by rw [outputLines,hi]] at hf ⊢
            exact .comment hi rfl hf
  · intro h
    cases h with
    | code hi ht =>
      rw [hi]
      dsimp only
      rw [ht]
      rfl
    | comment hi ha hf =>
      rw [outputLines,hi] at ha
      rw [hi]
      dsimp only at ha ⊢
      rw [ha,hf]
      rfl

end Docweave.Tree
