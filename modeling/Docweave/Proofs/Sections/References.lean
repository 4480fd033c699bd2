import Docweave.Proofs.Jobs.Failures
import Docweave.Proofs.Sections.Routes

namespace Docweave

open List
open String (ofList toList_append ofList_toList toList_inj)

namespace Shelf

open Files Docweave.Path

variable {fs : Store} {base rel rest : String}

end Shelf

namespace Job

open Files Store Docweave.Shelf Act Docweave.Path

variable {r : Report} {j j' : Job} {tgt ref path : String} {fs : Store} {folder : Option String}

def Free (j : Job) (target : String) : Prop :=
  ∃ store place, madeFolders j.settings.extractFolder target j.store = .ok store ∧
    store.exists? target = false ∧ store.locate target = .ok place

lemma referencePath_of_home {fs' : Store} (h : fs'.home = fs.home) (folder : Option String)
  (path tgt : String) : referencePath fs' folder path tgt = referencePath fs folder path tgt := by
  simp only [referencePath,Store.relative,Store.cwd,h]

lemma free_of_start (ha : Aims r j tgt)
    (h : Starts r j (.ok ({ r with extractPath := some (some tgt) },some ref)) j') :
    Free j tgt ∧ referencePath j.store j.settings.extractFolder r.path tgt = .ok ref ∧
      j'.store.home = j.store.home := by
  cases h.aimed ha with
  | made hd hn hw hr =>
    obtain ⟨place,hp,hc,-⟩ := write_ok hw
    have hh := hc.folders.home.trans (madeFolders_more hd).home
    rw [referencePath_of_home hh] at hr
    obtain ⟨path,hpt,-,hs⟩ := made_ok hr
    exact ⟨⟨_,place,hd,hn,(target_ok hp).1⟩,Option.some.inj hs ▸ hpt,hh⟩

section

end

end Job

end Docweave
