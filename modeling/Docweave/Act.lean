import Docweave.Fault

namespace Docweave

abbrev Act (σ α : Type) : Type := ExceptT Fault (StateM σ) α

namespace Act

variable {σ τ α : Type}

def fail (fault : Fault) : Act σ α := throw fault

def ofExcept : Except Fault α → Act σ α
  | .ok a => pure a
  | .error fault => throw fault

def perform (a : Act σ α) (s : σ) : Except Fault α × σ := (ExceptT.run a).run s

def within (get : τ → σ) (set : σ → τ → τ) (a : Act σ α) : Act τ α :=
  ExceptT.mk fun t =>
    let (r, s) := a.perform (get t)
    (r, set s t)

end Act

end Docweave
