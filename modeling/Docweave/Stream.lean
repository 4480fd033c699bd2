import Docweave.Fault

namespace Docweave

structure Stream (α : Type) where
  items : List α
  fault : Option Fault := none

namespace Stream

variable {α β : Type}

def nil : Stream α := ⟨[], none⟩

def failed (fault : Fault) : Stream α := ⟨[], some fault⟩

def ofList (l : List α) : Stream α := ⟨l, none⟩

def ofExcept : Except Fault (List α) → Stream α
  | .ok l => ⟨l, none⟩
  | .error fault => failed fault

def cons (a : α) (s : Stream α) : Stream α := ⟨a :: s.items, s.fault⟩

def append (s t : Stream α) : Stream α :=
  match s.fault with
  | some _ => s
  | none => ⟨s.items ++ t.items, t.fault⟩

def toExcept (s : Stream α) : Except Fault (List α) :=
  match s.fault with
  | some fault => .error fault
  | none => .ok s.items

def bindList (f : α → Stream β) : List α → Option Fault → Stream β
  | [], fault => ⟨[], fault⟩
  | a :: as, fault =>
      let s := f a
      match s.fault with
      | some _ => s
      | none => ⟨s.items ++ (bindList f as fault).items, (bindList f as fault).fault⟩

def flatMap (s : Stream α) (f : α → Stream β) : Stream β := bindList f s.items s.fault

end Stream

end Docweave
