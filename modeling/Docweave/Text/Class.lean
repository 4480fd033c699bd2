import Docweave.Text.PrintTable
import Docweave.Text.WordTable

namespace Docweave.Text

def isBlank (c : Char) : Bool :=
  inRanges c.toNat false
    [9, 14, 28, 33, 133, 134, 160, 161, 5760, 5761, 8192, 8203, 8232, 8234, 8239, 8240, 8287,
      8288, 12288, 12289]

def isWord (c : Char) : Bool :=
  if c.toNat < 128 then c.isAlphanum || c == '_' else inRanges c.toNat false wordEdges

def isDigit (c : Char) : Bool :=
  if c.toNat < 128 then c.isDigit else inRanges c.toNat false digitEdges

def isPrintable (c : Char) : Bool :=
  if c.toNat < 128 then decide (32 ≤ c.toNat) && decide (c.toNat < 127)
  else inRanges c.toNat false printEdges

def digitValueFrom (n : Nat) : List Nat → Option Nat
  | first :: stop :: rest =>
      if first ≤ n ∧ n < stop then some ((n - first) % 10) else digitValueFrom n rest
  | _ => none

def digitValue (c : Char) : Option Nat :=
  digitValueFrom c.toNat digitEdges

end Docweave.Text
