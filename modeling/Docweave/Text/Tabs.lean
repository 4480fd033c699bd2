namespace Docweave.Text

def expandTabsFrom (size : Nat) : Nat → List Char → List Char
  | _, [] => []
  | column, '\t' :: rest =>
      let width := if size = 0 then 0 else size - column % size
      List.replicate width ' ' ++ expandTabsFrom size (column + width) rest
  | column, c :: rest =>
      c :: expandTabsFrom size (if c = '\n' ∨ c = '\r' then 0 else column + 1) rest

def expandTabs (size : Int) (s : String) : String :=
  String.ofList (expandTabsFrom size.toNat 0 s.toList)

end Docweave.Text
