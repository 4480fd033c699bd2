namespace Docweave.Text

def inRanges (n : Nat) : Bool → List Nat → Bool
  | inside, [] => inside
  | inside, edge :: edges => if n < edge then inside else inRanges n (!inside) edges

def edgesFrom (edge : Nat) : List Nat → List Nat
  | [] => []
  | span :: spans => (edge + span) :: edgesFrom (edge + span) spans

end Docweave.Text
