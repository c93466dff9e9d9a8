namespace ConstFun

/-- Whether a code point lies in one of the ranges of an ascending table. -/
def inRanges (code : Nat) : List (Nat × Nat) → Bool
  | [] => false
  | (low, high) :: rest =>
    if code < low then false
    else if code ≤ high then true
    else inRanges code rest

end ConstFun
