namespace FlowExpr.Text

-- Whether a code point lies in one of the closed ranges. The ranges are in increasing order, so
-- the search ends at the first one that starts beyond the code point.
def inRanges : List (Nat × Nat) → Nat → Bool
  | [], _ => false
  | (first, last) :: rest, n =>
    if n < first then false else if n ≤ last then true else inRanges rest n

end FlowExpr.Text
