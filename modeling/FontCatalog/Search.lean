/-!
# Binary search

Several tables are arrays in ascending order. They come from untrusted
data, so the order is not certain, and what a search finds in an array
that is out of order depends on which elements it looks at. `bisect` fixes
that: it looks at the middle, rounded down, and goes to one side.
-/

namespace FontCatalog

/-- **Search among the indices from `lo` up to but not including `hi`.**
`probe i` says how what is wanted compares with element `i`; a probe that
says nothing ends the search. -/
def bisect (probe : Nat → Option Ordering) (lo hi : Nat) : Option Nat :=
  if lo < hi then
    let mid := (lo + hi) / 2
    match probe mid with
    | none => none
    | some .lt => bisect probe lo mid
    | some .gt => bisect probe (mid + 1) hi
    | some .eq => some mid
  else none
termination_by hi - lo

/-- What a search finds is in range, and the probe says that it is it. -/
theorem probe_of_bisect_eq_some {probe : Nat → Option Ordering} {lo hi i : Nat}
    (h : bisect probe lo hi = some i) : lo ≤ i ∧ i < hi ∧ probe i = some .eq := by
  fun_induction bisect probe lo hi with
  | case1 => simp at h
  | case2 lo hi hlt mid hprobe ih =>
    obtain ⟨hlo, hhi, heq⟩ := ih h
    exact ⟨hlo, by omega, heq⟩
  | case3 lo hi hlt mid hprobe ih =>
    obtain ⟨hlo, hhi, heq⟩ := ih h
    exact ⟨by omega, hhi, heq⟩
  | case4 lo hi hlt mid hprobe =>
    obtain rfl : mid = i := by simpa using h
    exact ⟨by omega, by omega, hprobe⟩
  | case5 => simp at h

end FontCatalog
