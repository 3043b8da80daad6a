/-!
# Sets of code points

A property of characters is kept as a list of closed ranges of code points, or, where upper and
lower case letters alternate, as a list of runs that take every `step`-th code point.
-/

namespace WireCodec.Text

/-- Some range `(first, last)` holds the code point `n`. -/
def inRanges (ranges : List (Nat × Nat)) (n : Nat) : Bool :=
  ranges.any fun (first, last) => first ≤ n && n ≤ last

/-- Some run `(first, last, step)` holds the code point `n`. -/
def inRuns (runs : List (Nat × Nat × Nat)) (n : Nat) : Bool :=
  runs.any fun (first, last, step) => first ≤ n && n ≤ last && (n - first) % step == 0

end WireCodec.Text
