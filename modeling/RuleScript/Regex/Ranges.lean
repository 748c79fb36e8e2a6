/-!
# Regular expressions: sets of code points as ranges

A class of characters is kept as a `RangeSet`: closed ranges, ascending, neither
overlapping nor touching. A set is either of Unicode scalar values, from 0 to 0x10FFFF,
or of bytes, from 0 to 0xFF. Between scalar values the step from 0xD7FF goes straight to
0xE000, over the surrogates; two ranges on either side of that gap do not touch, since
their ends are not adjacent numbers.

A set also records whether it is known to be closed under case folding. An empty set
and the set of everything are; folding a set makes it so; the set operations keep the
mark only when both sides have it.
-/

namespace RuleScript

namespace Regex

/-- A set of code points or bytes, as canonical ranges, and whether it is known to be
closed under case folding. -/
structure RangeSet where
  ranges : List (Nat × Nat)
  folded : Bool
deriving Repr, DecidableEq, Inhabited

namespace RangeSet

def top (unicode : Bool) : Nat := if unicode then 0x10FFFF else 0xFF

def next (unicode : Bool) (n : Nat) : Nat := if unicode && n = 0xD7FF then 0xE000 else n + 1

def prev (unicode : Bool) (n : Nat) : Nat := if unicode && n = 0xE000 then 0xD7FF else n - 1

def span (a b : Nat) : Nat × Nat := if a ≤ b then (a, b) else (b, a)

def meets (a b : Nat × Nat) : Bool := max a.1 b.1 ≤ min a.2 b.2 + 1

def merge : List (Nat × Nat) → List (Nat × Nat)
  | [] => []
  | [r] => [r]
  | r :: s :: rest =>
    if meets r s then merge ((min r.1 s.1, max r.2 s.2) :: rest) else r :: merge (s :: rest)
termination_by rs => rs.length

/-- The canonical form of any list of ranges. -/
def canonical (rs : List (Nat × Nat)) : List (Nat × Nat) :=
  merge (rs.mergeSort fun a b => a.1 < b.1 || (a.1 = b.1 && a.2 ≤ b.2))

def empty : RangeSet := ⟨[], true⟩

def ofRanges (rs : List (Nat × Nat)) : RangeSet := ⟨canonical rs, rs.isEmpty⟩

def push (s : RangeSet) (a b : Nat) : RangeSet := ⟨canonical (s.ranges ++ [span a b]), false⟩

def union (s t : RangeSet) : RangeSet :=
  if t.ranges.isEmpty || s.ranges == t.ranges then s
  else ⟨canonical (s.ranges ++ t.ranges), s.folded && t.folded⟩

def meet : List (Nat × Nat) → List (Nat × Nat) → List (Nat × Nat)
  | [], _ => []
  | _, [] => []
  | a :: as, b :: bs =>
    let lo := max a.1 b.1
    let hi := min a.2 b.2
    let rest := if a.2 < b.2 then meet as (b :: bs) else meet (a :: as) bs
    if lo ≤ hi then (lo, hi) :: rest else rest
termination_by as bs => as.length + bs.length

def intersect (s t : RangeSet) : RangeSet :=
  if s.ranges.isEmpty then s
  else if t.ranges.isEmpty then empty
  else ⟨meet s.ranges t.ranges, s.folded && t.folded⟩

/-- The ranges of `as` with those of `bs` cut out, both canonical. A range is cut
around each range of `bs` it overlaps; a range of `bs` reaching past the current one is
kept for the next. -/
def cut (unicode : Bool) : List (Nat × Nat) → List (Nat × Nat) → List (Nat × Nat)
  | [], _ => []
  | as, [] => as
  | a :: as, b :: bs =>
    if b.2 < a.1 then cut unicode (a :: as) bs
    else if a.2 < b.1 then a :: cut unicode as (b :: bs)
    else
      let left := if a.1 < b.1 then [(a.1, prev unicode b.1)] else []
      if b.2 < a.2 then left ++ cut unicode ((next unicode b.2, a.2) :: as) bs
      else if a.2 < b.2 then left ++ cut unicode as (b :: bs)
      else left ++ cut unicode as bs
termination_by as bs => (as.length + bs.length, bs.length)
decreasing_by all_goals (simp_wf; omega)

def difference (unicode : Bool) (s t : RangeSet) : RangeSet :=
  if s.ranges.isEmpty || t.ranges.isEmpty then s
  else ⟨cut unicode s.ranges t.ranges, s.folded && t.folded⟩

def symmetricDifference (unicode : Bool) (s t : RangeSet) : RangeSet :=
  (s.union t).difference unicode (s.intersect t)

def gaps (unicode : Bool) : List (Nat × Nat) → List (Nat × Nat)
  | a :: b :: rest => span (next unicode a.2) (prev unicode b.1) :: gaps unicode (b :: rest)
  | _ => []

/-- The complement of a set within its domain. The complement of the empty set is the
whole domain, which is closed under folding. -/
def negate (unicode : Bool) (s : RangeSet) : RangeSet :=
  match s.ranges, s.ranges.getLast? with
  | first :: _, some last =>
    let before := if first.1 > 0 then [(0, prev unicode first.1)] else []
    let after := if last.2 < top unicode then [(next unicode last.2, top unicode)] else []
    ⟨before ++ gaps unicode s.ranges ++ after, s.folded⟩
  | _, _ => ⟨[(0, top unicode)], true⟩

def otherCase (r : Nat × Nat) : List (Nat × Nat) :=
  let lower := if max r.1 0x61 ≤ min r.2 0x7A then [(max r.1 0x61 - 32, min r.2 0x7A - 32)] else []
  let upper := if max r.1 0x41 ≤ min r.2 0x5A then [(max r.1 0x41 + 32, min r.2 0x5A + 32)] else []
  lower ++ upper

def foldAscii (s : RangeSet) : RangeSet :=
  if s.folded then s
  else ⟨canonical (s.ranges ++ s.ranges.flatMap otherCase), true⟩

def isAscii (s : RangeSet) : Bool := s.ranges.all fun r => r.2 ≤ 0x7F

def holds (rs : List (Nat × Nat)) (n : Nat) : Bool := rs.any fun r => r.1 ≤ n && n ≤ r.2

end RangeSet

end Regex

end RuleScript
