/-!
# Regular expressions: the UTF-8 sequences of a range

A search reads text as UTF-8 bytes, so a class of scalar values is matched as a choice
among sequences of byte ranges. A range of scalar values is cut into pieces that each
encode as one such sequence: the surrogates are cut out, the range is cut where the
encoded length changes, and each piece is cut further until every byte of its first
value and of its last value ranges independently of the others.

The pieces come in ascending order, and the cutting follows a fixed order of checks, so
the sequences of a range are always the same ones in the same order: the size of a
compiled pattern depends on both.
-/

namespace RuleScript

namespace Regex

def utf8Code (n : Nat) : List Nat :=
  if n < 0x80 then [n]
  else if n < 0x800 then [0xC0 + n / 64, 0x80 + n % 64]
  else if n < 0x10000 then [0xE0 + n / 4096, 0x80 + n / 64 % 64, 0x80 + n % 64]
  else [0xF0 + n / 262144, 0x80 + n / 4096 % 64, 0x80 + n / 64 % 64, 0x80 + n % 64]

def maxScalar : Nat → Nat
  | 1 => 0x7F
  | 2 => 0x7FF
  | 3 => 0xFFFF
  | _ => 0x10FFFF

inductive Cut where
  | split (first second : Nat × Nat)
  | drop
  | emit (seq : List (Nat × Nat))
deriving Repr, Inhabited

namespace Cut

/-- The first cut of a range at the end of the code points of some length from 1 to
`k` bytes, the shortest length first. -/
def atLength (s e : Nat) : Nat → Option Cut
  | 0 => none
  | k + 1 =>
    let m := maxScalar (k + 1)
    match atLength s e k with
    | some c => some c
    | none => if s ≤ m && m < e then some (.split (s, m) (m + 1, e)) else none

/-- The first cut of a range where its first and last values share fewer than
`i` trailing bytes, for `i` from 1 to `k`. -/
def atByte (s e : Nat) : Nat → Option Cut
  | 0 => none
  | k + 1 =>
    match atByte s e k with
    | some c => some c
    | none =>
      let block := 1 <<< (6 * (k + 1))
      if s / block != e / block then
        if s % block != 0 then
          let top := s - s % block + (block - 1)
          some (.split (s, top) (top + 1, e))
        else if e % block != block - 1 then
          let low := e - e % block
          some (.split (s, low - 1) (low, e))
        else none
      else none

end Cut

/-- The cut of a range of code points: the surrogates first, then an empty range, then
the length boundaries, then a range of ASCII, then the byte boundaries, and otherwise
the sequence of its encodings. -/
def Cut.of (r : Nat × Nat) : Cut :=
  let (s, e) := r
  if s < 0xE000 && e > 0xD7FF then .split (s, 0xD7FF) (0xE000, e)
  else if s > e then .drop
  else
    match Cut.atLength s e 3 with
    | some c => c
    | none =>
      if e ≤ 0x7F then .emit [(s, e)]
      else
        match Cut.atByte s e 3 with
        | some c => c
        | none => .emit (List.zip (utf8Code s) (utf8Code e))

/-- The sequences of the ranges pending, the next one first, with `fuel` looks. -/
def sequencesWith : Nat → List (Nat × Nat) → List (List (Nat × Nat))
  | 0, _ => []
  | _, [] => []
  | fuel + 1, r :: pending =>
    match Cut.of r with
    | .split a b => sequencesWith fuel (a :: b :: pending)
    | .drop => sequencesWith fuel pending
    | .emit seq => seq :: sequencesWith fuel pending

/-- The UTF-8 sequences of a range of code points. A range is cut in at most a few
dozen pieces, so the fuel given is never used up. -/
def sequencesOf (r : Nat × Nat) : List (List (Nat × Nat)) := sequencesWith 1000 [r]

end Regex

end RuleScript
