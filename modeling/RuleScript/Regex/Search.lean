import RuleScript.Regex.Expr
/-!
# Regular expressions: where an expression matches

A search asks whether an expression matches somewhere in a text. The answer is found
from tables of places: for each part of the expression and each place `i` of the text,
the set of places where a match of the part that starts at `i` can end. Places run from
0 to the length of the text, in characters, and a set of places is a bit set.

Every match starts and ends between characters: a class of bytes matches only ASCII,
and classes of scalar values match whole characters. So the characters are the units a
search needs, and a byte beyond ASCII next to a place is a character that is not a word
character.

A repetition is unrolled only so far as it can change the answer. With `n` the number
of places, a chain of more than `n` matches of a part has an empty match in it, which
can be repeated or left out; so `n` matches reach the same places as any number above
it, and the counts of a repetition can be cut down to `n`.
-/

namespace RuleScript

namespace Regex

def isWordChar (c : Char) : Bool :=
  c.toNat < 128 && (c.isAlphanum || c = '_')

namespace Look

def holds (text : Array Char) (p : Nat) (l : Look) : Bool :=
  let prev := if p = 0 then none else text[p - 1]?
  let next := text[p]?
  let before := (prev.map isWordChar).getD false
  let after := (next.map isWordChar).getD false
  match l with
  | .textStart => p = 0
  | .textEnd => p = text.size
  | .lineStart => p = 0 || prev == some '\n'
  | .lineEnd => p = text.size || next == some '\n'
  | .lineStartCRLF =>
    p = 0 || prev == some '\n' || (prev == some '\r' && next != some '\n')
  | .lineEndCRLF =>
    p = text.size || next == some '\r' || (next == some '\n' && prev != some '\r')
  | .wordAscii | .wordUnicode => before != after
  | .notWordAscii | .notWordUnicode => before == after
  | .wordStartAscii | .wordStartUnicode => !before && after
  | .wordEndAscii | .wordEndUnicode => before && !after
  | .wordStartHalfAscii | .wordStartHalfUnicode => !before
  | .wordEndHalfAscii | .wordEndHalfUnicode => !after

end Look

namespace Search

def places (text : Array Char) : List Nat := List.range (text.size + 1)

def image (text : Array Char) (table : Array Nat) (s : Nat) : Nat :=
  (places text).foldl (fun acc p => if s.testBit p then acc ||| table.getD p 0 else acc) 0

/-- A place is set after folding a step over some places exactly when it was set before,
or one of the places is in the set and reaches it. -/
theorem testBit_image_foldl (table : Array Nat) (s w : Nat) :
    ∀ (l : List Nat) (acc : Nat),
      (l.foldl (fun acc p => if s.testBit p then acc ||| table.getD p 0 else acc) acc).testBit w =
        (acc.testBit w || l.any fun p => s.testBit p && (table.getD p 0).testBit w)
  | [], acc => by simp
  | p :: l, acc => by
    rw [List.foldl_cons, List.any_cons, testBit_image_foldl table s w l]
    cases hb : s.testBit p <;> simp [Nat.testBit_or, Bool.or_assoc]

theorem testBit_image (text : Array Char) (table : Array Nat) (s w : Nat) :
    (image text table s).testBit w =
      (places text).any fun p => s.testBit p && (table.getD p 0).testBit w := by
  rw [image, testBit_image_foldl]
  simp

def lookTable (text : Array Char) (l : Look) : Array Nat :=
  ((places text).map fun p => if l.holds text p then 1 <<< p else 0).toArray

def literalTable (text : Array Char) (cs : List Char) : Array Nat :=
  ((places text).map fun p =>
    if (text.extract p (p + cs.length)).toList == cs then 1 <<< (p + cs.length) else 0).toArray

def classTable (text : Array Char) (rs : List (Nat × Nat)) : Array Nat :=
  ((places text).map fun p =>
    match text[p]? with
    | some c => if RangeSet.holds rs c.toNat then 1 <<< (p + 1) else 0
    | none => 0).toArray

def thenTable (text : Array Char) (a b : Array Nat) : Array Nat :=
  a.map (image text b)

def orTable (a b : Array Nat) : Array Nat :=
  (a.zip b).map fun (x, y) => x ||| y

/-- The sets after `k` more steps through a table from `s`, stopping early once the set
is empty. -/
def stepsFrom (text : Array Char) (table : Array Nat) : Nat → Nat → Nat
  | 0, s => s
  | k + 1, s => if s = 0 then 0 else stepsFrom text table k (image text table s)

/-- The union of `s` and the sets after one to `k` more steps from it, stopping early
once a step changes nothing. -/
def upTo (text : Array Char) (table : Array Nat) : Nat → Nat → Nat → Nat
  | 0, _, acc => acc
  | k + 1, s, acc =>
    let s' := image text table s
    if s' = s then acc else upTo text table k s' (acc ||| s')

/-- The places reached from `s` by any number of steps, with `k` rounds to go; a round
that adds nothing ends the search. -/
def closure (text : Array Char) (table : Array Nat) : Nat → Nat → Nat
  | 0, s => s
  | k + 1, s =>
    let s' := s ||| image text table s
    if s' = s then s else closure text table k s'

/-- The table of between `lo` and `hi` matches of a part, or at least `lo` when `hi` is
none, with the counts cut down to the number of places. -/
def repeatTable (text : Array Char) (table : Array Nat) (lo : Nat) (hi : Option Nat) :
    Array Nat :=
  let n := text.size + 1
  let lo := min lo n
  ((places text).map fun p =>
    let first := stepsFrom text table lo (1 <<< p)
    match hi with
    | some hi => upTo text table (min hi n - lo) first first
    | none => closure text table n first).toArray

end Search

open Search in
mutual

/-- The table of an expression over a text: for each place, the set of places a match
starting there can end. -/
def Expr.table (text : Array Char) : Expr → Array Nat
  | .empty => ((places text).map fun p => 1 <<< p).toArray
  | .literal cs => literalTable text cs
  | .cls rs _ => classTable text rs
  | .look l => lookTable text l
  | .rep lo hi _ sub => repeatTable text (Expr.table text sub) lo hi
  | .capture _ sub => Expr.table text sub
  | .concat items => Expr.tableSeq text items
  | .alt items => Expr.tableAlt text items

def Expr.tableSeq (text : Array Char) : List Expr → Array Nat
  | [] => ((places text).map fun p => 1 <<< p).toArray
  | e :: es => thenTable text (Expr.table text e) (Expr.tableSeq text es)

def Expr.tableAlt (text : Array Char) : List Expr → Array Nat
  | [] => ((places text).map fun _ => 0).toArray
  | e :: es => orTable (Expr.table text e) (Expr.tableAlt text es)

end

/-- Whether an expression matches somewhere in a text. -/
def Expr.isMatchIn (e : Expr) (s : String) : Bool :=
  (e.table s.toList.toArray).any (· != 0)

end Regex

end RuleScript
