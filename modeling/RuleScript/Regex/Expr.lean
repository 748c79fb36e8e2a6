import RuleScript.Regex.Ranges
/-!
# Regular expressions: settled expressions

An `Expr` is a pattern with its flags settled: case-insensitive letters are classes of
both cases, a dot is the class of what it matches, anchors name the kind of line end
they look for, and groups that do not capture are gone. Classes are either of scalar
values or, outside Unicode mode, of bytes; every byte class that survives settling is
made of ASCII codes.

An expression is built only through smart constructors, which keep it small: adjacent
literals are joined, nested concatenations and choices are flattened, a choice among
single characters or classes is one class, a choice among concatenations with a common
start keeps that start outside, and a repetition of something that can only match the
empty text is at most one repetition.

Lengths of matches are counted in UTF-8 bytes.
-/

namespace RuleScript

namespace Regex

inductive Look where
  | textStart
  | textEnd
  | lineStart
  | lineEnd
  | lineStartCRLF
  | lineEndCRLF
  | wordAscii
  | notWordAscii
  | wordStartAscii
  | wordEndAscii
  | wordStartHalfAscii
  | wordEndHalfAscii
  | wordUnicode
  | notWordUnicode
  | wordStartUnicode
  | wordEndUnicode
  | wordStartHalfUnicode
  | wordEndHalfUnicode
deriving Repr, DecidableEq, Inhabited

namespace Look

def isUnicodeWord : Look → Bool
  | .wordUnicode | .notWordUnicode | .wordStartUnicode | .wordEndUnicode
  | .wordStartHalfUnicode | .wordEndHalfUnicode => true
  | _ => false

end Look

/-- A regular expression with its flags settled. -/
inductive Expr where
  | empty
  | literal (cs : List Char)
  | cls (ranges : List (Nat × Nat)) (bytes : Bool)
  | look (l : Look)
  | rep (lo : Nat) (hi : Option Nat) (greedy : Bool) (sub : Expr)
  | capture (index : Nat) (sub : Expr)
  | concat (items : List Expr)
  | alt (items : List Expr)
deriving Repr, Inhabited

namespace Expr

def beq : Expr → Expr → Bool
  | .empty, .empty => true
  | .literal a, .literal b => a == b
  | .cls a x, .cls b y => a == b && x == y
  | .look a, .look b => a == b
  | .rep a b c d, .rep a' b' c' d' => a == a' && b == b' && c == c' && beq d d'
  | .capture i a, .capture j b => i == j && beq a b
  | .concat as, .concat bs => beqList as bs
  | .alt as, .alt bs => beqList as bs
  | _, _ => false
where
  beqList : List Expr → List Expr → Bool
    | [], [] => true
    | a :: as, b :: bs => beq a b && beqList as bs
    | _, _ => false

instance : BEq Expr := ⟨beq⟩

def fail : Expr := .cls [] true

def byteLength (cs : List Char) : Nat := cs.foldr (fun c n => c.utf8Size + n) 0

def codeLength (n : Nat) : Nat := if n < 0x80 then 1 else if n < 0x800 then 2 else if n < 0x10000 then 3 else 4

def wordLimit : Nat := 18446744073709551615

mutual

def minLen : Expr → Option Nat
  | .empty => some 0
  | .literal cs => some (byteLength cs)
  | .cls rs bytes =>
    match rs with
    | [] => none
    | r :: _ => some (if bytes then 1 else codeLength r.1)
  | .look _ => some 0
  | .rep lo _ _ sub => (minLen sub).map fun n => min (n * lo) wordLimit
  | .capture _ sub => minLen sub
  | .concat items => minLenSum items
  | .alt items => minLenLeast items

def minLenSum : List Expr → Option Nat
  | [] => some 0
  | e :: es =>
    match minLen e, minLenSum es with
    | some a, some b => if a + b ≤ wordLimit then some (a + b) else none
    | _, _ => none

/-- The least of the least lengths of the branches of a choice; none when one of them
matches nothing. -/
def minLenLeast : List Expr → Option Nat
  | [] => none
  | [e] => minLen e
  | e :: es =>
    match minLen e, minLenLeast es with
    | some a, some b => some (min a b)
    | _, _ => none

end

mutual

def maxLen : Expr → Option Nat
  | .empty => some 0
  | .literal cs => some (byteLength cs)
  | .cls rs bytes =>
    match rs.getLast? with
    | none => none
    | some r => some (if bytes then 1 else codeLength r.2)
  | .look _ => some 0
  | .rep _ hi _ sub =>
    match hi, maxLen sub with
    | some h, some n => if n * h ≤ wordLimit then some (n * h) else none
    | _, _ => none
  | .capture _ sub => maxLen sub
  | .concat items => maxLenSum items
  | .alt items => maxLenMost items

def maxLenSum : List Expr → Option Nat
  | [] => some 0
  | e :: es =>
    match maxLen e, maxLenSum es with
    | some a, some b => if a + b ≤ wordLimit then some (a + b) else none
    | _, _ => none

def maxLenMost : List Expr → Option Nat
  | [] => none
  | [e] => maxLen e
  | e :: es =>
    match maxLen e, maxLenMost es with
    | some a, some b => some (max a b)
    | _, _ => none

end

def onlyEmpty (e : Expr) : Bool := e.maxLen == some 0

mutual

/-- Whether every match starts with the test `l`: the tests at the start of a
concatenation count up to its first part that can match something non-empty. -/
def startsWith (l : Look) : Expr → Bool
  | .look l' => l' == l
  | .rep lo _ _ sub => lo > 0 && startsWith l sub
  | .capture _ sub => startsWith l sub
  | .concat items => startsWithSeq l items
  | .alt items => startsWithAll l items
  | _ => false

def startsWithSeq (l : Look) : List Expr → Bool
  | [] => false
  | e :: es => startsWith l e || (e.onlyEmpty && startsWithSeq l es)

def startsWithAll (l : Look) : List Expr → Bool
  | [] => false
  | [e] => startsWith l e
  | e :: es => startsWith l e && startsWithAll l es

end

mutual

def endsWith (l : Look) : Expr → Bool
  | .look l' => l' == l
  | .rep lo _ _ sub => lo > 0 && endsWith l sub
  | .capture _ sub => endsWith l sub
  | .concat items => endsWithSeq l items
  | .alt items => endsWithAll l items
  | _ => false

/-- Whether a concatenation ends with the test `l`: the tests at its end count back to
its last part that can match something non-empty. -/
def endsWithSeq (l : Look) : List Expr → Bool
  | [] => false
  | e :: es => endsWithSeq l es || (es.all onlyEmpty && endsWith l e)

def endsWithAll (l : Look) : List Expr → Bool
  | [] => false
  | [e] => endsWith l e
  | e :: es => endsWith l e && endsWithAll l es

end

mutual

def hasUnicodeWord : Expr → Bool
  | .look l => l.isUnicodeWord
  | .rep _ _ _ sub => hasUnicodeWord sub
  | .capture _ sub => hasUnicodeWord sub
  | .concat items => hasUnicodeWordList items
  | .alt items => hasUnicodeWordList items
  | _ => false

def hasUnicodeWordList : List Expr → Bool
  | [] => false
  | e :: es => hasUnicodeWord e || hasUnicodeWordList es

end

def ofLiteral (cs : List Char) : Expr := if cs.isEmpty then .empty else .literal cs

def ofClass (rs : List (Nat × Nat)) (bytes : Bool) : Expr :=
  match rs with
  | [] => fail
  | [(a, b)] => if a = b then .literal [Char.ofNat a] else .cls rs bytes
  | _ => .cls rs bytes

/-- A repetition. Something that can only match the empty text is repeated at most
once; no repetitions is the empty expression and exactly one is the expression itself. -/
def «repeat» (lo : Nat) (hi : Option Nat) (greedy : Bool) (sub : Expr) : Expr :=
  let (lo, hi) :=
    if sub.onlyEmpty then (min lo 1, some (match hi with | some h => min h 1 | none => 1))
    else (lo, hi)
  if lo = 0 && hi = some 0 then .empty
  else if lo = 1 && hi = some 1 then sub
  else .rep lo hi greedy sub

def joinLiterals : List Expr → List Expr
  | .literal a :: .literal b :: rest => joinLiterals (.literal (a ++ b) :: rest)
  | e :: rest => e :: joinLiterals rest
  | [] => []
termination_by es => es.length

def cat (items : List Expr) : Expr :=
  let flat := items.flatMap fun
    | .concat xs => xs
    | .empty => []
    | e => [e]
  match joinLiterals flat with
  | [] => .empty
  | [e] => e
  | es => .concat es

def singleChars : List Expr → Option (List Char)
  | [] => some []
  | .literal [c] :: rest => (singleChars rest).map (c :: ·)
  | _ => none

def classUnion : List Expr → Option RangeSet
  | [] => some RangeSet.empty
  | .cls rs _ :: rest => (classUnion rest).map fun u => (RangeSet.ofRanges rs).union u
  | _ => none

def parts : Expr → Option (List Expr)
  | .concat xs => some xs
  | _ => none

def commonStart : List Expr → List Expr → List Expr
  | a :: as, b :: bs => if a == b then a :: commonStart as bs else []
  | _, _ => []

/-- The number of parts of the branches of a choice, a bound on how often a common
start can be taken out of them. -/
def partCount (items : List Expr) : Nat :=
  items.foldr (fun e n => ((parts e).map List.length).getD 1 + n) 1

/-- A choice among branches, given `fuel` for taking common starts out: nested choices
flattened; nothing is the failing expression, one branch is itself; single characters
or classes make one class; a common start of concatenations is kept outside, before the
choice among the rests. -/
def choiceWith : Nat → List Expr → Expr
  | fuel, items =>
    let flat := items.flatMap fun
      | .alt xs => xs
      | e => [e]
    match flat with
    | [] => fail
    | [e] => e
    | _ =>
      match singleChars flat with
      | some cs => ofClass (RangeSet.ofRanges (cs.map fun c => (c.toNat, c.toNat))).ranges false
      | none =>
        match classUnion flat with
        | some u => ofClass u.ranges false
        | none =>
          match fuel, flat.mapM parts with
          | fuel + 1, some (first :: others) =>
            let pre := others.foldl commonStart first
            if pre.isEmpty then .alt flat
            else
              let rests := (first :: others).map fun xs => cat (xs.drop pre.length)
              cat (pre ++ [choiceWith fuel rests])
          | _, _ => .alt flat

def choice (items : List Expr) : Expr := choiceWith (partCount items) items

end Expr

end Regex

end RuleScript
