import RuleScript.Regex.Tree
import RuleScript.Regex.Expr
/-!
# Regular expressions: settling the flags

The tree of a pattern is turned into an `Expr` from the left, parts before the whole,
with the flags in force at each part. A flag setting holds up to the end of the group
around it, across its bars; a group with flags sets them for its contents only.

Some patterns are refused here. The tables of Unicode properties, of Unicode Perl
classes and of Unicode case folding are not available, so in Unicode mode a `\p` class,
a Perl class `\d`, `\s` or `\w`, and any letter or class under case-insensitive
matching are refused. Outside Unicode mode only ASCII may stand in classes, and nothing
may match a byte that cannot stand in UTF-8 text. The first refusal in that order, parts
before the whole, is the one reported.
-/

namespace RuleScript

namespace Regex

/-- The flags in force: each is set on or off, or left at its default. -/
structure Flags where
  caseless : Option Bool
  multiLine : Option Bool
  dotAll : Option Bool
  swapGreed : Option Bool
  unicode : Option Bool
  crlf : Option Bool
deriving Repr, DecidableEq, Inhabited

namespace Flags

def none : Flags := ⟨.none, .none, .none, .none, .none, .none⟩

def apply (fl : Flags) (items : List FlagItem) : Flags :=
  let pick (f : Flag) (old : Option Bool) : Option Bool :=
    match FlagItem.stateOf f true items with
    | some v => some v
    | Option.none => old
  ⟨pick .caseless fl.caseless, pick .multiLine fl.multiLine, pick .dotAll fl.dotAll,
    pick .swapGreed fl.swapGreed, pick .unicode fl.unicode, pick .crlf fl.crlf⟩

def isCaseless (fl : Flags) : Bool := fl.caseless.getD false

def isUnicode (fl : Flags) : Bool := fl.unicode.getD true

end Flags

namespace Settle

def fault {α : Type} (k : FaultKind) (s : Span) : Except Fault α := .error ⟨k, s, none⟩

/-- A property name as it is compared: a leading `is` dropped, spaces, underscores and
hyphens dropped, letters in lower case, and characters beyond ASCII dropped. -/
def normalName (s : String) : String :=
  let cs := s.toList
  let (cs, hadIs) := match cs with
    | a :: b :: rest =>
      if (a = 'i' || a = 'I') && (b = 's' || b = 'S') then (rest, true) else (cs, false)
    | _ => (cs, false)
  let kept := (cs.filter fun c => c != ' ' && c != '_' && c != '-' && c.toNat < 128).map Char.toLower
  if hadIs && kept = ['c'] then "isc" else String.ofList kept

/-- Why a `\p` class is refused in Unicode mode: without property tables no name is
found, except that the names of three general categories (`Cf`, `Sc`, `Lc`), which are
looked up among property values, report a missing value. -/
def propertyFault (q : PropertyQuery) : FaultKind :=
  match q with
  | .binary name =>
    if ["cf", "sc", "lc"].contains (normalName name) then .propertyValueNotFound
    else .propertyNotFound
  | .byValue .. => .propertyNotFound

def perlRanges : PerlKind → List (Nat × Nat)
  | .digit => AsciiKind.digit.ranges
  | .space => AsciiKind.space.ranges
  | .word => AsciiKind.word.ranges

def perlBytes (s : Span) (kind : PerlKind) (negated : Bool) : Except Fault RangeSet := do
  let set := RangeSet.ofRanges (perlRanges kind)
  let set := if negated then set.negate false else set
  if !set.isAscii then fault .invalidUtf8 s
  pure set

def lookOf (fl : Flags) : Assertion → Look
  | .startLine =>
    if fl.multiLine.getD false then (if fl.crlf.getD false then .lineStartCRLF else .lineStart)
    else .textStart
  | .endLine =>
    if fl.multiLine.getD false then (if fl.crlf.getD false then .lineEndCRLF else .lineEnd)
    else .textEnd
  | .startText => .textStart
  | .endText => .textEnd
  | .wordBoundary => if fl.isUnicode then .wordUnicode else .wordAscii
  | .notWordBoundary => if fl.isUnicode then .notWordUnicode else .notWordAscii
  | .wordStart => if fl.isUnicode then .wordStartUnicode else .wordStartAscii
  | .wordEnd => if fl.isUnicode then .wordEndUnicode else .wordEndAscii
  | .wordStartHalf => if fl.isUnicode then .wordStartHalfUnicode else .wordStartHalfAscii
  | .wordEndHalf => if fl.isUnicode then .wordEndHalfUnicode else .wordEndHalfAscii

/-- A literal. Outside Unicode mode a `\x` escape beyond ASCII names a byte that cannot
stand in UTF-8 text, and a case-insensitive ASCII letter is the class of both its cases;
in Unicode mode case-insensitive matching is not available. -/
def literal (fl : Flags) (l : Literal) : Except Fault Expr := do
  if !fl.isUnicode && l.byteEscape && l.c.toNat > 0x7F then fault .invalidUtf8 l.span
  if !fl.isCaseless then return .literal [l.c]
  if fl.isUnicode then fault .caseUnavailable l.span
  if l.c.toNat < 128 && l.c.isAlpha then
    let set := (RangeSet.ofRanges [(l.c.toNat, l.c.toNat)]).foldAscii
    return Expr.ofClass set.ranges true
  return .literal [l.c]

/-- A dot: everything but a line feed, or but a carriage return and a line feed in CRLF
mode, or everything in dot-all mode. Outside Unicode mode it would match any byte. -/
def dot (fl : Flags) (s : Span) : Except Fault Expr := do
  if !fl.isUnicode then fault .invalidUtf8 s
  if fl.dotAll.getD false then return .cls [(0, 0x10FFFF)] false
  let except := if fl.crlf.getD false then [(0x0A, 0x0A), (0x0D, 0x0D)] else [(0x0A, 0x0A)]
  return Expr.ofClass ((RangeSet.ofRanges except).negate true).ranges false

def classByte (l : Literal) : Except Fault Nat := do
  if l.c.toNat ≤ 0x7F then return l.c.toNat
  if l.byteEscape then fault .invalidUtf8 l.span
  fault .unicodeNotAllowed l.span

def foldUnicode (s : Span) (set : RangeSet) : Except Fault RangeSet :=
  if set.folded || set.ranges.isEmpty then .ok { set with folded := true }
  else fault .caseUnavailable s

/-- Folds a class under the flags in force, then negates it if asked. Outside Unicode
mode the result must stay within ASCII. -/
def foldNegate (fl : Flags) (unicode : Bool) (s : Span) (negated : Bool) (set : RangeSet) :
    Except Fault RangeSet := do
  let set ← do
    if !fl.isCaseless then pure set
    else if unicode then foldUnicode s set
    else pure set.foldAscii
  let set := if negated then set.negate unicode else set
  if !unicode && !set.isAscii then fault .invalidUtf8 s
  pure set

def asciiClass (fl : Flags) (unicode : Bool) (s : Span) (kind : AsciiKind) (negated : Bool) :
    Except Fault RangeSet :=
  foldNegate fl unicode s negated (RangeSet.ofRanges kind.ranges)

mutual

def item (fl : Flags) (unicode : Bool) (acc : RangeSet) : SetItem → Except Fault RangeSet
  | .empty _ => pure acc
  | .literal l =>
    if unicode then pure (acc.push l.c.toNat l.c.toNat)
    else do
      let b ← classByte l
      pure (acc.push b b)
  | .range _ lo hi =>
    if unicode then pure (acc.push lo.c.toNat hi.c.toNat)
    else do
      let a ← classByte lo
      let b ← classByte hi
      pure (acc.push a b)
  | .ascii s kind negated => do
    let set ← asciiClass fl unicode s kind negated
    pure (acc.union set)
  | .property s q =>
    if unicode then fault (propertyFault q) s else fault .unicodeNotAllowed s
  | .perl s kind negated =>
    if unicode then fault .perlClassNotFound s
    else do
      let set ← perlBytes s kind negated
      pure (acc.union set)
  | .bracket s negated contents => do
    let set ← classSet fl unicode RangeSet.empty contents
    let set ← foldNegate fl unicode s negated set
    pure (acc.union set)
  | .union _ items => itemList fl unicode acc items

def itemList (fl : Flags) (unicode : Bool) (acc : RangeSet) : List SetItem → Except Fault RangeSet
  | [] => pure acc
  | i :: is => do
    let acc ← item fl unicode acc i
    itemList fl unicode acc is

/-- Adds the contents of a bracket to the set `acc`. Under case-insensitive matching
both sides of a set operation are folded, the right side first. -/
def classSet (fl : Flags) (unicode : Bool) (acc : RangeSet) : ClassSet → Except Fault RangeSet
  | .item i => item fl unicode acc i
  | .op _ kind lhs rhs => do
    let l ← classSet fl unicode RangeSet.empty lhs
    let r ← classSet fl unicode RangeSet.empty rhs
    let (l, r) ← do
      if !fl.isCaseless then pure (l, r)
      else if unicode then
        let r ← foldUnicode rhs.span r
        let l ← foldUnicode lhs.span l
        pure (l, r)
      else pure (l.foldAscii, r.foldAscii)
    let set := match kind with
      | .inter => l.intersect r
      | .diff => l.difference unicode r
      | .symDiff => l.symmetricDifference unicode r
    pure (acc.union set)

end

def bracket (fl : Flags) (s : Span) (negated : Bool) (contents : ClassSet) : Except Fault Expr := do
  let unicode := fl.isUnicode
  let set ← classSet fl unicode RangeSet.empty contents
  let set ← foldNegate fl unicode s negated set
  pure (Expr.ofClass set.ranges (!unicode))

mutual

def node (fl : Flags) : Node → Except Fault (Expr × Flags)
  | .empty _ => pure (.empty, fl)
  | .flags _ items => pure (.empty, fl.apply items)
  | .literal l => do pure (← literal fl l, fl)
  | .dot s => do pure (← dot fl s, fl)
  | .assertion _ k => pure (.look (lookOf fl k), fl)
  | .property s q =>
    if fl.isUnicode then fault (propertyFault q) s else fault .unicodeNotAllowed s
  | .perl s kind negated =>
    if fl.isUnicode then fault .perlClassNotFound s
    else do
      let set ← perlBytes s kind negated
      pure (Expr.ofClass set.ranges true, fl)
  | .bracket s negated contents => do pure (← bracket fl s negated contents, fl)
  | .repetition _ lo hi greedy sub => do
    let (e, fl') ← node fl sub
    let greedy := if fl'.swapGreed.getD false then !greedy else greedy
    pure (Expr.repeat lo hi greedy e, fl')
  | .group _ kind sub => do
    let inner := match kind with
      | .plain items => fl.apply items
      | .capture .. => fl
    let (e, _) ← node inner sub
    match kind with
    | .capture index _ => pure (.capture index e, fl)
    | .plain _ => pure (e, fl)
  | .concat _ items => do
    let (es, fl') ← nodeList fl items
    pure (Expr.cat es, fl')
  | .alternation _ alts => do
    let (es, fl') ← nodeList fl alts
    pure (Expr.choice es, fl')

def nodeList (fl : Flags) : List Node → Except Fault (List Expr × Flags)
  | [] => pure ([], fl)
  | n :: ns => do
    let (e, fl') ← node fl n
    let (es, fl'') ← nodeList fl' ns
    pure (e :: es, fl'')

end

end Settle

/-- The settled expression of a tree, or the first part refused. -/
def Node.settle (n : Node) : Except Fault Expr :=
  (Settle.node Flags.none n).map (·.1)

end Regex

end RuleScript
