import RuleScript.Text.Blank
/-!
# Regular expressions: the tree of a pattern

A log filter takes its message pattern as a regular expression. A pattern is first read
into a `Node` tree that keeps, for each part, the span of the pattern it came from, so
that a fault found later can point at it. The tree keeps the pattern's own structure:
flag settings stay where they were written, bracketed classes keep their items and set
operations, and repetitions keep their counts. Giving the parts their meaning under the
flags in force is the next stage's work.

Places in a pattern are counted in characters from 0.
-/

namespace RuleScript

namespace Regex

structure Span where
  start : Nat
  stop : Nat
deriving Repr, DecidableEq, Inhabited

inductive Flag where
  | caseless
  | multiLine
  | dotAll
  | swapGreed
  | unicode
  | crlf
  | verbose
deriving Repr, DecidableEq, Inhabited

namespace Flag

def ofChar? : Char → Option Flag
  | 'i' => some .caseless
  | 'm' => some .multiLine
  | 's' => some .dotAll
  | 'U' => some .swapGreed
  | 'u' => some .unicode
  | 'R' => some .crlf
  | 'x' => some .verbose
  | _ => none

end Flag

inductive FlagItem where
  | negation
  | flag (f : Flag)
deriving Repr, DecidableEq, Inhabited

namespace FlagItem

def stateOf (f : Flag) : Bool → List FlagItem → Option Bool
  | _, [] => none
  | _, .negation :: rest => stateOf f false rest
  | on, .flag g :: rest => if g = f then some on else stateOf f on rest

end FlagItem

/-- The ways a pattern can be refused. -/
inductive FaultKind where
  | classEscapeInvalid
  | classRangeInvalid
  | classRangeLiteral
  | classUnclosed
  | decimalInvalid
  | hexEmpty
  | hexInvalid
  | hexInvalidDigit
  | escapeUnexpectedEof
  | escapeUnrecognized
  | flagDanglingNegation
  | flagDuplicate
  | flagRepeatedNegation
  | flagUnexpectedEof
  | flagUnrecognized
  | groupNameDuplicate
  | groupNameEmpty
  | groupNameInvalid
  | groupNameUnexpectedEof
  | groupUnclosed
  | groupUnopened
  | nestLimitExceeded
  | countInvalid
  | countDecimalEmpty
  | countUnclosed
  | repetitionMissing
  | wordBoundaryUnclosed
  | wordBoundaryUnrecognized
  | wordBoundaryUnexpectedEof
  | unicodeClassInvalid
  | backreference
  | lookAround
  | unicodeNotAllowed
  | invalidUtf8
  | propertyNotFound
  | propertyValueNotFound
  | perlClassNotFound
  | caseUnavailable
deriving Repr, DecidableEq, Inhabited

def nestLimit : Nat := 250

namespace FaultKind

def message : FaultKind → String
  | .classEscapeInvalid => "invalid escape sequence found in character class"
  | .classRangeInvalid => "invalid character class range, the start must be <= the end"
  | .classRangeLiteral => "invalid range boundary, must be a literal"
  | .classUnclosed => "unclosed character class"
  | .decimalInvalid => "decimal literal invalid"
  | .hexEmpty => "hexadecimal literal empty"
  | .hexInvalid => "hexadecimal literal is not a Unicode scalar value"
  | .hexInvalidDigit => "invalid hexadecimal digit"
  | .escapeUnexpectedEof => "incomplete escape sequence, reached end of pattern prematurely"
  | .escapeUnrecognized => "unrecognized escape sequence"
  | .flagDanglingNegation => "dangling flag negation operator"
  | .flagDuplicate => "duplicate flag"
  | .flagRepeatedNegation => "flag negation operator repeated"
  | .flagUnexpectedEof => "expected flag but got end of regex"
  | .flagUnrecognized => "unrecognized flag"
  | .groupNameDuplicate => "duplicate capture group name"
  | .groupNameEmpty => "empty capture group name"
  | .groupNameInvalid => "invalid capture group character"
  | .groupNameUnexpectedEof => "unclosed capture group name"
  | .groupUnclosed => "unclosed group"
  | .groupUnopened => "unopened group"
  | .nestLimitExceeded =>
    "exceed the maximum number of nested parentheses/brackets (" ++ toString nestLimit ++ ")"
  | .countInvalid => "invalid repetition count range, the start must be <= the end"
  | .countDecimalEmpty => "repetition quantifier expects a valid decimal"
  | .countUnclosed => "unclosed counted repetition"
  | .repetitionMissing => "repetition operator missing expression"
  | .wordBoundaryUnclosed =>
    "special word boundary assertion is either unclosed or contains an invalid character"
  | .wordBoundaryUnrecognized =>
    "unrecognized special word boundary assertion, valid choices are: start, end, start-half or end-half"
  | .wordBoundaryUnexpectedEof =>
    "found either the beginning of a special word boundary or a bounded repetition on a \\b with an opening brace, but no closing brace"
  | .unicodeClassInvalid => "invalid Unicode character class"
  | .backreference => "backreferences are not supported"
  | .lookAround => "look-around, including look-ahead and look-behind, is not supported"
  | .unicodeNotAllowed => "Unicode not allowed here"
  | .invalidUtf8 => "pattern can match invalid UTF-8"
  | .propertyNotFound => "Unicode property not found"
  | .propertyValueNotFound => "Unicode property value not found"
  | .perlClassNotFound =>
    "Unicode-aware Perl class not found (make sure the unicode-perl feature is enabled)"
  | .caseUnavailable =>
    "Unicode-aware case insensitivity matching is not available (make sure the unicode-case feature is enabled)"

end FaultKind

/-- A fault, the span it points at, and for a repeated flag or name the span of the
first occurrence. -/
structure Fault where
  kind : FaultKind
  span : Span
  aux : Option Span
deriving Repr, DecidableEq, Inhabited

/-- A literal character and how it was written: a two-digit `\x` escape names a byte
outside Unicode mode. -/
structure Literal where
  span : Span
  c : Char
  byteEscape : Bool
deriving Repr, DecidableEq, Inhabited

inductive PerlKind where
  | digit
  | space
  | word
deriving Repr, DecidableEq, Inhabited

inductive AsciiKind where
  | alnum
  | alpha
  | ascii
  | blank
  | cntrl
  | digit
  | graph
  | lower
  | print
  | punct
  | space
  | upper
  | word
  | xdigit
deriving Repr, DecidableEq, Inhabited

namespace AsciiKind

def ofName? : String → Option AsciiKind
  | "alnum" => some .alnum
  | "alpha" => some .alpha
  | "ascii" => some .ascii
  | "blank" => some .blank
  | "cntrl" => some .cntrl
  | "digit" => some .digit
  | "graph" => some .graph
  | "lower" => some .lower
  | "print" => some .print
  | "punct" => some .punct
  | "space" => some .space
  | "upper" => some .upper
  | "word" => some .word
  | "xdigit" => some .xdigit
  | _ => none

def ranges : AsciiKind → List (Nat × Nat)
  | .alnum => [(0x30, 0x39), (0x41, 0x5A), (0x61, 0x7A)]
  | .alpha => [(0x41, 0x5A), (0x61, 0x7A)]
  | .ascii => [(0x00, 0x7F)]
  | .blank => [(0x09, 0x09), (0x20, 0x20)]
  | .cntrl => [(0x00, 0x1F), (0x7F, 0x7F)]
  | .digit => [(0x30, 0x39)]
  | .graph => [(0x21, 0x7E)]
  | .lower => [(0x61, 0x7A)]
  | .print => [(0x20, 0x7E)]
  | .punct => [(0x21, 0x2F), (0x3A, 0x40), (0x5B, 0x60), (0x7B, 0x7E)]
  | .space => [(0x09, 0x09), (0x0A, 0x0A), (0x0B, 0x0B), (0x0C, 0x0C), (0x0D, 0x0D), (0x20, 0x20)]
  | .upper => [(0x41, 0x5A)]
  | .word => [(0x30, 0x39), (0x41, 0x5A), (0x5F, 0x5F), (0x61, 0x7A)]
  | .xdigit => [(0x30, 0x39), (0x41, 0x46), (0x61, 0x66)]

end AsciiKind

inductive Assertion where
  | startLine
  | endLine
  | startText
  | endText
  | wordBoundary
  | notWordBoundary
  | wordStart
  | wordEnd
  | wordStartHalf
  | wordEndHalf
deriving Repr, DecidableEq, Inhabited

inductive PropertyQuery where
  | binary (name : String)
  | byValue (name value : String)
deriving Repr, DecidableEq, Inhabited

inductive SetOp where
  | inter
  | diff
  | symDiff
deriving Repr, DecidableEq, Inhabited

mutual

inductive SetItem where
  | empty (span : Span)
  | literal (l : Literal)
  | range (span : Span) (lo hi : Literal)
  | ascii (span : Span) (kind : AsciiKind) (negated : Bool)
  | property (span : Span) (query : PropertyQuery)
  | perl (span : Span) (kind : PerlKind) (negated : Bool)
  | bracket (span : Span) (negated : Bool) (set : ClassSet)
  | union (span : Span) (items : List SetItem)
deriving Repr, Inhabited

inductive ClassSet where
  | item (i : SetItem)
  | op (span : Span) (kind : SetOp) (lhs rhs : ClassSet)
deriving Repr, Inhabited

end

namespace SetItem

def span : SetItem → Span
  | .empty s => s
  | .literal l => l.span
  | .range s .. => s
  | .ascii s .. => s
  | .property s _ => s
  | .perl s .. => s
  | .bracket s .. => s
  | .union s _ => s

end SetItem

namespace ClassSet

def span : ClassSet → Span
  | .item i => i.span
  | .op s .. => s

end ClassSet

inductive GroupKind where
  | capture (index : Nat) (name : Option String)
  | plain (flags : List FlagItem)
deriving Repr, DecidableEq, Inhabited

/-- The tree of a pattern. -/
inductive Node where
  | empty (span : Span)
  | flags (span : Span) (items : List FlagItem)
  | literal (l : Literal)
  | dot (span : Span)
  | assertion (span : Span) (kind : Assertion)
  | property (span : Span) (query : PropertyQuery)
  | perl (span : Span) (kind : PerlKind) (negated : Bool)
  | bracket (span : Span) (negated : Bool) (set : ClassSet)
  | repetition (span : Span) (lo : Nat) (hi : Option Nat) (greedy : Bool) (sub : Node)
  | group (span : Span) (kind : GroupKind) (sub : Node)
  | alternation (span : Span) (alts : List Node)
  | concat (span : Span) (items : List Node)
deriving Repr, Inhabited

namespace Node

def span : Node → Span
  | .empty s => s
  | .flags s _ => s
  | .literal l => l.span
  | .dot s => s
  | .assertion s _ => s
  | .property s _ => s
  | .perl s .. => s
  | .bracket s .. => s
  | .repetition s .. => s
  | .group s .. => s
  | .alternation s _ => s
  | .concat s _ => s

end Node

end Regex

end RuleScript
