import RuleScript.Regex.Tree
/-!
# Regular expressions: reading a pattern

A pattern is read in one pass from the left into a `Node` tree. A reader keeps its
place, a stack of open groups and choices, and, inside brackets, a stack of open
brackets and pending set operations. Reading stops at the first fault, which names the
span of the pattern at fault.

In verbose mode, switched on by the flag `x`, blanks are skipped and `#` starts a
comment that runs to the end of its line. The mode holds up to the end of the group that
set it. Inside flag settings and group names blanks are read as they are.

Every loop of the reader moves its place forward, so each is given the length of the
pattern as fuel.
-/

namespace RuleScript

namespace Regex

structure Concat where
  start : Nat
  items : List Node
deriving Repr, Inhabited

namespace Concat

/-- The node of a concatenation ending at place `stop`: the empty node, its one item, or
the concatenation of its items. -/
def toNode (c : Concat) (stop : Nat) : Node :=
  match c.items with
  | [] => .empty ⟨c.start, stop⟩
  | [n] => n
  | items => .concat ⟨c.start, stop⟩ items.reverse

def push (c : Concat) (n : Node) : Concat := { c with items := n :: c.items }

end Concat

structure Union where
  span : Span
  items : List SetItem
deriving Repr, Inhabited

namespace Union

def push (u : Union) (i : SetItem) : Union :=
  let start := if u.items.isEmpty then i.span.start else u.span.start
  { span := ⟨start, i.span.stop⟩, items := i :: u.items }

def toItem (u : Union) : SetItem :=
  match u.items with
  | [] => .empty u.span
  | [i] => i
  | items => .union u.span items.reverse

end Union

inductive GroupFrame where
  | group (before : Concat) (opening : Span) (kind : GroupKind) (verbose : Bool)
  | choice (start : Nat) (branches : List Node)
deriving Repr, Inhabited

inductive ClassFrame where
  | opened (outer : Union) (opening : Span) (negated : Bool)
  | op (kind : SetOp) (lhs : ClassSet)
deriving Repr, Inhabited

/-- The state of the reader. -/
structure Reader where
  text : Array Char
  pos : Nat
  verbose : Bool
  captures : Nat
  names : List (String × Span)
  groups : List GroupFrame
  classes : List ClassFrame
deriving Inhabited

abbrev ReadM := StateT Reader (Except Fault)

inductive Primitive where
  | literal (l : Literal)
  | assertion (span : Span) (kind : Assertion)
  | dot (span : Span)
  | perl (span : Span) (kind : PerlKind) (negated : Bool)
  | property (span : Span) (query : PropertyQuery)
deriving Repr, Inhabited

namespace Primitive

def span : Primitive → Span
  | .literal l => l.span
  | .assertion s _ => s
  | .dot s => s
  | .perl s .. => s
  | .property s _ => s

def toNode : Primitive → Node
  | .literal l => .literal l
  | .assertion s k => .assertion s k
  | .dot s => .dot s
  | .perl s k n => .perl s k n
  | .property s q => .property s q

def startingAt (p : Primitive) (start : Nat) : Primitive :=
  match p with
  | .literal l => .literal { l with span := ⟨start, l.span.stop⟩ }
  | .assertion s k => .assertion ⟨start, s.stop⟩ k
  | .dot s => .dot ⟨start, s.stop⟩
  | .perl s k n => .perl ⟨start, s.stop⟩ k n
  | .property s q => .property ⟨start, s.stop⟩ q

end Primitive

namespace Read

def isMeta (c : Char) : Bool :=
  ['\\', '.', '+', '*', '?', '(', ')', '|', '[', ']', '\x7b', '\x7d', '^', '$', '#', '&', '-',
    '~'].contains c

/-- Whether an escaped character stands for itself: a meta character, or an ASCII
character that is neither a letter, a digit nor an angle bracket. -/
def isEscapable (c : Char) : Bool :=
  isMeta c || (c.toNat < 128 && !c.isAlphanum && c != '<' && c != '>')

def isHex (c : Char) : Bool := c.isDigit || ('a' ≤ c && c ≤ 'f') || ('A' ≤ c && c ≤ 'F')

def hexValue (c : Char) : Nat :=
  if c.isDigit then c.toNat - 48 else if c ≤ 'F' then c.toNat - 55 else c.toNat - 87

def hexNumber (ds : List Char) : Nat := ds.foldl (fun v d => 16 * v + hexValue d) 0

def decimalNumber (ds : List Char) : Nat := ds.foldl (fun v d => 10 * v + (d.toNat - 48)) 0

def scalar? (v : Nat) : Option Char :=
  if v < 0xD800 || (0xE000 ≤ v && v ≤ 0x10FFFF) then some (Char.ofNat v) else none

def decimalStarts : List Nat :=
  [0x30, 0x660, 0x6F0, 0x7C0, 0x966, 0x9E6, 0xA66, 0xAE6, 0xB66, 0xBE6, 0xC66, 0xCE6,
   0xD66, 0xDE6, 0xE50, 0xED0, 0xF20, 0x1040, 0x1090, 0x17E0, 0x1810, 0x1946, 0x19D0,
   0x1A80, 0x1A90, 0x1B50, 0x1BB0, 0x1C40, 0x1C50, 0xA620, 0xA8D0, 0xA900, 0xA9D0,
   0xA9F0, 0xAA50, 0xABF0, 0xFF10, 0x104A0, 0x10D30, 0x11066, 0x110F0, 0x11136,
   0x111D0, 0x112F0, 0x11450, 0x114D0, 0x11650, 0x116C0, 0x11730, 0x118E0, 0x11950,
   0x11C50, 0x11D50, 0x11DA0, 0x11F50, 0x16A60, 0x16AC0, 0x16B50, 0x1D7CE, 0x1D7D8,
   0x1D7E2, 0x1D7EC, 0x1D7F6, 0x1E140, 0x1E2F0, 0x1E4F0, 0x1E950, 0x1FBF0]

/-- Runs of characters beyond ASCII that are neither letters nor digits: controls,
Latin-1 signs, and the blocks of punctuation, arrows, symbols, box drawing and
pictographs. -/
def signRanges : List (Nat × Nat) :=
  [(0x80, 0xA9), (0xAB, 0xB4), (0xB6, 0xB9), (0xBB, 0xBF), (0xD7, 0xD7), (0xF7, 0xF7),
   (0x2000, 0x200B), (0x200E, 0x203E), (0x2041, 0x2053), (0x2055, 0x206F),
   (0x2190, 0x245F), (0x2500, 0x2BFF), (0x2E00, 0x2E7F), (0x3000, 0x3004),
   (0x3008, 0x3020), (0x3030, 0x3030), (0x303D, 0x303F), (0xFE10, 0xFE19),
   (0xFE30, 0xFE32), (0xFE35, 0xFE4C), (0xFE50, 0xFE6B), (0xFF01, 0xFF0F),
   (0xFF1A, 0xFF20), (0xFF3B, 0xFF3E), (0xFF40, 0xFF40), (0xFF5B, 0xFF65),
   (0xFFF0, 0xFFFF), (0x1F000, 0x1FAFF)]

def isDecimal (c : Char) : Bool :=
  decimalStarts.any fun s => s ≤ c.toNat && c.toNat < s + 10

/-- Whether a character counts as a letter in a group name: an ASCII letter, or beyond
ASCII anything but blanks, digits and the runs of `signRanges`. -/
def isLetter (c : Char) : Bool :=
  if c.toNat < 128 then c.isAlpha
  else !Text.isBlank c && !Text.inRanges signRanges c.toNat && !isDecimal c

def isNameChar (c : Char) (first : Bool) : Bool :=
  c = '_' || isLetter c ||
    (!first && (c = '.' || c = '[' || c = ']' || c.isDigit || isDecimal c))

def commentEnd (text : Array Char) : Nat → Nat → Nat
  | 0, p => p
  | fuel + 1, p =>
    match text[p]? with
    | none => p
    | some c => if c = '\n' then p + 1 else commentEnd text fuel (p + 1)

def blankEnd (text : Array Char) : Nat → Nat → Nat
  | 0, p => p
  | fuel + 1, p =>
    match text[p]? with
    | none => p
    | some c =>
      if Text.isBlank c then blankEnd text fuel (p + 1)
      else if c = '#' then blankEnd text fuel (commentEnd text text.size (p + 1))
      else p

/-- The place of the character a look past blanks and comments lands on, from place
`i` on; a second `#` or any other character ends the look, and a look that runs out
lands on place `start`. -/
def lookEnd (text : Array Char) (start : Nat) : Nat → Nat → Bool → Nat
  | 0, _, _ => start
  | fuel + 1, i, inComment =>
    match text[i]? with
    | none => start
    | some c =>
      if Text.isBlank c then lookEnd text start fuel (i + 1) inComment
      else if !inComment && c = '#' then lookEnd text start fuel (i + 1) true
      else i

def fault {α : Type} (k : FaultKind) (s : Span) : ReadM α := throw ⟨k, s, none⟩

def pos : ReadM Nat := do pure (← get).pos

def current : ReadM (Option Char) := do
  let r ← get
  pure r.text[r.pos]?

def atEnd : ReadM Bool := do
  let r ← get
  pure (r.text.size ≤ r.pos)

def seek (p : Nat) : ReadM Unit := modify fun r => { r with pos := p }

def here : ReadM Span := do
  let p ← pos
  pure ⟨p, p⟩

def charSpan : ReadM Span := do
  let p ← pos
  pure ⟨p, p + 1⟩

def budget : ReadM Nat := do pure ((← get).text.size + 1)

def bump : ReadM Bool := do
  let r ← get
  if r.pos < r.text.size then
    set { r with pos := r.pos + 1 }
    pure (r.pos + 1 < r.text.size)
  else pure false

def peek : ReadM (Option Char) := do
  let r ← get
  pure r.text[r.pos + 1]?

def bumpIf (s : List Char) : ReadM Bool := do
  let r ← get
  if (r.text.extract r.pos (r.pos + s.length)).toList == s then
    set { r with pos := r.pos + s.length }
    pure true
  else pure false

def skipBlanks : ReadM Unit := do
  let r ← get
  if r.verbose then set { r with pos := blankEnd r.text (r.text.size + 1) r.pos }

def bumpSkip : ReadM Bool := do
  if !(← bump) then return false
  skipBlanks
  return !(← atEnd)

def peekSkip : ReadM (Option Char) := do
  let r ← get
  if !r.verbose then return r.text[r.pos + 1]?
  if r.text.size ≤ r.pos then return none
  let start := r.pos + 1
  pure r.text[lookEnd r.text start (r.text.size + 1) start false]?

def isAt (c : Char) : ReadM Bool := do pure ((← current) == some c)

def textBetween (a b : Nat) : ReadM String := do
  pure (String.ofList ((← get).text.extract a b).toList)

def skipPlainBlanks : Nat → ReadM Unit
  | 0 => pure ()
  | fuel + 1 => do
    match ← current with
    | some c => if Text.isBlank c then do let _ ← bump; skipPlainBlanks fuel else pure ()
    | none => pure ()

def digits : Nat → List Char → ReadM (List Char)
  | 0, acc => pure acc.reverse
  | fuel + 1, acc => do
    match ← current with
    | some c => if c.isDigit then do let _ ← bumpSkip; digits fuel (c :: acc) else pure acc.reverse
    | none => pure acc.reverse

def skipTrailingBlanks : Nat → ReadM Unit
  | 0 => pure ()
  | fuel + 1 => do
    match ← current with
    | some c =>
      if Text.isBlank c then do let _ ← bumpSkip; skipTrailingBlanks fuel else pure ()
    | none => pure ()

/-- Reads a number of a counted repetition, blanks around it skipped. The number, or
the fault of a missing or too large one, comes back as a value: which fault is
reported depends on what follows. -/
def decimal : ReadM (Except Fault Nat) := do
  skipPlainBlanks (← budget)
  let start ← pos
  let ds ← digits (← budget) []
  let stop ← pos
  skipTrailingBlanks (← budget)
  if ds.isEmpty then return .error ⟨.countDecimalEmpty, ⟨start, stop⟩, none⟩
  let v := decimalNumber ds
  if v > 4294967295 then return .error ⟨.decimalInvalid, ⟨start, stop⟩, none⟩
  return .ok v

def take {α : Type} : Except Fault α → ReadM α
  | .ok v => pure v
  | .error f => throw f

def unrepeatable : Node → Bool
  | .empty _ => true
  | .flags .. => true
  | _ => false

/-- Reads a counted repetition `{lo}`, `{lo,}` or `{lo,hi}` of the last item of a
concatenation, with an optional `?`. -/
def counted (concat : Concat) : ReadM Concat := do
  let start ← pos
  match concat.items with
  | [] => fault .repetitionMissing (← here)
  | item :: rest =>
    if unrepeatable item then fault .repetitionMissing (← here)
    if !(← bumpSkip) then fault .countUnclosed ⟨start, ← pos⟩
    let first ← decimal
    if ← atEnd then fault .countUnclosed ⟨start, ← pos⟩
    let (lo, hi) ← do
      if ← isAt ',' then
        if !(← bumpSkip) then fault .countUnclosed ⟨start, ← pos⟩
        if !(← isAt '\x7d') then
          let lo ← take first
          let hi ← take (← decimal)
          pure (lo, some hi)
        else
          pure (← take first, none)
      else
        let lo ← take first
        pure (lo, some lo)
    if (← atEnd) || !(← isAt '\x7d') then fault .countUnclosed ⟨start, ← pos⟩
    let lazy ← do
      if (← bumpSkip) && (← isAt '?') then
        let _ ← bumpSkip
        pure true
      else pure false
    let stop ← pos
    if let some h := hi then
      if h < lo then fault .countInvalid ⟨start, stop⟩
    pure { concat with items := .repetition ⟨item.span.start, stop⟩ lo hi (!lazy) item :: rest }

def uncounted (concat : Concat) (lo : Nat) (hi : Option Nat) : ReadM Concat := do
  match concat.items with
  | [] => fault .repetitionMissing (← here)
  | item :: rest =>
    if unrepeatable item then fault .repetitionMissing (← here)
    let lazy ← do
      if (← bump) && (← isAt '?') then
        let _ ← bump
        pure true
      else pure false
    let stop ← pos
    pure { concat with items := .repetition ⟨item.span.start, stop⟩ lo hi (!lazy) item :: rest }

def hexDigitRun : Nat → Bool → List Char → ReadM (List Char)
  | 0, _, acc => pure acc.reverse
  | k + 1, first, acc => do
    if !first then
      if !(← bumpSkip) then fault .escapeUnexpectedEof (← here)
    match ← current with
    | some c =>
      if isHex c then hexDigitRun k false (c :: acc)
      else fault .hexInvalidDigit (← charSpan)
    | none => fault .escapeUnexpectedEof (← here)

def hexFixed (width : Nat) : ReadM Literal := do
  let start ← pos
  let ds ← hexDigitRun width true []
  let _ ← bumpSkip
  let stop ← pos
  match scalar? (hexNumber ds) with
  | none => fault .hexInvalid ⟨start, stop⟩
  | some c => pure ⟨⟨start, stop⟩, c, width = 2⟩

def hexBraceDigits : Nat → List Char → ReadM (List Char)
  | 0, acc => pure acc.reverse
  | fuel + 1, acc => do
    if !(← bumpSkip) then return acc.reverse
    match ← current with
    | some '\x7d' => pure acc.reverse
    | some c =>
      if isHex c then hexBraceDigits fuel (c :: acc)
      else fault .hexInvalidDigit (← charSpan)
    | none => pure acc.reverse

def hexBraced : ReadM Literal := do
  let brace ← pos
  let start := brace + 1
  let ds ← hexBraceDigits (← budget) []
  if ← atEnd then fault .escapeUnexpectedEof ⟨brace, ← pos⟩
  let stop ← pos
  let _ ← bumpSkip
  if ds.isEmpty then fault .hexEmpty ⟨brace, ← pos⟩
  match scalar? (hexNumber ds) with
  | none => fault .hexInvalid ⟨start, stop⟩
  | some c => pure ⟨⟨start, ← pos⟩, c, false⟩

def hex (letter : Char) : ReadM Literal := do
  let width := if letter = 'x' then 2 else if letter = 'u' then 4 else 8
  if !(← bumpSkip) then fault .escapeUnexpectedEof (← here)
  if ← isAt '\x7b' then hexBraced else hexFixed width

def braceName : Nat → List Char → ReadM (List Char)
  | 0, acc => pure acc.reverse
  | fuel + 1, acc => do
    if !(← bumpSkip) then return acc.reverse
    match ← current with
    | some '\x7d' => pure acc.reverse
    | some c => braceName fuel (c :: acc)
    | none => pure acc.reverse

/-- The query of a braced class name: a property and value around the first `!=`, or
else around the first `:` or `=`, or the name alone. -/
def queryOf (name : List Char) : PropertyQuery :=
  let rec find : List Char → List Char → Option (List Char × List Char)
    | _, [] => none
    | acc, '!' :: '=' :: rest => some (acc.reverse, rest)
    | acc, c :: rest => find (c :: acc) rest
  match find [] name with
  | some (k, v) => .byValue (String.ofList k) (String.ofList v)
  | none =>
    let (k, v) := name.span (fun c => c != ':' && c != '=')
    match v with
    | _ :: value => .byValue (String.ofList k) (String.ofList value)
    | [] => .binary (String.ofList name)

def unicodeClass : ReadM Primitive := do
  if !(← bumpSkip) then fault .escapeUnexpectedEof (← here)
  if ← isAt '\x7b' then
    let start := (← pos) + 1
    let name ← braceName (← budget) []
    if ← atEnd then fault .escapeUnexpectedEof (← here)
    let _ ← bump
    pure (.property ⟨start, ← pos⟩ (queryOf name))
  else
    let start ← pos
    match ← current with
    | some '\\' => fault .unicodeClassInvalid (← charSpan)
    | some c =>
      let _ ← bumpSkip
      pure (.property ⟨start, ← pos⟩ (.binary c.toString))
    | none => fault .escapeUnexpectedEof (← here)

def isBoundaryNameChar (c : Char) : Bool := ('A' ≤ c && c ≤ 'Z') || ('a' ≤ c && c ≤ 'z') || c = '-'

def boundaryName : Nat → List Char → ReadM (List Char)
  | 0, acc => pure acc.reverse
  | fuel + 1, acc => do
    match ← current with
    | some c =>
      if isBoundaryNameChar c then do let _ ← bumpSkip; boundaryName fuel (c :: acc)
      else pure acc.reverse
    | none => pure acc.reverse

/-- Reads a special word boundary such as `\b{start}` after `\b`, whose backslash is at
place `wbStart`; nothing, with the reader put back, when the brace opens a count. -/
def specialBoundary (wbStart : Nat) : ReadM (Option Assertion) := do
  let start ← pos
  if !(← bumpSkip) then fault .wordBoundaryUnexpectedEof ⟨wbStart, ← pos⟩
  let contents ← pos
  match ← current with
  | some c =>
    if !isBoundaryNameChar c then
      seek start
      return none
  | none => pure ()
  let name ← boundaryName (← budget) []
  if (← atEnd) || !(← isAt '\x7d') then fault .wordBoundaryUnclosed ⟨start, ← pos⟩
  let stop ← pos
  let _ ← bump
  match String.ofList name with
  | "start" => pure (some .wordStart)
  | "end" => pure (some .wordEnd)
  | "start-half" => pure (some .wordStartHalf)
  | "end-half" => pure (some .wordEndHalf)
  | _ => fault .wordBoundaryUnrecognized ⟨contents, stop⟩

def perlOf : Char → Option (PerlKind × Bool)
  | 'd' => some (.digit, false)
  | 'D' => some (.digit, true)
  | 's' => some (.space, false)
  | 'S' => some (.space, true)
  | 'w' => some (.word, false)
  | 'W' => some (.word, true)
  | _ => none

def specialOf : Char → Option Char
  | 'a' => some '\x07'
  | 'f' => some '\x0C'
  | 't' => some '\t'
  | 'n' => some '\n'
  | 'r' => some '\r'
  | 'v' => some '\x0B'
  | _ => none

def escape : ReadM Primitive := do
  let start ← pos
  if !(← bump) then fault .escapeUnexpectedEof ⟨start, ← pos⟩
  let some c ← current | fault .escapeUnexpectedEof ⟨start, ← pos⟩
  if c.isDigit then fault .backreference ⟨start, (← pos) + 1⟩
  if c = 'x' || c = 'u' || c = 'U' then
    let l ← hex c
    return .literal { l with span := ⟨start, l.span.stop⟩ }
  if c = 'p' || c = 'P' then
    return (← unicodeClass).startingAt start
  if let some (kind, negated) := perlOf c then
    let _ ← bump
    return .perl ⟨start, ← pos⟩ kind negated
  let _ ← bump
  let span : Span := ⟨start, ← pos⟩
  if isEscapable c then return .literal ⟨span, c, false⟩
  if let some d := specialOf c then return .literal ⟨span, d, false⟩
  match c with
  | 'A' => pure (.assertion span .startText)
  | 'z' => pure (.assertion span .endText)
  | 'B' => pure (.assertion span .notWordBoundary)
  | '<' => pure (.assertion span .wordStart)
  | '>' => pure (.assertion span .wordEnd)
  | 'b' =>
    if !(← atEnd) && (← isAt '\x7b') then
      match ← specialBoundary start with
      | some kind => pure (.assertion ⟨start, ← pos⟩ kind)
      | none => pure (.assertion span .wordBoundary)
    else pure (.assertion span .wordBoundary)
  | _ => fault .escapeUnrecognized span

def primitive : ReadM Primitive := do
  let span ← charSpan
  match ← current with
  | some '\\' => escape
  | some c =>
    let _ ← bump
    if c = '.' then pure (.dot span)
    else if c = '^' then pure (.assertion span .startLine)
    else if c = '$' then pure (.assertion span .endLine)
    else pure (.literal ⟨span, c, false⟩)
  | none => fault .escapeUnexpectedEof span

def nameChars (start : Nat) : Nat → ReadM Unit
  | 0 => pure ()
  | fuel + 1 => do
    match ← current with
    | some '>' => pure ()
    | some c =>
      if !isNameChar c ((← pos) = start) then fault .groupNameInvalid (← charSpan)
      if ← bump then nameChars start fuel
    | none => pure ()

def captureName : ReadM String := do
  if ← atEnd then fault .groupNameUnexpectedEof (← here)
  let start ← pos
  nameChars start (← budget)
  let stop ← pos
  if ← atEnd then fault .groupNameUnexpectedEof (← here)
  let _ ← bump
  let name ← textBetween start stop
  if name.isEmpty then fault .groupNameEmpty ⟨start, start⟩
  let span : Span := ⟨start, stop⟩
  match (← get).names.find? (·.1 == name) with
  | some (_, original) => throw ⟨.groupNameDuplicate, span, some original⟩
  | none =>
    modify fun r => { r with names := (name, span) :: r.names }
    pure name

/-- Reads the flags of `(?flags)` or `(?flags:` up to the `)` or `:`, each flag with
its span, first to last. -/
def flagItems : Nat → List (FlagItem × Span) → Option Span → ReadM (List (FlagItem × Span))
  | 0, items, _ => pure items.reverse
  | fuel + 1, items, negation => do
    let some c ← current | fault .flagUnexpectedEof (← here)
    if c = ':' || c = ')' then
      if let some s := negation then fault .flagDanglingNegation s
      return items.reverse
    let span ← charSpan
    let (item, negation) ← do
      if c = '-' then pure (FlagItem.negation, some span)
      else
        match Flag.ofChar? c with
        | some f => pure (FlagItem.flag f, none)
        | none => fault .flagUnrecognized span
    if let some (_, original) := items.find? (·.1 == item) then
      let kind := if item = .negation then FaultKind.flagRepeatedNegation else .flagDuplicate
      throw ⟨kind, span, some original⟩
    if !(← bump) then fault .flagUnexpectedEof (← here)
    flagItems fuel ((item, span) :: items) negation

def nextCapture : ReadM Nat := do
  let r ← get
  set { r with captures := r.captures + 1 }
  pure (r.captures + 1)

/-- What an opening parenthesis starts: a setting of flags for the rest of the group,
with its span, or a group with the span of its opening. -/
inductive Opening where
  | setFlags (span : Span) (items : List FlagItem)
  | group (opening : Span) (kind : GroupKind)

def lookAround : ReadM Bool := do
  if ← bumpIf ['?', '='] then return true
  if ← bumpIf ['?', '!'] then return true
  if ← bumpIf ['?', '<', '='] then return true
  bumpIf ['?', '<', '!']

def namedOpening : ReadM Bool := do
  if ← bumpIf ['?', 'P', '<'] then return true
  bumpIf ['?', '<']

def opening : ReadM Opening := do
  let openSpan ← charSpan
  let _ ← bump
  skipBlanks
  if ← lookAround then fault .lookAround ⟨openSpan.start, ← pos⟩
  let inner ← here
  if ← namedOpening then
    let index ← nextCapture
    let name ← captureName
    return .group openSpan (.capture index (some name))
  if ← bumpIf ['?'] then
    if ← atEnd then fault .groupUnclosed openSpan
    let items := (← flagItems (← budget) [] none).map (·.1)
    let close ← current
    let _ ← bump
    if close == some ')' then
      if items.isEmpty then fault .repetitionMissing inner
      return .setFlags ⟨openSpan.start, ← pos⟩ items
    return .group openSpan (.plain items)
  let index ← nextCapture
  return .group openSpan (.capture index none)

/-- Reads an opening parenthesis: a flag setting goes into the concatenation, a group
is pushed and a new concatenation starts. -/
def pushGroup (concat : Concat) : ReadM Concat := do
  match ← opening with
  | .setFlags span items =>
    if let some v := FlagItem.stateOf .verbose true items then
      modify fun r => { r with verbose := v }
    pure (concat.push (.flags span items))
  | .group openSpan kind =>
    let r ← get
    let inner := match kind with
      | .plain items => (FlagItem.stateOf .verbose true items).getD r.verbose
      | .capture .. => r.verbose
    set { r with groups := .group concat openSpan kind r.verbose :: r.groups, verbose := inner }
    pure ⟨← pos, []⟩

def popGroup (inner : Concat) : ReadM Concat := do
  let r ← get
  let (before, openSpan, kind, verbose, choice, below) ← match r.groups with
    | .group before o k v :: below => pure (before, o, k, v, none, below)
    | .choice start bs :: .group before o k v :: below => pure (before, o, k, v, some (start, bs), below)
    | _ => fault .groupUnopened (← charSpan)
  let stop ← pos
  set { r with verbose, groups := below }
  let _ ← bump
  let groupStop ← pos
  let sub := match choice with
    | some (start, bs) => Node.alternation ⟨start, stop⟩ (inner.toNode stop :: bs).reverse
    | none => inner.toNode stop
  pure (before.push (.group ⟨openSpan.start, groupStop⟩ kind sub))

def pushBar (concat : Concat) : ReadM Concat := do
  let stop ← pos
  let node := concat.toNode stop
  modify fun r => match r.groups with
    | .choice start bs :: below => { r with groups := .choice start (node :: bs) :: below }
    | gs => { r with groups := .choice concat.start [node] :: gs }
  let _ ← bump
  pure ⟨← pos, []⟩

def finish (concat : Concat) : ReadM Node := do
  let stop ← pos
  match (← get).groups with
  | [] => pure (concat.toNode stop)
  | .choice start bs :: below =>
    match below with
    | .group _ o .. :: _ => fault .groupUnclosed o
    | _ => pure (.alternation ⟨start, stop⟩ (concat.toNode stop :: bs).reverse)
  | .group _ o .. :: _ => fault .groupUnclosed o

def unclosedClass {α : Type} : ReadM α := do
  let opened := (← get).classes.findSome? fun
    | .opened _ o _ => some o
    | .op .. => none
  fault .classUnclosed (opened.getD ⟨0, 0⟩)

def popClassOp (rhs : ClassSet) : ReadM ClassSet := do
  let r ← get
  match r.classes with
  | .op kind lhs :: below =>
    set { r with classes := below }
    pure (.op ⟨lhs.span.start, rhs.span.stop⟩ kind lhs rhs)
  | _ => pure rhs

def pushClassOp (kind : SetOp) (u : Union) : ReadM Union := do
  let lhs ← popClassOp (.item u.toItem)
  modify fun r => { r with classes := .op kind lhs :: r.classes }
  pure ⟨← here, []⟩

/-- Reads the opening of a bracket: `[`, a `^` of negation, then any `-` and a first
`]`, which stand for themselves. Gives the span of the opening, the negation and the
items it starts with. -/
def classOpening : ReadM (Span × Bool × Union) := do
  let start ← pos
  if !(← bumpSkip) then fault .classUnclosed ⟨start, ← pos⟩
  let negated ← do
    if ← isAt '^' then
      if !(← bumpSkip) then fault .classUnclosed ⟨start, ← pos⟩
      pure true
    else pure false
  let u ← dashes start (← budget) ⟨← here, []⟩
  let u ← do
    if u.items.isEmpty && (← isAt ']') then
      let u := u.push (.literal ⟨← charSpan, ']', false⟩)
      if !(← bumpSkip) then fault .classUnclosed ⟨start, ← pos⟩
      pure u
    else pure u
  pure (⟨start, ← pos⟩, negated, u)
where
  dashes (start : Nat) : Nat → Union → ReadM Union
    | 0, u => pure u
    | fuel + 1, u => do
      if ← isAt '-' then
        let u := u.push (.literal ⟨← charSpan, '-', false⟩)
        if !(← bumpSkip) then fault .classUnclosed ⟨start, start⟩
        dashes start fuel u
      else pure u

def pushClassOpen (outer : Union) : ReadM Union := do
  let (openSpan, negated, u) ← classOpening
  modify fun r => { r with classes := .opened outer openSpan negated :: r.classes }
  pure u

/-- Reads a closing bracket: the bracket it closes joins the enclosing union, or, for
the outermost bracket, is the result. -/
def popClass (u : Union) : ReadM (Union ⊕ (Span × Bool × ClassSet)) := do
  let contents ← popClassOp (.item u.toItem)
  let r ← get
  match r.classes with
  | .opened outer openSpan negated :: below =>
    set { r with classes := below }
    let _ ← bump
    let span : Span := ⟨openSpan.start, ← pos⟩
    if below.isEmpty then pure (.inr (span, negated, contents))
    else pure (.inl (outer.push (.bracket span negated contents)))
  | _ => unclosedClass

def asciiName : Nat → ReadM Unit
  | 0 => pure ()
  | fuel + 1 => do
    if (← isAt ':') then return
    if ← bump then asciiName fuel

/-- Reads an ASCII class such as `[:alpha:]` or `[:^alpha:]`; nothing, with the reader
put back, if none stands here. -/
def asciiClass : ReadM (Option SetItem) := do
  let start ← pos
  let back : ReadM (Option SetItem) := do seek start; pure none
  if !(← bump) || !(← isAt ':') then return ← back
  if !(← bump) then return ← back
  let negated ← isAt '^'
  if negated then
    if !(← bump) then return ← back
  let nameStart ← pos
  asciiName (← budget)
  if ← atEnd then return ← back
  let name ← textBetween nameStart (← pos)
  if !(← bumpIf [':', ']']) then return ← back
  match AsciiKind.ofName? name with
  | some kind => pure (some (.ascii ⟨start, ← pos⟩ kind negated))
  | none => back

def classMember : ReadM Primitive := do
  if ← isAt '\\' then escape
  else
    let span ← charSpan
    match ← current with
    | some c =>
      let _ ← bump
      pure (.literal ⟨span, c, false⟩)
    | none => unclosedClass

def memberItem : Primitive → ReadM SetItem
  | .literal l => pure (.literal l)
  | .perl s k n => pure (.perl s k n)
  | .property s q => pure (.property s q)
  | p => fault .classEscapeInvalid p.span

def rangeEnd : Primitive → ReadM Literal
  | .literal l => pure l
  | p => fault .classRangeLiteral p.span

def classRange : ReadM SetItem := do
  let first ← classMember
  skipBlanks
  if ← atEnd then unclosedClass
  if !(← isAt '-') || (← peekSkip) == some ']' || (← peekSkip) == some '-' then
    return ← memberItem first
  if !(← bumpSkip) then unclosedClass
  let second ← classMember
  let span : Span := ⟨first.span.start, second.span.stop⟩
  let lo ← rangeEnd first
  let hi ← rangeEnd second
  if hi.c < lo.c then fault .classRangeInvalid span
  pure (.range span lo hi)

def classLoop : Nat → Union → ReadM (Span × Bool × ClassSet)
  | 0, _ => unclosedClass
  | fuel + 1, u => do
    skipBlanks
    let some c ← current | unclosedClass
    let next := (← peek)
    if c = '[' then
      if !(← get).classes.isEmpty then
        if let some item ← asciiClass then
          return ← classLoop fuel (u.push item)
      classLoop fuel (← pushClassOpen u)
    else if c = ']' then
      match ← popClass u with
      | .inl u' => classLoop fuel u'
      | .inr done => pure done
    else if c = '&' && next == some '&' then
      let _ ← bumpIf ['&', '&']
      classLoop fuel (← pushClassOp .inter u)
    else if c = '-' && next == some '-' then
      let _ ← bumpIf ['-', '-']
      classLoop fuel (← pushClassOp .diff u)
    else if c = '~' && next == some '~' then
      let _ ← bumpIf ['~', '~']
      classLoop fuel (← pushClassOp .symDiff u)
    else
      classLoop fuel (u.push (← classRange))

def bracket : ReadM Node := do
  let (span, negated, set) ← classLoop (← budget) ⟨← here, []⟩
  pure (.bracket span negated set)

def loop : Nat → Concat → ReadM Concat
  | 0, concat => pure concat
  | fuel + 1, concat => do
    skipBlanks
    let some c ← current | return concat
    let concat ← match c with
      | '(' => pushGroup concat
      | ')' => popGroup concat
      | '|' => pushBar concat
      | '[' => do pure (concat.push (← bracket))
      | '?' => uncounted concat 0 (some 1)
      | '*' => uncounted concat 0 none
      | '+' => uncounted concat 1 none
      | '\x7b' => counted concat
      | _ => do pure (concat.push (← primitive).toNode)
    loop fuel concat

end Read

/-- The tree of a pattern, or the first fault in reading it. -/
def Node.read (pattern : String) : Except Fault Node :=
  let text := pattern.toList.toArray
  let start : Reader := ⟨text, 0, false, 0, [], [], []⟩
  let reading : ReadM Node := do
    let concat ← Read.loop (text.size + 1) ⟨0, []⟩
    Read.finish concat
  (reading.run' start)

end Regex

end RuleScript
