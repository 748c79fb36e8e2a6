import RuleScript.Text.Blank
import RuleScript.Source.Token
/-! # Scanning source text into tokens

The scanner reads the text once from left to right. At each place one `Move` decides
what the characters in front of it are: a blank or a whole `/* */` comment, which it
passes over; a token, which it takes; or a fault, which ends the scan.

* An identifier is an ASCII letter followed by ASCII letters, digits and hyphens.
* A number is a run of ASCII digits.
* A string runs from a double quote to the next one, with no escapes; its token text
  is what stands between them.
* `&`, `{`, `}`, `:` and `;` are tokens of one character.
* A blank is a character of the Unicode White_Space class.

Each move that does not fail consumes at least one character, so the scan ends by
recursion on the length of what is left. A fault reports its line and column from
the start of the text, and its byte offset from the first character that is not
blank.
-/

namespace RuleScript

/-- Why scanning stopped before the end of the text. -/
inductive LexFault where
  | unexpected (c : Char)
  | openString
  | openComment
deriving Repr, DecidableEq, Inhabited

/-- A scanning fault and where the thing that failed begins. -/
structure LexError where
  fault : LexFault
  offset : Nat
  line : Nat
  column : Nat
deriving Repr, DecidableEq, Inhabited

namespace LexError

def message (e : LexError) : String :=
  let line := e.line
  let column := e.column
  let offset := e.offset
  let head := s!"Lexer error at line {line}, column {column}: "
  match e.fault with
  | .unexpected c => head ++ s!"unexpected character '{c}' at offset {offset}"
  | .openString => head ++ s!"unterminated string starting at offset {offset}"
  | .openComment => head ++ s!"unterminated comment starting at offset {offset}"

end LexError

namespace Scan

open Text

/-- Characters after the first letter of an identifier: ASCII letters and digits, and
the hyphen. -/
def isWordChar (c : Char) : Bool := c.isAlphanum || c == '-'

/-- The text after an opening comment mark, split after the first closing mark: the
comment's remaining text through that mark, and what follows. `none` if the comment
never closes. -/
def closeComment : List Char → Option (List Char × List Char)
  | [] => none
  | c :: r =>
    if c = '*' ∧ r.head? = some '/' then some (['*', '/'], r.tail)
    else (closeComment r).map fun p => (c :: p.1, p.2)

/-- The text after an opening quote, split at the next quote: what stands before it,
and what follows it. `none` if no quote follows. -/
def closeQuote : List Char → Option (List Char × List Char)
  | [] => none
  | c :: r => if c = '"' then some ([], r) else (closeQuote r).map fun p => (c :: p.1, p.2)

theorem closeComment_split : ∀ {r body rest : List Char},
    closeComment r = some (body, rest) → r = body ++ rest
  | [], _, _, h => by simp [closeComment] at h
  | c :: r, body, rest, h => by
    unfold closeComment at h
    split at h
    · rename_i hc
      obtain ⟨rfl, hr⟩ := hc
      simp only [Option.some.injEq, Prod.mk.injEq] at h
      obtain ⟨rfl, rfl⟩ := h
      cases r with
      | nil => simp at hr
      | cons d r => simp at hr; simp [hr]
    · obtain ⟨⟨b, s⟩, hb, he⟩ := Option.map_eq_some_iff.1 h
      simp only [Prod.mk.injEq] at he
      obtain ⟨rfl, rfl⟩ := he
      simp [closeComment_split hb]

theorem closeQuote_split : ∀ {r text rest : List Char},
    closeQuote r = some (text, rest) → r = text ++ '"' :: rest
  | [], _, _, h => by simp [closeQuote] at h
  | c :: r, text, rest, h => by
    unfold closeQuote at h
    split at h
    · rename_i hc
      simp only [Option.some.injEq, Prod.mk.injEq] at h
      obtain ⟨rfl, rfl⟩ := h
      simp [hc]
    · obtain ⟨⟨b, s⟩, hb, he⟩ := Option.map_eq_some_iff.1 h
      simp only [Prod.mk.injEq] at he
      obtain ⟨rfl, rfl⟩ := he
      simp [closeQuote_split hb]

end Scan

/-- What the scanner does with the characters `cs` in front of it. A move that does
not fail names the characters it consumes, `used`, which are never empty. -/
inductive Move (cs : List Char) where
  | pass (used rest : List Char) (split : cs = used ++ rest) (nonempty : used ≠ [])
  | take (kind : TokenKind) (text : String) (used rest : List Char)
      (split : cs = used ++ rest) (nonempty : used ≠ [])
  | fail (fault : LexFault)

namespace Move

open Scan Text

def of : (c : Char) → (r : List Char) → Move (c :: r)
  | '/', '*' :: r =>
    match h : closeComment r with
    | some (body, rest) =>
      .pass ('/' :: '*' :: body) rest (by rw [closeComment_split h]; rfl) (by simp)
    | none => .fail .openComment
  | '"', r =>
    match h : closeQuote r with
    | some (text, rest) =>
      .take .string (String.ofList text) ('"' :: (text ++ ['"'])) rest
        (by rw [closeQuote_split h]; simp) (by simp)
    | none => .fail .openString
  | c, r =>
    if isBlank c then .pass [c] r rfl (by simp)
    else if c.isDigit then
      let run := c :: r.takeWhile Char.isDigit
      .take .number (String.ofList run) run (r.dropWhile Char.isDigit) (by simp [run]) (by simp [run])
    else if c.isAlpha then
      let run := c :: r.takeWhile isWordChar
      .take .identifier (String.ofList run) run (r.dropWhile isWordChar) (by simp [run]) (by simp [run])
    else
      match TokenKind.ofMark? c with
      | some k => .take k (String.singleton c) [c] r rfl (by simp)
      | none => .fail (.unexpected c)

theorem length_lt {cs used rest : List Char} (split : cs = used ++ rest) (nonempty : used ≠ []) :
    rest.length < cs.length := by
  subst split
  cases used with
  | nil => exact absurd rfl nonempty
  | cons _ _ => simp only [List.cons_append, List.length_cons, List.length_append]; omega

end Move

/-- The outcome of scanning a whole text: the tokens read, in order, and the fault
that stopped the scan before the end, if any. -/
structure Scanned where
  tokens : List Token
  fault : Option LexError
deriving Repr, Inhabited

namespace Scan

/-- Scans `cs` from position `p`, after the tokens `acc`. `lead` is the byte width
of the blanks that open the whole text, which fault offsets leave out. -/
def go (lead : Nat) (p : Position) (acc : Array Token) : List Char → Scanned
  | [] => ⟨acc.toList, none⟩
  | c :: r =>
    match Move.of c r with
    | .pass used rest split nonempty =>
      have : rest.length < r.length + 1 := Move.length_lt split nonempty
      go lead (p.walk used) acc rest
    | .take kind text used rest split nonempty =>
      have : rest.length < r.length + 1 := Move.length_lt split nonempty
      go lead (p.walk used) (acc.push ⟨kind, text, Span.covering p used⟩) rest
    | .fail fault => ⟨acc.toList, some ⟨fault, p.offset - lead, p.line, p.column⟩⟩
termination_by cs => cs.length
decreasing_by all_goals (simp only [List.length_cons]; omega)

def lead (cs : List Char) : Nat := Position.width (cs.takeWhile Text.isBlank)

end Scan

def Scanned.ofString (s : String) : Scanned :=
  Scan.go (Scan.lead s.toList) Position.start #[] s.toList

/-- The tokens of a text, or the first fault in it. -/
def tokenize (s : String) : Except LexError (List Token) :=
  let r := Scanned.ofString s
  match r.fault with
  | some e => .error e
  | none => .ok r.tokens

end RuleScript
