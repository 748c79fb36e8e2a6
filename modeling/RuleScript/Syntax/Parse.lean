import RuleScript.Source.Scan
import RuleScript.Syntax.Basic
/-! # Reading tokens into a program

The reader follows the grammar

    Program := Rule*
    Rule    := Identifier Block
    Block   := '{' Item* '}'
    Item    := 'loop' Block | '&' 'loop' Block | Identifier ':' Value ';'
    Value   := Number | String | Identifier

with one token of lookahead, where `loop` is an identifier spelling the keyword. An
item that starts with `loop` is a loop block, so no property is named `loop`. Blocks
nest at most `maxNesting` deep, the rule's own block counting as one. The first fault
ends reading.

Each step returns what is left of the tokens with a proof that it is shorter, so
reading ends by recursion on the number of tokens left.
-/

namespace RuleScript

inductive Keyword where
  | loop
deriving Repr, DecidableEq, Inhabited

namespace Keyword

def spelling : Keyword → String
  | .loop => "loop"

def classify (s : String) : Option Keyword :=
  if s = "loop" then some .loop else none

theorem classify_spelling (k : Keyword) : classify k.spelling = some k := by
  cases k; rfl

end Keyword

/-- What the reader was looking for when it failed. -/
inductive Expected where
  | token (k : TokenKind)
  | keyword (w : Keyword)
  | value
deriving Repr, DecidableEq, Inhabited

namespace Expected

def describe : Expected → String
  | .token k => k.name
  | .keyword w => TokenKind.identifier.name ++ " \x60" ++ w.spelling ++ "\x60"
  | .value => "a value (Number, String or Identifier)"

def accepts : Expected → Token → Bool
  | .token k, t => t.kind == k
  | .keyword w, t => t.kind == .identifier && t.text == w.spelling
  | .value, t => t.kind == .number || t.kind == .string || t.kind == .identifier

end Expected

/-- The deepest nesting of blocks, the rule's own block counting as one. -/
def maxNesting : Nat := 256

/-- Why reading stopped. -/
inductive ParseError where
  | unexpected (expected : Expected) (found : Token)
  | unexpectedEnd (expected : Expected)
  | tooDeep (line column : Nat)
deriving Repr, Inhabited

namespace ParseError

def message : ParseError → String
  | .unexpected e t =>
    let line := t.span.line
    let column := t.span.column
    let what := e.describe
    let found := t.describe
    s!"Parse error at line {line}, column {column}: expected {what}, found {found}"
  | .unexpectedEnd e =>
    let what := e.describe
    s!"Parse error: expected {what}, found end of input"
  | .tooDeep line column =>
    s!"Parse error at line {line}, column {column}: blocks nested deeper than {maxNesting}"

def expected? : ParseError → Option Expected
  | .unexpected e _ => some e
  | .unexpectedEnd e => some e
  | .tooDeep _ _ => none

end ParseError

/-- What is left of a token list `ts` after a step that consumed at least one token. -/
abbrev Shorter (ts : List Token) := { r : List Token // r.length < ts.length }

abbrev NoLonger (ts : List Token) := { r : List Token // r.length ≤ ts.length }

namespace Reader

def expect (e : Expected) : (ts : List Token) → Except ParseError (Token × Shorter ts)
  | [] => .error (.unexpectedEnd e)
  | t :: r => if e.accepts t then .ok (t, ⟨r, by simp⟩) else .error (.unexpected e t)

def valueOf (t : Token) : Option Value :=
  match t.kind with
  | .number => some (.literal (.integer (canonicalDigits t.text)))
  | .string => some (.literal (.string t.text))
  | .identifier => some (.ref t.text)
  | _ => none

def opensLoop (t : Token) : Bool :=
  t.kind == .identifier && Keyword.classify t.text == some .loop

def declaration (ts : List Token) : Except ParseError (Node × Shorter ts) :=
  match expect (.token .identifier) ts with
  | .error e => .error e
  | .ok (property, ⟨r, hr⟩) =>
    match expect (.token .colon) r with
    | .error e => .error e
    | .ok (_, ⟨r', hr'⟩) =>
      match r' with
      | [] => .error (.unexpectedEnd .value)
      | v :: r'' =>
        match valueOf v with
        | none => .error (.unexpected .value v)
        | some value =>
          match expect (.token .semicolon) r'' with
          | .error e => .error e
          | .ok (_, ⟨rest, hrest⟩) =>
            .ok (.declaration ⟨property.text, value, property.span⟩,
              ⟨rest, by simp only [List.length_cons] at hr'; omega⟩)

mutual

/-- Reads a block `{ Item* }` whose enclosing blocks number `depth`. -/
def block (depth : Nat) (ts : List Token) : Except ParseError (List Node × Shorter ts) :=
  match expect (.token .lbrace) ts with
  | .error e => .error e
  | .ok (brace, ⟨r, hr⟩) =>
    if maxNesting ≤ depth then .error (.tooDeep brace.span.line brace.span.column)
    else
      match items (depth + 1) r #[] with
      | .error e => .error e
      | .ok (body, ⟨r', hr'⟩) =>
        match expect (.token .rbrace) r' with
        | .error e => .error e
        | .ok (_, ⟨r'', hr''⟩) => .ok (body, ⟨r'', by omega⟩)
termination_by (ts.length, 2)

def items (depth : Nat) (ts : List Token) (acc : Array Node) :
    Except ParseError (List Node × NoLonger ts) :=
  match ts with
  | [] => .ok (acc.toList, ⟨[], by simp⟩)
  | t :: r =>
    if t.kind == .rbrace then .ok (acc.toList, ⟨t :: r, Nat.le_refl _⟩)
    else
      match item depth (t :: r) with
      | .error e => .error e
      | .ok (n, ⟨r', hr'⟩) =>
        match items depth r' (acc.push n) with
        | .error e => .error e
        | .ok (body, ⟨r'', hr''⟩) => .ok (body, ⟨r'', by omega⟩)
termination_by (ts.length, 1)

def item (depth : Nat) (ts : List Token) : Except ParseError (Node × Shorter ts) :=
  match ts with
  | t :: r =>
    if opensLoop t then
      match block depth r with
      | .error e => .error e
      | .ok (body, ⟨r', hr'⟩) => .ok (.loop .plain body, ⟨r', by simp only [List.length_cons]; omega⟩)
    else if t.kind == .ampersand then
      match expect (.keyword .loop) r with
      | .error e => .error e
      | .ok (_, ⟨r', hr'⟩) =>
        match block depth r' with
        | .error e => .error e
        | .ok (body, ⟨r'', hr''⟩) => .ok (.loop .nested body, ⟨r'', by simp only [List.length_cons]; omega⟩)
    else declaration (t :: r)
  | [] => declaration []
termination_by (ts.length, 0)

end

end Reader

/-- The outcome of reading a token list: the rules read in full; the selector of the
rule being read when a fault stopped reading, if its selector was read; and that
fault. -/
structure Reading where
  rules : List Rule
  pending : Option String
  fault : Option ParseError
deriving Repr, Inhabited

namespace Reading

/-- Reads rules after `acc` until the tokens run out or a fault. -/
def go (ts : List Token) (acc : Array Rule) : Reading :=
  match ts with
  | [] => ⟨acc.toList, none, none⟩
  | t :: r =>
    if t.kind == .identifier then
      match Reader.block 0 r with
      | .error e => ⟨acc.toList, some t.text, some e⟩
      | .ok (body, ⟨r', hr'⟩) =>
        have : r'.length < r.length + 1 := by omega
        go r' (acc.push ⟨t.text, body⟩)
    else ⟨acc.toList, none, some (.unexpected (.token .identifier) t)⟩
termination_by ts.length
decreasing_by simp only [List.length_cons]; omega

def ofTokens (ts : List Token) : Reading := go ts #[]

def selectors (r : Reading) : List String := r.rules.map (·.selector) ++ r.pending.toList

end Reading

inductive SourceError where
  | lex (e : LexError)
  | parse (e : ParseError)
deriving Repr, Inhabited

namespace SourceError

def message : SourceError → String
  | .lex e => e.message
  | .parse e => e.message

end SourceError

namespace Program

/-- The program a token list spells, or the first fault in it. -/
def ofTokens (ts : List Token) : Except ParseError Program :=
  let r := Reading.ofTokens ts
  match r.fault with
  | some e => .error e
  | none => .ok ⟨r.rules⟩

/-- The program a source text spells, or the first fault in it. -/
def read (s : String) : Except SourceError Program :=
  match tokenize s with
  | .error e => .error (.lex e)
  | .ok ts =>
    match ofTokens ts with
    | .error e => .error (.parse e)
    | .ok p => .ok p

end Program

end RuleScript
