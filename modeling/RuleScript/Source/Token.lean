import RuleScript.Source.Position
/-! # Tokens

A token is a kind, a text and a span. Identifiers, numbers and the five marks keep
the characters they were read from; a string token keeps only what stands between
its quotes. The word `loop` is an identifier here: only its place in a rule makes it
a keyword.
-/

namespace RuleScript

/-- The classes of tokens. -/
inductive TokenKind where
  | identifier
  | number
  | string
  | ampersand
  | lbrace
  | rbrace
  | colon
  | semicolon
deriving Repr, DecidableEq, Inhabited

namespace TokenKind

def name : TokenKind → String
  | .identifier => "Identifier"
  | .number => "Number"
  | .string => "String"
  | .ampersand => "Ampersand"
  | .lbrace => "LBrace"
  | .rbrace => "RBrace"
  | .colon => "Colon"
  | .semicolon => "Semicolon"

def all : List TokenKind :=
  [.identifier, .number, .string, .ampersand, .lbrace, .rbrace, .colon, .semicolon]

def ofName? (s : String) : Option TokenKind := all.find? (·.name == s)

theorem ofName?_name (k : TokenKind) : ofName? k.name = some k := by
  cases k <;> rfl

def ofMark? : Char → Option TokenKind
  | '&' => some .ampersand
  | '{' => some .lbrace
  | '}' => some .rbrace
  | ':' => some .colon
  | ';' => some .semicolon
  | _ => none

end TokenKind

/-- A token: its kind, its text, and where it stands. -/
structure Token where
  kind : TokenKind
  text : String
  span : Span
deriving Repr, DecidableEq, Inhabited

namespace Token

/-- How a message names a token: the kind, then the text in backquotes, or in double
quotes for a string token. The text is shown as it is, without escapes. -/
def describe (t : Token) : String :=
  match t.kind with
  | .string => t.kind.name ++ " \"" ++ t.text ++ "\""
  | k => k.name ++ " " ++ "\x60" ++ t.text ++ "\x60"

end Token

end RuleScript
