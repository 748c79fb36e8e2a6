/-!
# JSON documents

The dumps of tokens and syntax trees are JSON documents, printed in the pretty layout:
each element of a non-empty array and each field of a non-empty object stands on a
line of its own, indented two spaces deeper than its bracket, and an empty array or
object is `[]` or `{}`. Fields keep the order they are given in.

In a string a double quote and a backslash are written after a backslash; backspace,
form feed, line feed, carriage return and tab have their one-letter escapes; the other
characters below U+0020 are written as `\u00` and two lowercase hexadecimal digits.
Every other character, delete and non-ASCII ones included, is written as it is.
-/

namespace RuleScript

/-- A JSON document. Numbers are natural numbers: nothing dumped has another kind. -/
inductive Doc where
  | null
  | bool (b : Bool)
  | num (n : Nat)
  | str (s : String)
  | arr (items : List Doc)
  | obj (fields : List (String × Doc))
deriving Repr, Inhabited

namespace Doc

def hexDigit (n : Nat) : Char :=
  if n < 10 then Char.ofNat (0x30 + n) else Char.ofNat (0x61 + (n - 10))

def escape (c : Char) : List Char :=
  if c = '"' then ['\\', '"']
  else if c = '\\' then ['\\', '\\']
  else if c = '\n' then ['\\', 'n']
  else if c = '\r' then ['\\', 'r']
  else if c = '\t' then ['\\', 't']
  else if c.toNat = 0x08 then ['\\', 'b']
  else if c.toNat = 0x0C then ['\\', 'f']
  else if c.toNat < 0x20 then ['\\', 'u', '0', '0', hexDigit (c.toNat / 16), hexDigit (c.toNat % 16)]
  else [c]

def quote (s : String) : String := String.ofList ('"' :: (s.toList.flatMap escape ++ ['"']))

def pad (depth : Nat) : String := String.ofList (List.replicate (2 * depth) ' ')

mutual

def pretty (depth : Nat) : Doc → String
  | .null => "null"
  | .bool b => if b then "true" else "false"
  | .num n => toString n
  | .str s => quote s
  | .arr [] => "[]"
  | .arr (x :: xs) => "[\n" ++ prettyItems (depth + 1) (x :: xs) ++ "\n" ++ pad depth ++ "]"
  | .obj [] => "\x7b\x7d"
  | .obj (f :: fs) =>
    "\x7b\n" ++ prettyFields (depth + 1) (f :: fs) ++ "\n" ++ pad depth ++ "\x7d"

def prettyItems (depth : Nat) : List Doc → String
  | [] => ""
  | [x] => pad depth ++ pretty depth x
  | x :: y :: ys => pad depth ++ pretty depth x ++ ",\n" ++ prettyItems depth (y :: ys)

def prettyFields (depth : Nat) : List (String × Doc) → String
  | [] => ""
  | [(k, v)] => pad depth ++ quote k ++ ": " ++ pretty depth v
  | (k, v) :: f :: fs =>
    pad depth ++ quote k ++ ": " ++ pretty depth v ++ ",\n" ++ prettyFields depth (f :: fs)

end

def render (d : Doc) : String := pretty 0 d

example : render (.obj [("a", .arr [.num 1, .str "x\n"]), ("b", .arr [])]) =
    "\x7b\n  \"a\": [\n    1,\n    \"x\\n\"\n  ],\n  \"b\": []\n\x7d" := by decide +kernel

end Doc

end RuleScript
