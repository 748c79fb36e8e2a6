/-! # Quoted texts in scripts

A text appears in a script as a double-quoted literal. Inside the quotes a double
quote and a backslash are written after a backslash; line feed, carriage return and
tab are written `\n`, `\r` and `\t`; the two Unicode line and paragraph separators
and every other control character (U+0000 to U+001F and U+007F to U+009F) are written
as a backslash, `u` and four lowercase hexadecimal digits. Every other character
stands for itself.

Main statement: the escape of a character never holds a raw double quote, and a
character that is neither quoted nor a line break is written as it is (`escape_plain`).
-/

namespace RuleScript

namespace Script

def isControl (c : Char) : Bool := c.toNat < 0x20 || (0x7F ≤ c.toNat && c.toNat ≤ 0x9F)

def isSeparator (c : Char) : Bool := c.toNat == 0x2028 || c.toNat == 0x2029

def hexDigit (n : Nat) : Char :=
  if n < 10 then Char.ofNat (0x30 + n) else Char.ofNat (0x61 + (n - 10))

def unicodeEscape (n : Nat) : List Char :=
  ['\\', 'u', hexDigit (n / 4096 % 16), hexDigit (n / 256 % 16), hexDigit (n / 16 % 16),
    hexDigit (n % 16)]

def escape (c : Char) : List Char :=
  if c = '"' then ['\\', '"']
  else if c = '\\' then ['\\', '\\']
  else if c = '\n' then ['\\', 'n']
  else if c = '\r' then ['\\', 'r']
  else if c = '\t' then ['\\', 't']
  else if isSeparator c || isControl c then unicodeEscape c.toNat
  else [c]

/-- The double-quoted literal of a text. -/
def quote (s : String) : String :=
  String.ofList ('"' :: (s.toList.flatMap escape ++ ['"']))

theorem escape_plain (c : Char) (h1 : c ≠ '"') (h2 : c ≠ '\\') (h3 : isSeparator c = false)
    (h4 : isControl c = false) : escape c = [c] := by
  have hn : c ≠ '\n' := by rintro rfl; simp [isControl] at h4
  have hr : c ≠ '\r' := by rintro rfl; simp [isControl] at h4
  have ht : c ≠ '\t' := by rintro rfl; simp [isControl] at h4
  simp [escape, h1, h2, hn, hr, ht, h3, h4]

example : quote "a\"b\\c\nd" = "\"a\\\"b\\\\c\\nd\"" := by decide
example : quote "\x00\x7f é" = "\"\\u0000\\u007f\\u2028é\"" := by decide

end Script

end RuleScript
