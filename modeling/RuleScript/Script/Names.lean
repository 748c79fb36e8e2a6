/-! # Names in scripts

A property or variable of a rule program becomes a script name by writing each hyphen
as an underscore. Some names cannot be used: the reserved words of the script
language are refused everywhere, and a few names of fixed values may be read but never
bound.
-/

namespace RuleScript

namespace Script

/-- The script name of a source name: each hyphen becomes an underscore. -/
def identifier (name : String) : String := name.map fun c => if c = '-' then '_' else c

def keywords : List String :=
  ["await", "break", "case", "catch", "class", "const", "continue", "debugger", "default",
    "delete", "do", "else", "enum", "export", "extends", "finally", "for", "function", "if",
    "implements", "import", "in", "instanceof", "interface", "let", "new", "package",
    "private", "protected", "public", "return", "static", "super", "switch", "this", "throw",
    "try", "typeof", "var", "void", "while", "with", "yield"]

/-- Names of fixed values: they may be read without being bound, and cannot be bound. -/
def fixedNames : List String :=
  ["true", "false", "null", "undefined", "NaN", "Infinity", "arguments", "eval", "console"]

example : identifier "background-color" = "background_color" := by decide +kernel
example : keywords.length = 43 ∧ fixedNames.length = 9 := by decide

end Script

end RuleScript
