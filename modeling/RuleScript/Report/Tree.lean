import RuleScript.Report.Json
import RuleScript.Syntax.Basic
import RuleScript.Source.Token
/-!
# Tokens and programs as JSON documents

A record is an object whose fields follow the record's own order; a span's fields are
`start`, `end`, `line` and `column`. A value of a sum type is an object with one
field, named for its case: `Declaration`, `Loop` or `NestedLoop` for an item,
`Literal` or `Variable` for a value, `Integer` or `String` for a literal.
-/

namespace RuleScript

def Span.toDoc (s : Span) : Doc :=
  .obj [("start", .num s.start), ("end", .num s.stop), ("line", .num s.line),
    ("column", .num s.column)]

def Token.toDoc (t : Token) : Doc :=
  .obj [("kind", .str t.kind.name), ("text", .str t.text), ("span", t.span.toDoc)]

def Literal.toDoc : Literal → Doc
  | .integer digits => .obj [("Integer", .str digits)]
  | .string s => .obj [("String", .str s)]

def Value.toDoc : Value → Doc
  | .literal l => .obj [("Literal", l.toDoc)]
  | .ref n => .obj [("Variable", .str n)]

def Declaration.toDoc (d : Declaration) : Doc :=
  .obj [("property", .str d.property), ("value", d.value.toDoc), ("span", d.span.toDoc)]

def LoopForm.caseName : LoopForm → String
  | .plain => "Loop"
  | .nested => "NestedLoop"

mutual

def Node.toDoc : Node → Doc
  | .declaration d => .obj [("Declaration", d.toDoc)]
  | .loop form body => .obj [(form.caseName, .obj [("body", .arr (Node.toDocs body))])]

def Node.toDocs : List Node → List Doc
  | [] => []
  | n :: ns => n.toDoc :: Node.toDocs ns

end

def Rule.toDoc (r : Rule) : Doc :=
  .obj [("selector", .str r.selector), ("declarations", .arr (Node.toDocs r.body))]

/-- A program as a document. -/
def Program.toDoc (p : Program) : Doc := .obj [("rules", .arr (p.rules.map Rule.toDoc))]

end RuleScript
