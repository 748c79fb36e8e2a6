import RuleScript.Regex.Parse
import RuleScript.Regex.Nesting
import RuleScript.Regex.Settle
import RuleScript.Regex.Footprint
import RuleScript.Regex.Search
/-!
# Regular expressions: patterns

A pattern goes through four stages, and is refused at the first that fails: it is read
into a tree, its nesting is checked, its flags are settled into an expression, and the
expression is compiled forwards and then backwards within the size limit. Between the
two compilations, a test of Unicode word boundaries is refused, since the classes of
Unicode word characters are not available to a search.

A fault of the first three stages is shown as the pattern with carets under the places
at fault, then the fault's text.
-/

namespace RuleScript

namespace Regex

namespace Fault

def lineColumn (cs : List Char) (p : Nat) : Nat × Nat :=
  (cs.take p).foldl (fun (lc : Nat × Nat) ch => if ch = '\n' then (lc.1 + 1, 1) else (lc.1, lc.2 + 1)) (1, 1)

def run (c : Char) (k : Nat) : String := String.ofList (List.replicate k c)

/-- The lines of a pattern: split at line feeds, a carriage return before one dropped,
and no empty line after a final line feed. -/
def lines (s : String) : List String :=
  let parts := s.splitOn "\n"
  let cut := parts.dropLast.map fun l => if l.endsWith "\r" then String.ofList l.toList.dropLast else l
  let parts := cut ++ parts.getLast?.toList
  if s.endsWith "\n" then parts.dropLast else parts

/-- The caret line under one line of a pattern: `padding` blanks, then a caret under
each place of the spans on it, given as columns from and to, in order. -/
def carets (padding : Nat) (spans : List (Nat × Nat)) : String :=
  let (text, _) := spans.foldl (fun (acc : String × Nat) (s : Nat × Nat) =>
    let gap := (s.1 - 1) - acc.2
    let len := max 1 (s.2 - s.1)
    (acc.1 ++ run ' ' gap ++ run '^' len, acc.2 + gap + len)) ("", 0)
  run ' ' padding ++ text

def insertSpan (s : Nat × Nat) : List (Nat × Nat) → List (Nat × Nat)
  | [] => [s]
  | t :: ts => if s.1 < t.1 || (s.1 = t.1 && s.2 ≤ t.2) then s :: t :: ts else t :: insertSpan s ts

/-- How a fault is shown: the pattern with carets under the places at fault, then the
fault's text. A pattern of several lines is shown with line numbers between rules, and
a span over several lines is named by its ends. -/
def render (pattern : String) (f : Fault) : String :=
  let cs := pattern.toList
  let spans := (f.span.start, f.span.stop) :: f.aux.toList.map fun a => (a.start, a.stop)
  let spans := spans.foldr insertSpan []
  let ends := spans.map fun s => (lineColumn cs s.1, lineColumn cs s.2)
  let ls := lines pattern
  let lineCount := ls.length + (if pattern.endsWith "\n" then 1 else 0)
  let width := if lineCount ≤ 1 then 0 else (toString lineCount).length
  let padding := if width = 0 then 4 else 2 + width
  let notated := String.join ((ls.zipIdx 1).map fun (line, i) =>
    let number := toString i
    let lead := if width = 0 then "    " else run ' ' (width - number.length) ++ number ++ ": "
    let onLine := ends.filterMap fun (a, b) =>
      if a.1 = i && b.1 = i then some (a.2, b.2) else none
    lead ++ line ++ "\n" ++ (if onLine.isEmpty then "" else carets padding onLine ++ "\n"))
  let message := "error: " ++ f.kind.message
  if cs.contains '\n' then
    let divider := run '~' 79
    let across := ends.filter fun (a, b) => a.1 != b.1
    let notes := across.map fun (a, b) =>
      s!"on line {a.1} (column {a.2}) through line {b.1} (column {b.2 - 1})"
    "regex parse error:\n" ++ divider ++ "\n" ++ notated ++ divider ++ "\n" ++
      (if notes.isEmpty then "" else "\n".intercalate notes ++ "\n") ++ message
  else "regex parse error:\n" ++ notated ++ message

end Fault

def tooBigMessage : String :=
  "Compiled regex exceeds size limit of " ++ toString sizeLimit ++ " bytes."

def unicodeWordMessage : String := "error building NFA"

/-- A pattern ready to search with. -/
structure Pattern where
  source : String
  expr : Expr
deriving Repr, Inhabited

namespace Pattern

def settled (source : String) : Except Fault Expr := do
  let n ← Node.read source
  match n.nestFault with
  | some f => .error f
  | none => n.settle

/-- The pattern of a text, or the text of its refusal. -/
def compile (source : String) : Except String Pattern :=
  match settled source with
  | .error f => .error (f.render source)
  | .ok e =>
    if !fitsSize false e then .error tooBigMessage
    else if e.hasUnicodeWord then .error unicodeWordMessage
    else if !fitsSize true e then .error tooBigMessage
    else .ok ⟨source, e⟩

def isMatch (p : Pattern) (s : String) : Bool := p.expr.isMatchIn s

end Pattern

end Regex

end RuleScript
