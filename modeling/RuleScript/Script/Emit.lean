import RuleScript.Syntax.Basic
import RuleScript.Script.Basic
import RuleScript.Script.Names
/-!
# Writing a program as a script

The rules are written in order, their items in order, and a loop block becomes a
counted loop. A declaration `x: v;` binds `x` with `let` unless `x` is already
visible, and then assigns it; `say: v;` prints `v`; `times: n;` sets the count of the
loop it stands in, and outside a loop it is ignored with a warning.

Visibility follows a stack of scopes: one for the whole program, shared by all rules,
and one more for each loop body being written. A name is visible if some scope on the
stack holds it, and a new binding goes into the innermost scope. Scopes are keyed by
the source spelling of a name; the script spells it with underscores for hyphens.

Reading a variable that is not visible warns, unless it names a fixed value. A
reserved word is refused as any name, and a fixed value's name cannot be bound.

A loop's count is settled before anything of its body is written: its direct `times`
items, at most one, must hold an integer literal, and without one the body runs once.
-/

namespace RuleScript

structure Options where
  indent : Nat := 2
deriving Repr, DecidableEq, Inhabited

namespace Options

def maxIndent : Nat := 16

end Options

/-- Something questionable that writing went past. -/
inductive Warning where
  | undeclared (name : String) (line column : Nat)
  | timesOutsideLoop (line column : Nat)
deriving Repr, DecidableEq, Inhabited

namespace Warning

def message : Warning → String
  | .undeclared name line column =>
    s!"warning at line {line}, column {column}: " ++ "\x60" ++ name ++
      "\x60 is not declared in this scope"
  | .timesOutsideLoop line column =>
    s!"warning at line {line}, column {column}: " ++ "\x60times\x60 outside a loop is ignored"

end Warning

/-- Why a program cannot be written as a script. -/
inductive EmitError where
  | invalidTimes (found : String) (line column : Nat)
  | duplicateTimes (line column firstLine : Nat)
  | invalidIndent (indent : Nat)
  | reservedName (name : String) (line column : Nat)
deriving Repr, DecidableEq, Inhabited

namespace EmitError

def message : EmitError → String
  | .invalidTimes found line column =>
    s!"Codegen error at line {line}, column {column}: " ++
      "\x60times\x60 must be an integer literal, got " ++ found
  | .duplicateTimes line column firstLine =>
    s!"Codegen error at line {line}, column {column}: " ++
      s!"loop already has \x60times\x60 (set at line {firstLine})"
  | .invalidIndent indent =>
    let most := Options.maxIndent
    s!"Codegen error: indent of {indent} spaces exceeds the maximum of {most}"
  | .reservedName name line column =>
    s!"Codegen error at line {line}, column {column}: " ++ "\x60" ++ name ++
      "\x60 is reserved in JavaScript"

end EmitError

/-- What writing did, in order, for the log: it began a rule with so many items, or
it warned. -/
inductive Event where
  | rule (selector : String) (items : Nat)
  | warning (w : Warning)
deriving Repr, DecidableEq, Inhabited

/-- The state of writing: the scope stack, innermost first; the bound names in the
order first bound; and the events so far. -/
structure Emitter where
  scopes : List (List String) := [[]]
  declared : List String := []
  events : List Event := []
deriving Repr, Inhabited

namespace Emitter

def warnings (s : Emitter) : List Warning :=
  s.events.filterMap fun
    | .warning w => some w
    | .rule _ _ => none

def visible (s : Emitter) (n : String) : Bool := s.scopes.any (·.contains n)

def declare (s : Emitter) (n : String) : Emitter :=
  { s with
    scopes := match s.scopes with
      | [] => []
      | inner :: outer => (n :: inner) :: outer
    declared := if s.declared.contains n then s.declared else s.declared ++ [n] }

def note (s : Emitter) (e : Event) : Emitter := { s with events := s.events ++ [e] }

end Emitter

/-- Writing: it may fail, and keeps its state when it does. -/
abbrev EmitM := ExceptT EmitError (StateM Emitter)

namespace Emit

def referenceName (n : String) (d : Declaration) : Except EmitError String :=
  let x := Script.identifier n
  if Script.keywords.contains x then .error (.reservedName x d.span.line d.span.column)
  else .ok x

/-- The script name of a property bound by declaration `d`; a reserved word or the
name of a fixed value fails. -/
def bindingName (n : String) (d : Declaration) : Except EmitError String :=
  match referenceName n d with
  | .error e => .error e
  | .ok x =>
    if Script.fixedNames.contains x then .error (.reservedName x d.span.line d.span.column)
    else .ok x

def timesItems (body : List Node) : List Declaration :=
  body.filterMap fun
    | .declaration d => if d.property = "times" then some d else none
    | .loop _ _ => none

/-- The count of a loop with body `body`: the digits of its `times` item, or `1`. A
value of the first `times` item that is no integer literal fails first; a second
`times` item fails next. -/
def loopCount (body : List Node) : Except EmitError String :=
  match timesItems body with
  | [] => .ok "1"
  | first :: more =>
    match first.value with
    | .literal (.string s) =>
      .error (.invalidTimes (Script.quote s) first.span.line first.span.column)
    | .ref n => .error (.invalidTimes n first.span.line first.span.column)
    | .literal (.integer digits) =>
      match more with
      | [] => .ok digits
      | second :: _ =>
        .error (.duplicateTimes second.span.line second.span.column first.span.line)

def lift {α : Type} (r : Except EmitError α) : EmitM α := ExceptT.mk (pure r)

def warn (w : Warning) : EmitM Unit := modify (·.note (.warning w))

def value (d : Declaration) : EmitM Script.Expr :=
  match d.value with
  | .literal (.integer digits) => pure (.number digits)
  | .literal (.string s) => pure (.text s)
  | .ref n => do
    let x ← lift (referenceName n d)
    let s ← get
    if !s.visible n && !Script.fixedNames.contains n then
      warn (.undeclared n d.span.line d.span.column)
    pure (.name x)

def declaration (depth : Nat) (d : Declaration) : EmitM (List Script.Stmt) :=
  if d.property = "times" then do
    -- inside a loop the count was settled when the loop began
    if depth = 0 then warn (.timesOutsideLoop d.span.line d.span.column)
    pure []
  else if d.property = "say" then do
    let v ← value d
    pure [.print v]
  else do
    let x ← lift (bindingName d.property d)
    let v ← value d
    let s ← get
    if s.visible d.property then pure [.assign x v]
    else do
      set (s.declare d.property)
      pure [.bind x v]

mutual

/-- The statements of an item at nesting depth `depth`. -/
def node (depth : Nat) : Node → EmitM (List Script.Stmt)
  | .declaration d => declaration depth d
  | .loop _ body => do
    let count ← lift (loopCount body)
    modify fun s => { s with scopes := [] :: s.scopes }
    let inner ← nodes (depth + 1) body
    modify fun s => { s with scopes := s.scopes.tail }
    pure [.loop count inner]

def nodes (depth : Nat) : List Node → EmitM (List Script.Stmt)
  | [] => pure []
  | n :: ns => do
    let a ← node depth n
    let b ← nodes depth ns
    pure (a ++ b)

end

def rules : List Rule → EmitM (List Script.Stmt)
  | [] => pure []
  | r :: rs => do
    modify (·.note (.rule r.selector r.body.length))
    let a ← nodes 0 r.body
    let b ← rules rs
    pure (a ++ b)

end Emit

/-- A program written as a script: its text, the names it binds in the order first
bound, and the warnings in order. -/
structure Compiled where
  js : String
  declared : List String
  warnings : List Warning
deriving Repr, Inhabited

namespace Program

/-- Writes a program as a script with settings `o`: the outcome, and the events up to
the end or the fault. An indent that is too wide fails before anything is written. -/
def emit (p : Program) (o : Options) : Except EmitError Compiled × List Event :=
  if Options.maxIndent < o.indent then (.error (.invalidIndent o.indent), [])
  else
    match (Emit.rules p.rules).run.run {} with
    | (.error e, s) => (.error e, s.events)
    | (.ok body, s) => (.ok ⟨Script.render o.indent body, s.declared, s.warnings⟩, s.events)

/-- Writes a program as a script with settings `o`. -/
def compile (p : Program) (o : Options) : Except EmitError Compiled := (p.emit o).1

def generate (p : Program) : Except EmitError String := (p.compile {}).map (·.js)

end Program

end RuleScript
