import RuleScript.Text.Blank
import RuleScript.Regex.Pattern
/-!
# Log records and log filters

A log record has a level, a target naming the part of the program that wrote it, and
a message. A filter decides which records are written, from a specification such as
`warn`, `csss_lexer=trace,error` or `debug/rule`:

* Before the first `/` stand directives separated by commas, each trimmed of blanks. A
  directive is a level alone, which holds for every target; a target name alone, or
  followed by `=`, which lets every level through for it; or `target=level`. Levels are
  `off`, `error`, `warn`, `info`, `debug` and `trace`, in any case. A directive that
  does not read is skipped with a warning. A later directive for the same target takes
  the place of the earlier one.
* After the `/` stands a regular expression that must match somewhere in the message;
  one that does not read is skipped with a warning. A second `/` makes the whole
  specification unreadable, with a warning.

A record passes if the pattern matches its message and the directive whose target name
is the longest prefix of the record's target, a directive for all targets counting as
the empty prefix, admits its level. Without any directive only errors pass.
-/

namespace RuleScript

/-- The levels of log records, from the most to the least severe. -/
inductive Level where
  | error
  | warn
  | info
  | debug
  | trace
deriving Repr, DecidableEq, Inhabited

namespace Level

/-- The rank of a level: 1 for errors up to 5 for traces. A filter with limit `n`
lets the levels of rank at most `n` through, so limit 0 lets nothing through. -/
def rank : Level → Nat
  | .error => 1
  | .warn => 2
  | .info => 3
  | .debug => 4
  | .trace => 5

def label : Level → String
  | .error => "ERROR"
  | .warn => "WARN "
  | .info => "INFO "
  | .debug => "DEBUG"
  | .trace => "TRACE"

end Level

structure Record where
  level : Level
  target : String
  message : String
deriving Repr, Inhabited

namespace Record

/-- The message as a log line shows it: each line after the first indented by four
blanks, so that the continuation lines stand apart from the next record. -/
def indented (r : Record) : String := "\n    ".intercalate (r.message.splitOn "\n")

def line (r : Record) : String := "[" ++ r.level.label ++ " " ++ r.target ++ "] " ++ r.indented ++ "\n"

end Record

/-- One directive of a filter: the targets it covers, all of them for `none`, and the
rank of the least severe level it lets through. -/
structure Directive where
  name : Option String
  limit : Nat
deriving Repr, DecidableEq, Inhabited

/-- A log filter: directives ordered by the length of their target names, shortest
first, and a pattern that messages must match. -/
structure LogFilter where
  directives : List Directive
  pattern : Option Regex.Pattern
deriving Repr, Inhabited

namespace LogFilter

def limitOf? (s : String) : Option Nat :=
  match s.toLower with
  | "off" => some 0
  | "error" => some 1
  | "warn" => some 2
  | "info" => some 3
  | "debug" => some 4
  | "trace" => some 5
  | _ => none

def trimBlank (s : String) : String :=
  String.ofList ((s.toList.dropWhile Text.isBlank).reverse.dropWhile Text.isBlank).reverse

def directiveOf (s : String) : Except String Directive :=
  match s.splitOn "=" with
  | [name] =>
    match limitOf? name with
    | some n => .ok ⟨none, n⟩
    | none => .ok ⟨some name, 5⟩
  | [name, lvl] =>
    let lvl := trimBlank lvl
    if lvl.isEmpty then .ok ⟨some name, 5⟩
    else
      match limitOf? lvl with
      | some n => .ok ⟨some name, n⟩
      | none => .error ("invalid logging spec " ++ "'" ++ lvl ++ "'")
  | _ => .error ("invalid logging spec " ++ "'" ++ s ++ "'")

def insert (ds : List Directive) (d : Directive) : List Directive :=
  if ds.any (·.name == d.name) then ds.map fun e => if e.name == d.name then d else e
  else ds ++ [d]

def nameLength (d : Directive) : Nat := (d.name.map String.length).getD 0

def parse (spec : String) : LogFilter × List String :=
  match spec.splitOn "/" with
  | [] => (⟨[⟨none, 1⟩], none⟩, [])
  | _ :: _ :: _ :: _ =>
    (⟨[⟨none, 1⟩], none⟩, ["invalid logging spec " ++ "'" ++ spec ++ "' (too many " ++ "'/'s)"])
  | mods :: rest =>
    let step := fun (acc : List Directive × List String) (part : String) =>
      let part := trimBlank part
      if part.isEmpty then acc
      else
        match directiveOf part with
        | .ok d => (insert acc.1 d, acc.2)
        | .error w => (acc.1, acc.2 ++ [w])
    let (ds, warnings) := (mods.splitOn ",").foldl step ([], [])
    let ds := if ds.isEmpty then [⟨none, 1⟩] else ds.mergeSort fun a b => nameLength a ≤ nameLength b
    match rest.head?.map Regex.Pattern.compile with
    | none => (⟨ds, none⟩, warnings)
    | some (.ok p) => (⟨ds, some p⟩, warnings)
    | some (.error e) => (⟨ds, none⟩, warnings ++ ["invalid regex filter - " ++ e])

/-- Whether the directives let a level through for a target: the last directive, in
order of name length, whose name is a prefix of the target decides. -/
def enabled (f : LogFilter) (level : Level) (target : String) : Bool :=
  match f.directives.reverse.find? fun d => (d.name.map (target.startsWith ·)).getD true with
  | some d => level.rank ≤ d.limit
  | none => false

def admits (f : LogFilter) (r : Record) : Bool :=
  f.enabled r.level r.target && (f.pattern.map (·.isMatch r.message)).getD true

end LogFilter

end RuleScript
