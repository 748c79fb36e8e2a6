import RuleScript.Command.Args
import RuleScript.Command.Log
import RuleScript.Command.Workspace
import RuleScript.Syntax.Parse
import RuleScript.Script.Emit
import RuleScript.Report.Tree
import RuleScript.Text.Utf8
/-!
# Running the command line

A run reads its arguments, then the source file, and goes through the stages its
command needs: scanning, reading, writing the script. Each stage logs what it did, and
the first fault ends the run with `Error: ` and the fault's text on standard error and
exit status 1. Warnings of writing are logged as they arise and then listed again,
each after the source path.

The source path must end in the extension `css` or `csss`, and the file must exist
and hold UTF-8 text. `build` writes the script to the output path, to standard output
for `-`, or next to the source with the extension `js`.

The log goes to standard error through a filter taken from the `RUST_LOG` setting, or
else `warn`, or `debug` when the command line asks for a verbose run.
-/

namespace RuleScript

/-- What a run shows: its exit status and its two output streams. -/
structure Outcome where
  status : Nat
  stdout : String
  stderr : String
deriving Repr, DecidableEq, Inhabited

structure Console where
  filter : LogFilter
  stdout : String := ""
  stderr : String := ""
deriving Inhabited

/-- A run in progress: it may stop with the text of a fault, and keeps its output when
it does. -/
abbrev Session (m : Type → Type) := ExceptT String (StateT Console m)

namespace Session

variable {m : Type → Type} [Monad m]

def log (level : Level) (target message : String) : Session m Unit :=
  modify fun c =>
    let r : Record := ⟨level, target, message⟩
    if c.filter.admits r then { c with stderr := c.stderr ++ r.line } else c

def say (line : String) : Session m Unit :=
  modify fun c => { c with stderr := c.stderr ++ line ++ "\n" }

def print (text : String) : Session m Unit :=
  modify fun c => { c with stdout := c.stdout ++ text }

def extensions : List String := ["css", "csss"]

def readSource (fs : FileAccess m) (path : String) : Session m String := do
  unless ((Path.mk path).extension?.map (extensions.contains ·)).getD false do
    throw (path ++ ": file must have a .css or .csss extension")
  unless (← fs.present path) do
    throw ("file not found: " ++ path)
  match ← fs.read path with
  | .error e => throw ("reading " ++ path ++ ": " ++ e.message)
  | .ok bytes =>
    match Text.Utf8.strict? bytes with
    | none => throw ("reading " ++ path ++ ": " ++ IoFault.invalidText.message)
    | some source =>
      let size := bytes.length
      log .debug "csss" s!"read {path} ({size} bytes)"
      pure source

/-- A token's text in a log line: in double quotes, with quotes, backslashes and line
breaks escaped. -/
def quoted (s : String) : String :=
  "\"" ++ String.join (s.toList.map fun c =>
    if c = '"' then "\\\"" else if c = '\\' then "\\\\" else if c = '\n' then "\\n"
    else if c = '\r' then "\\r" else if c = '\t' then "\\t" else c.toString) ++ "\""

def scan (source : String) : Session m (List Token) := do
  let r := Scanned.ofString source
  for t in r.tokens do
    -- string tokens are taken without a log record
    if t.kind != .string then
      let kind := t.kind.name
      let text := quoted t.text
      let line := t.span.line
      let column := t.span.column
      log .trace "csss_lexer::scanner" s!"token {kind} {text} at {line}:{column}"
  match r.fault with
  | some e => throw e.message
  | none =>
    let size := source.utf8ByteSize
    let count := r.tokens.length
    log .debug "csss_lexer::scanner" s!"lexed {size} bytes into {count} tokens"
    pure r.tokens

def read (source : String) : Session m Program := do
  let ts ← scan source
  let r := Reading.ofTokens ts
  for s in r.selectors do
    log .trace "csss_parser::parser" ("rule \x60" ++ s ++ "\x60")
  match r.fault with
  | some e => throw e.message
  | none =>
    let rules := r.rules.length
    let tokens := ts.length
    log .debug "csss_parser::parser" s!"parsed {rules} rules from {tokens} tokens"
    pure ⟨r.rules⟩

def compileFile (fs : FileAccess m) (path : String) (settings : WriteArgs) :
    Session m Compiled := do
  let p ← read (← readSource fs path)
  let (result, events) := p.emit ⟨settings.indent⟩
  for e in events do
    match e with
    | .rule selector items =>
      log .trace "csss_codegen::js" ("rule \x60" ++ selector ++ "\x60: " ++ toString items ++ " nodes")
    | .warning w => log .warn "csss_codegen::js" w.message
  match result with
  | .error e => throw e.message
  | .ok c =>
    let size := c.js.utf8ByteSize
    let names := c.declared.length
    let count := c.warnings.length
    log .debug "csss_codegen"
      s!"generated {size} bytes of JavaScript, {names} names declared, {count} warnings"
    for w in c.warnings do
      say (path ++ ": " ++ w.message)
    if settings.denyWarnings && !c.warnings.isEmpty then
      throw s!"{count} warning(s) treated as errors"
    pure c

/-- Carries out a command. -/
def perform (fs : FileAccess m) : Command → Session m Unit
  | .build path output settings => do
    let c ← compileFile fs path settings
    match output with
    | some out =>
      if (Path.mk out).isDash then print c.js
      else writeTarget out c.js
    | none => writeTarget ((Path.mk path).withExtension "js").text c.js
  | .check path settings => do
    let c ← compileFile fs path settings
    let names := c.declared.length
    say s!"OK: {path} ({names} variables)"
  | .tokens path => do
    let ts ← scan (← readSource fs path)
    print ((Doc.arr (ts.map Token.toDoc)).render ++ "\n")
  | .ast path => do
    let p ← read (← readSource fs path)
    print (p.toDoc.render ++ "\n")
where
  writeTarget (target js : String) : Session m Unit := do
    match ← fs.write target js with
    | .error e => throw ("writing " ++ target ++ ": " ++ e.message)
    | .ok () => say ("Built: " ++ target)

end Session

/-- Runs the command line `args`, the program's name left out, with the log setting
`logSpec` if there is one. -/
def Outcome.ofRun {m : Type → Type} [Monad m] (fs : FileAccess m) (logSpec : Option String)
    (args : List String) : m Outcome := do
  match ArgsOutcome.ofArgs args with
  | .version => pure ⟨0, Args.version ++ "\n", ""⟩
  | .help text => pure ⟨0, text, ""⟩
  | .refuse message => pure ⟨2, "", message⟩
  | .run inv =>
    let spec := logSpec.getD (if inv.verbose then "debug" else "warn")
    let (filter, warnings) := LogFilter.parse spec
    let console : Console :=
      { filter, stderr := String.join (warnings.map fun w => "warning: " ++ w ++ ", ignoring it\n") }
    let (r, c) ← ((Session.perform fs inv.command).run).run console
    match r with
    | .ok () => pure ⟨0, c.stdout, c.stderr⟩
    | .error message => pure ⟨1, c.stdout, c.stderr ++ "Error: " ++ message ++ "\n"⟩

end RuleScript
