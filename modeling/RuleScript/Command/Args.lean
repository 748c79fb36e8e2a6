/-!
# Command-line arguments

The command line is `csss [-v] <command>`, where the command is one of

    build <PATH> [-o|--output <OUTPUT>] [--indent <INDENT>] [--deny-warnings]
    check <PATH> [--indent <INDENT>] [--deny-warnings]
    tokens <PATH>
    ast <PATH>
    help [COMMAND]

`-v` (`--verbose`) is known to every command; `-h` (`--help`) asks for the help of the
command it follows, and `-V` (`--version`) before the command for the version.

The arguments are read from the left, one at a time:

* A word that names a command, before the command is chosen, chooses it; `--` ends
  the options, and every later argument is taken as a value.
* `--name` is a long option and `--name=value` gives it a value at once. An option that
  takes a value and has none yet takes the next argument, whatever it looks like unless
  it is itself an option.
* `-abc` is a cluster of short options; an option that takes a value takes the rest of
  the cluster, after an optional `=`, or else the next argument.
* Anything else is the path.

A value is checked when the option it belongs to is complete: at the next option or
path, or at the end. The indent is a signed 64-bit decimal number that must lie in 0 to
16; a path may not be empty. Giving an option twice, an unknown option, a word where no
value fits and a missing path or command are refused, with a usage line that names the
options used so far and with a suggestion of a similar name where one is close enough.
A refusal goes to standard error with exit status 2.
-/

namespace RuleScript

structure WriteArgs where
  indent : Nat := 2
  denyWarnings : Bool := false
deriving Repr, DecidableEq, Inhabited

/-- What the command line asks for. -/
inductive Command where
  | build (path : String) (output : Option String) (settings : WriteArgs)
  | check (path : String) (settings : WriteArgs)
  | tokens (path : String)
  | ast (path : String)
deriving Repr, DecidableEq, Inhabited

structure Invocation where
  verbose : Bool
  command : Command
deriving Repr, DecidableEq, Inhabited

inductive ArgsOutcome where
  | run (inv : Invocation)
  | version
  | help (text : String)
  | refuse (message : String)
deriving Repr, DecidableEq, Inhabited

namespace Args

def version : String := "csss 0.3.0"

def moreHelp : String := "\nFor more information, try '--help'.\n"

def signedValue (s : String) : Except String Int :=
  let (neg, digits) := match s.toList with
    | '-' :: ds => (true, ds)
    | '+' :: ds => (false, ds)
    | ds => (false, ds)
  if s.isEmpty then .error "cannot parse integer from empty string"
  else if digits.isEmpty || !digits.all Char.isDigit then .error "invalid digit found in string"
  else
    let n : Nat := digits.foldl (fun acc c => acc * 10 + (c.toNat - 48)) 0
    if neg then
      if n > 9223372036854775808 then .error "number too small to fit in target type" else .ok (-(n : Int))
    else if n ≥ 9223372036854775808 then .error "number too large to fit in target type" else .ok n

def indentValue (s : String) : Except String Nat :=
  let refuse := fun (shown why : String) =>
    "error: invalid value '" ++ shown ++ "' for '--indent <INDENT>': " ++ why ++ "\n" ++ moreHelp
  match signedValue s with
  | .error why => .error (refuse s why)
  | .ok v =>
    if 0 ≤ v && v ≤ 16 then .ok v.toNat
    else .error (refuse (toString v) (toString v ++ " is not in 0..=16"))

def commandNames : List String := ["build", "check", "tokens", "ast"]

def subcommandNames : List String := commandNames ++ ["help"]

def about : String → String
  | "build" => "Compile a .csss file to JavaScript"
  | "check" => "Check a .csss file for errors without writing output"
  | "tokens" => "Print the token stream as JSON"
  | "help" => "Print this message or the help of the given subcommand(s)"
  | _ => "Print the syntax tree as JSON"

/-- The usage line of a command, or of the program for `none`, naming the arguments
used so far; with none used it has `[OPTIONS]` in their place. The path, which a
command requires, always stands last. -/
def usage (cmd : Option String) (used : List String) : String :=
  match cmd with
  | none =>
    if used.isEmpty then "Usage: csss [OPTIONS] <COMMAND>"
    else "Usage: " ++ " ".intercalate (["csss"] ++ used ++ ["<COMMAND>"])
  | some "help" => "Usage: csss help [COMMAND]..."
  | some c =>
    if used.isEmpty then "Usage: csss " ++ c ++ " [OPTIONS] <PATH>"
    else "Usage: " ++ " ".intercalate (["csss", c] ++ used.filter (· != "<PATH>") ++ ["<PATH>"])

def verboseLine (w : Nat) : String :=
  "  " ++ "-v, --verbose".pushn ' ' (w - 13) ++ "  Log pipeline stages (same as RUST_LOG=debug)\n"

def helpLine (w : Nat) : String := "  " ++ "-h, --help".pushn ' ' (w - 10) ++ "  Print help\n"

def helpText : Option String → String
  | none =>
    "CSSS compiler: turns rule blocks into JavaScript\n\n" ++ usage none [] ++ "\n\n" ++
    "Commands:\n" ++
    "  build   " ++ about "build" ++ "\n" ++
    "  check   " ++ about "check" ++ "\n" ++
    "  tokens  " ++ about "tokens" ++ "\n" ++
    "  ast     " ++ about "ast" ++ "\n" ++
    "  help    " ++ about "help" ++ "\n\n" ++
    "Options:\n" ++ verboseLine 13 ++ helpLine 13 ++ "  -V, --version  Print version\n"
  | some "help" =>
    about "help" ++ "\n\n" ++ usage (some "help") [] ++ "\n\n" ++
      "Arguments:\n  [COMMAND]...  Print help for the subcommand(s)\n"
  | some cmd =>
    let head := about cmd ++ "\n\n" ++ usage (some cmd) [] ++ "\n\n" ++
      "Arguments:\n  <PATH>  Input .css or .csss file\n\nOptions:\n"
    let settings :=
      "      --indent <INDENT>  Spaces per nesting level in generated code (0-16) [default: 2]\n" ++
      "      --deny-warnings    Treat warnings as errors\n"
    if cmd = "build" then
      head ++ "  -o, --output <OUTPUT>  Output file, or \x60-\x60 for stdout " ++
        "(default: <stem>.js next to the input)\n" ++ settings ++ verboseLine 21 ++ helpLine 21
    else if cmd = "check" then head ++ settings ++ verboseLine 21 ++ helpLine 21
    else head ++ verboseLine 13 ++ helpLine 13

inductive Slot where
  | flag
  | value (placeholder : String)
  | path
  | help
  | version
deriving Repr, DecidableEq, Inhabited

structure Spec where
  id : String
  short : Option Char
  long : Option String
  slot : Slot
deriving Repr, DecidableEq, Inhabited

namespace Spec

def verbose : Spec := ⟨"verbose", some 'v', some "verbose", .flag⟩

def help : Spec := ⟨"help", some 'h', some "help", .help⟩

def version : Spec := ⟨"version", some 'V', some "version", .version⟩

def path : Spec := ⟨"path", none, none, .path⟩

def output : Spec := ⟨"output", some 'o', some "output", .value "OUTPUT"⟩

def indent : Spec := ⟨"indent", none, some "indent", .value "INDENT"⟩

def denyWarnings : Spec := ⟨"deny_warnings", none, some "deny-warnings", .flag⟩

def shown (s : Spec) : String :=
  let name := match s.long, s.short with
    | some l, _ => "--" ++ l
    | none, some c => "-" ++ c.toString
    | none, none => ""
  match s.slot with
  | .value ph => name ++ " <" ++ ph ++ ">"
  | .path => "<PATH>"
  | _ => name

end Spec

def specs : Option String → List Spec
  | none => [Spec.verbose, Spec.help, Spec.version]
  | some "build" => [Spec.path, Spec.output, Spec.indent, Spec.denyWarnings, Spec.verbose, Spec.help]
  | some "check" => [Spec.path, Spec.indent, Spec.denyWarnings, Spec.verbose, Spec.help]
  | some "help" => []
  | some _ => [Spec.path, Spec.verbose, Spec.help]

def specOf (cmd : Option String) (id : String) : Spec :=
  ((specs cmd).find? (·.id == id)).getD Spec.path

def longs (cmd : Option String) : List String := (specs cmd).filterMap (·.long)

/-- How close two words are, as the Jaro similarity: the matching characters `m`, found
within half the longer length of each other, and the transpositions `t` among them. The
similarity is `(m / |a| + m / |b| + (m - t) / m) / 3`, kept as a fraction. -/
def jaro (a b : List Char) : Nat × Nat :=
  let la := a.length
  let lb := b.length
  if la = 0 && lb = 0 then (1, 1)
  else if la = 0 || lb = 0 then (0, 1)
  else
    let range := max la lb / 2 - 1
    let bs := b.toArray
    let (aFlags, bFlags) := (a.zipIdx).foldl (fun (acc : List Bool × Array Bool) (c, i) =>
      let lo := i - range
      let hi := min lb (i + range + 1)
      match (List.range' lo (hi - lo)).find? (fun j => bs[j]? == some c && !acc.2.getD j true) with
      | some j => (acc.1 ++ [true], acc.2.set! j true)
      | none => (acc.1 ++ [false], acc.2)) ([], Array.replicate lb false)
    let aMatched := (a.zip aFlags).filterMap fun (c, f) => if f then some c else none
    let bMatched := (b.zip bFlags.toList).filterMap fun (c, f) => if f then some c else none
    let m := aMatched.length
    if m = 0 then (0, 1)
    else
      let t := ((aMatched.zip bMatched).filter fun (x, y) => x != y).length / 2
      (m * m * lb + m * m * la + (m - t) * la * lb, 3 * la * lb * m)

def closeEnough (q : Nat × Nat) : Bool := 10 * q.1 > 7 * q.2

def insertBySimilarity (c : (Nat × Nat) × String) : List ((Nat × Nat) × String) → List ((Nat × Nat) × String)
  | [] => [c]
  | d :: ds => if c.1.1 * d.1.2 < d.1.1 * c.1.2 then c :: d :: ds else d :: insertBySimilarity c ds

def similar (word : String) (names : List String) : List String :=
  let scored := names.filterMap fun n =>
    let q := jaro word.toList n.toList
    if closeEnough q then some (q, n) else none
  (scored.foldl (fun acc c => insertBySimilarity c acc) []).map (·.2)

/-- A refusal: its message, a suggestion of similar names, further tips, and the usage
line if it shows one. -/
def refusal (message : String) (similarTip : Option String) (tips : List String)
    (usageLine : Option String) : ArgsOutcome :=
  let similarPart := (similarTip.map fun t => "\n\n  tip: " ++ t).getD ""
  let tipPart :=
    if tips.isEmpty then ""
    else (if similarTip.isSome then "" else "\n") ++ String.join (tips.map ("\n  tip: " ++ ·))
  let usagePart := (usageLine.map ("\n\n" ++ ·)).getD ""
  .refuse ("error: " ++ message ++ similarPart ++ tipPart ++ usagePart ++ "\n" ++ moreHelp)

def asValueTip (arg : String) : String := "to pass '" ++ arg ++ "' as a value, use '-- " ++ arg ++ "'"

def unexpected (arg : String) (similarTip : Option String) (tips : List String)
    (usageLine : String) : ArgsOutcome :=
  refusal ("unexpected argument '" ++ arg ++ "' found") similarTip tips (some usageLine)

def repeated (cmd : Option String) (spec : Spec) : ArgsOutcome :=
  refusal ("the argument '" ++ spec.shown ++ "' cannot be used multiple times") none [] (some (usage cmd []))

def emptyValue (spec : Spec) : ArgsOutcome :=
  refusal ("a value is required for '" ++ spec.shown ++ "' but none was supplied") none [] none

def unrecognized (cmd : Option String) (word : String) : ArgsOutcome :=
  refusal ("unrecognized subcommand '" ++ word ++ "'") none [] (some (usage cmd []))

/-- What has been read of a command's arguments: the arguments given, in the order they
were first given, with their values; the option whose values are still being
collected; whether an option waits for its value in the next argument; whether `--`
has been read; and whether the path has been given. -/
structure Scan where
  given : List (String × List String)
  pending : Option (String × List String)
  expecting : Bool
  trailing : Bool
  pathTaken : Bool
deriving Repr, Inhabited

namespace Scan

def start : Scan := ⟨[], none, false, false, false⟩

def has (s : Scan) (id : String) : Bool := s.given.any (·.1 == id)

def valuesOf (s : Scan) (id : String) : Option (List String) := (s.given.find? (·.1 == id)).map (·.2)

def shownGiven (cmd : Option String) (s : Scan) : List String := s.given.map fun g => (specOf cmd g.1).shown

def drop (s : Scan) (id : String) : Scan := { s with given := s.given.filter (·.1 != id) }

def add (s : Scan) (id : String) (vals : List String) : Scan := { s with given := s.given ++ [(id, vals)] }

/-- The first refusal a value of an argument meets: a path or output may not be empty,
and an indent must read. -/
def valueFault (spec : Spec) (v : String) : Option ArgsOutcome :=
  match spec.slot with
  | .path => if v.isEmpty then some (emptyValue spec) else none
  | .value _ =>
    if spec.id == "indent" then
      match indentValue v with
      | .error m => some (.refuse m)
      | .ok _ => none
    else if v.isEmpty then some (emptyValue spec)
    else none
  | _ => none

/-- Takes an argument with its values, and the refusal it meets if any. A value option
without values is refused before anything else; one given before is dropped and
refused; otherwise it is recorded, even when a value of it is then refused. -/
def apply (cmd : Option String) (s : Scan) (spec : Spec) (vals : List String) :
    Scan × Option ArgsOutcome :=
  match spec.slot with
  | .help => (s, some (.help (helpText cmd)))
  | .version => (s, some .version)
  | .flag =>
    if s.has spec.id then (s.drop spec.id, some (repeated cmd spec))
    else (s.add spec.id ["true"], none)
  | _ =>
    if vals.isEmpty then (s, some (emptyValue spec))
    else if s.has spec.id then (s.drop spec.id, some (repeated cmd spec))
    else (s.add spec.id vals, (vals.filterMap (valueFault spec)).head?)

def settle (cmd : Option String) (s : Scan) : Scan × Option ArgsOutcome :=
  match s.pending with
  | none => (s, none)
  | some (id, vals) => apply cmd { s with pending := none } (specOf cmd id) vals

def take (cmd : Option String) (s : Scan) (spec : Spec) (vals : List String) : Except ArgsOutcome Scan :=
  match settle cmd s with
  | (_, some o) => .error o
  | (s, none) =>
    match apply cmd s spec vals with
    | (_, some o) => .error o
    | (s, none) => .ok s

def expect (cmd : Option String) (s : Scan) (spec : Spec) : Except ArgsOutcome Scan :=
  match settle cmd s with
  | (_, some o) => .error o
  | (s, none) => .ok { s with pending := some (spec.id, []), expecting := true }

end Scan

def closestLong (word : String) (names : List String) : Option String := (similar word names).getLast?

/-- The refusal of an unknown long option `--name` of a command, with the arguments
after it. A similar long option of the command is suggested; the program, lacking one,
suggests one of the command named first among the arguments after it. -/
def unknownLong (cmd : Option String) (s : Scan) (name : String) (rest : List String) : ArgsOutcome :=
  let (s, _) := Scan.settle cmd s
  let arg := "--" ++ name
  match closestLong name (longs cmd) with
  | some cand =>
    let spec := ((specs cmd).find? (·.long == some cand)).getD Spec.help
    let used := Scan.shownGiven cmd s ++ (if s.has spec.id then [] else [spec.shown])
    unexpected arg (some ("a similar argument exists: '--" ++ cand ++ "'")) [] (usage cmd used)
  | none =>
    let used := Scan.shownGiven cmd s
    match cmd with
    | none =>
      let found := commandNames.filterMap fun c =>
        match closestLong name (longs (some c)), rest.idxOf? c with
        | some cand, some place => some (place, c, cand)
        | _, _ => none
      let best := found.foldl (fun (acc : Option (Nat × String × String)) f =>
        match acc with
        | some a => if f.1 < a.1 then some f else acc
        | none => some f) none
      match best with
      | some (_, c, cand) => unexpected arg none ["'" ++ c ++ " --" ++ cand ++ "' exists"] (usage cmd used)
      | none => unexpected arg none [] (usage cmd used)
    | some _ =>
      unexpected arg none (if s.trailing then [] else [asValueTip arg]) (usage cmd used)

def shorts (cmd : Option String) (s : Scan) : List Char → Except ArgsOutcome Scan
  | [] => .ok { s with expecting := false }
  | c :: more =>
    match (specs cmd).find? (·.short == some c) with
    | none =>
      let arg := "-" ++ c.toString
      let tips := if cmd.isSome && !s.trailing then [asValueTip arg] else []
      .error (unexpected arg none tips (usage cmd []))
    | some spec =>
      match spec.slot with
      | .value _ =>
        match more with
        | [] => Scan.expect cmd s spec
        | '=' :: v => do
          let s ← Scan.take cmd s spec [String.ofList v]
          pure { s with expecting := false }
        | v => do
          let s ← Scan.take cmd s spec [String.ofList v]
          pure { s with expecting := false }
      | _ => do
        let s ← Scan.take cmd s spec []
        shorts cmd s more

/-- Reads a long option `--name` or `--name=value`, the dashes left out, with the
arguments after it. -/
def long (cmd : Option String) (s : Scan) (body : String) (rest : List String) :
    Except ArgsOutcome Scan :=
  let (name, value) := match body.splitOn "=" with
    | [n] => (n, none)
    | n :: vs => (n, some ("=".intercalate vs))
    | [] => (body, none)
  match (specs cmd).find? (·.long == some name) with
  | none => .error (unknownLong cmd s name rest)
  | some spec =>
    match spec.slot, value with
    | .value _, some v => do
      let s ← Scan.take cmd s spec [v]
      pure { s with expecting := false }
    | .value _, none => Scan.expect cmd s spec
    | _, some v =>
      let used := Scan.shownGiven cmd s ++ [spec.shown]
      .error (refusal ("unexpected value '" ++ v ++ "' for '" ++ spec.shown ++
        "' found; no more were expected") none [] (some (usage cmd used)))
    | _, none => do
      let s ← Scan.take cmd s spec []
      pure { s with expecting := false }

def isOptionLike (a : String) : Bool := a.startsWith "-" && a != "-"

/-- Takes an argument that is read as a value: the value an option waits for, or the
path, or else a refusal of an argument that fits nowhere. -/
def positional (cmd : String) (s : Scan) (a : String) : Except ArgsOutcome Scan :=
  if s.expecting && !s.trailing then
    .ok { s with
      pending := s.pending.map (fun p => (p.1, p.2 ++ [a])), expecting := false }
  else if !s.pathTaken then
    match Scan.settle (some cmd) s with
    | (_, some o) => .error o
    | (s, none) => .ok { s with pending := some ("path", [a]), pathTaken := true, expecting := false }
  else
    let tips := if !s.trailing && isOptionLike a then [asValueTip a] else []
    .error (unexpected a none tips (usage (some cmd) []))

def commandArgs (cmd : String) : Scan → List String → Except ArgsOutcome Scan
  | s, [] => .ok s
  | s, a :: rest => do
    let s ←
      if s.trailing then positional cmd s a
      else if a = "--" then pure { s with trailing := true }
      else if a.startsWith "--" then long (some cmd) s (String.ofList (a.toList.drop 2)) rest
      else if isOptionLike a then shorts (some cmd) s (a.toList.drop 1)
      else positional cmd s a
    commandArgs cmd s rest

/-- The command a complete reading of its arguments stands for: the pending option is
completed, and the path must have been given. -/
def finish (cmd : String) (rootVerbose : Bool) (s : Scan) : ArgsOutcome :=
  match Scan.settle (some cmd) s with
  | (_, some o) => o
  | (s, none) =>
    match s.valuesOf "path" with
    | none =>
      let used := Scan.shownGiven (some cmd) s
      refusal "the following required arguments were not provided:\n  <PATH>" none []
        (some (usage (some cmd) used))
    | some vals =>
      let path := vals.headD ""
      let indent := ((s.valuesOf "indent").bind List.head?).bind fun v => (indentValue v).toOption
      let settings : WriteArgs := ⟨indent.getD 2, s.has "deny_warnings"⟩
      let command := match cmd with
        | "build" => Command.build path ((s.valuesOf "output").bind List.head?) settings
        | "check" => Command.check path settings
        | "tokens" => Command.tokens path
        | _ => Command.ast path
      .run ⟨rootVerbose || s.has "verbose", command⟩

/-- The help that `help` asks for: each word after it must name a command of the one
before, starting from the program. -/
def helpCommand : Option String → List String → ArgsOutcome
  | cmd, [] => .help (helpText cmd)
  | none, w :: rest =>
    if subcommandNames.contains w then helpCommand (some w) rest else unrecognized none w
  | some c, w :: _ => unrecognized (some c) w

/-- Refuses a word where the program expects a command: after `--` a command's name
is told to lose the `--`; a word close to commands' names suggests them. -/
def strayWord (s : Scan) (a : String) : ArgsOutcome :=
  if s.trailing && subcommandNames.contains a then
    unexpected a none ["subcommand '" ++ a ++ "' exists; to use it, remove the '--' before it"] (usage none [])
  else
    match similar a subcommandNames with
    | [] => unrecognized none a
    | [c] =>
      refusal ("unrecognized subcommand '" ++ a ++ "'") (some ("a similar subcommand exists: '" ++ c ++ "'"))
        [] (some (usage none []))
    | cs =>
      refusal ("unrecognized subcommand '" ++ a ++ "'")
        (some ("some similar subcommands exist: " ++ ", ".intercalate (cs.map fun c => "'" ++ c ++ "'")))
        [] (some (usage none []))

/-- Reads the arguments before the command. Without a command, a command line that gave
nothing shows the help, and one that gave options is refused. -/
def top (s : Scan) : List String → ArgsOutcome
  | [] =>
    if s.given.isEmpty then .refuse (helpText none)
    else refusal ("'csss' requires a subcommand but one was not provided\n" ++
      "  [subcommands: " ++ ", ".intercalate subcommandNames ++ "]") none [] (some (usage none []))
  | a :: rest =>
    if !s.trailing && a = "help" then helpCommand none rest
    else if !s.trailing && commandNames.contains a then
      match commandArgs a Scan.start rest with
      | .error o => o
      | .ok cs => finish a (s.has "verbose") cs
    else if !s.trailing && a = "--" then top { s with trailing := true } rest
    else if !s.trailing && a.startsWith "--" then
      match long none s (String.ofList (a.toList.drop 2)) rest with
      | .error o => o
      | .ok s => top s rest
    else if !s.trailing && isOptionLike a then
      match shorts none s (a.toList.drop 1) with
      | .error o => o
      | .ok s => top s rest
    else strayWord s a

end Args

namespace ArgsOutcome

/-- Reads a command line, the program's name left out. -/
def ofArgs (args : List String) : ArgsOutcome := Args.top Args.Scan.start args

end ArgsOutcome

end RuleScript
