import RuleScript.Command.Path
/-!
# Files and workspaces

The command line reaches files through a `FileAccess`: whether something exists at a
path, the bytes of a file, and writing a file. A fault of the file system is an
`IoFault`, reported in the operating system's words.

A `Workspace` is a directory tree held in memory, rooted at the directory the command
runs in. A path is followed part by part from that root: every part but the last must
name a directory, `.` and empty parts stay where they are, and `..` goes one level up
(at the root it stays there). Reading a directory or writing over one fails, and
writing needs the directory the file goes into.
-/

namespace RuleScript

inductive IoFault where
  | notFound
  | notDirectory
  | isDirectory
  | invalidText
  | other (text : String)
deriving Repr, DecidableEq, Inhabited

namespace IoFault

def message : IoFault → String
  | .notFound => "No such file or directory (os error 2)"
  | .notDirectory => "Not a directory (os error 20)"
  | .isDirectory => "Is a directory (os error 21)"
  | .invalidText => "stream did not contain valid UTF-8"
  | .other text => text

end IoFault

/-- How the command line reaches files, with effects in the monad `m`. -/
structure FileAccess (m : Type → Type) where
  present : String → m Bool
  read : String → m (Except IoFault (List UInt8))
  write : String → String → m (Except IoFault Unit)

inductive Entry where
  | file (bytes : List UInt8)
  | directory
deriving Repr, DecidableEq, Inhabited

/-- A directory tree in memory: the entries below the root, by the names on the way
to them, in the order they were made. -/
structure Workspace where
  entries : List (List String × Entry) := []
deriving Repr, Inhabited

namespace Workspace

def find (w : Workspace) (names : List String) : Option Entry :=
  if names.isEmpty then some .directory else (w.entries.find? (·.1 == names)).map (·.2)

def walk (w : Workspace) : List String → List String → Except IoFault (List String)
  | cur, [] => .ok cur
  | cur, p :: ps =>
    match w.find cur with
    | none => .error .notFound
    | some (.file _) => .error .notDirectory
    | some .directory =>
      if p = "" || p = "." then w.walk cur ps
      else if p = ".." then w.walk cur.dropLast ps
      else w.walk (cur ++ [p]) ps

def locate (w : Workspace) (path : String) : Except IoFault (List String) :=
  if path.isEmpty then .error .notFound
  else w.walk [] ((Path.parts '/' path.toList).map String.ofList)

def present (w : Workspace) (path : String) : Bool :=
  match w.locate path with
  | .ok names => (w.find names).isSome
  | .error _ => false

def read (w : Workspace) (path : String) : Except IoFault (List UInt8) :=
  match w.locate path with
  | .error e => .error e
  | .ok names =>
    match w.find names with
    | none => .error .notFound
    | some .directory => .error .isDirectory
    | some (.file bytes) => .ok bytes

/-- The workspace with the file at a path holding `bytes`. A path that ends in a slash
names a directory, so no file is made there. -/
def write (w : Workspace) (path : String) (bytes : List UInt8) : Except IoFault Workspace :=
  let chars := path.toList
  let bare := (chars.reverse.dropWhile (· = '/')).reverse
  match w.locate (String.ofList bare) with
  | .error e => .error e
  | .ok names =>
    match w.find names with
    | some .directory => .error .isDirectory
    | some (.file _) =>
      if bare.length < chars.length then .error .notDirectory
      else .ok ⟨w.entries.map fun e => if e.1 == names then (names, .file bytes) else e⟩
    | none =>
      if bare.length < chars.length then .error .isDirectory
      else .ok ⟨w.entries ++ [(names, .file bytes)]⟩

def add (w : Workspace) (names : List String) (e : Entry) : Workspace :=
  let above := (List.range names.length).map fun k => names.take k
  let w := above.foldl (fun w dir =>
    if (w.find dir).isSome then w else ⟨w.entries ++ [(dir, .directory)]⟩) w
  if (w.find names).isSome then w else ⟨w.entries ++ [(names, e)]⟩

def ofFiles (files : List (String × Option (List UInt8))) : Workspace :=
  files.foldl (fun w (path, content) =>
    let names := ((Path.parts '/' path.toList).map String.ofList).filter fun s => s != "" && s != "."
    w.add names (match content with
      | some bytes => .file bytes
      | none => .directory)) {}

/-- Every entry with its path, names joined by slashes: the bytes of a file, `none` for
a directory. -/
def listing (w : Workspace) : List (String × Option (List UInt8)) :=
  w.entries.map fun (names, e) =>
    ("/".intercalate names, match e with
      | .file bytes => some bytes
      | .directory => none)

def access : FileAccess (StateM Workspace) where
  present path := do return (← get).present path
  read path := do return (← get).read path
  write path text := do
    match (← get).write path text.toUTF8.toList with
    | .ok w => set w; return .ok ()
    | .error e => return .error e

end Workspace

end RuleScript
