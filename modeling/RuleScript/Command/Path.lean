/-!
# Paths

A path is the text the user typed. Its components are the parts between slashes:
empty parts, and `.` parts other than a first one, do not count. The file name is the
last component when that is an ordinary name (not `.` or `..`). The extension is what
follows the last dot of the file name, unless that dot is its first character; the
stem is what precedes it.

Setting an extension cuts the text right after the stem, whatever followed, and
appends a dot and the extension. Replacing the extension first drops as many
characters from the end of the text as the old extension has, then sets the new one.
-/

namespace RuleScript

inductive Component where
  | root
  | current
  | parent
  | name (s : String)
deriving Repr, DecidableEq, Inhabited

/-- A path, as the text the user typed. -/
structure Path where
  text : String
deriving Repr, DecidableEq, Inhabited

namespace Path

def parts (sep : Char) : List Char → List (List Char)
  | [] => [[]]
  | c :: cs =>
    match parts sep cs with
    | [] => [[c]]
    | p :: ps => if c = sep then [] :: p :: ps else (c :: p) :: ps

def components (p : Path) : List Component :=
  let ps := (parts '/' p.text.toList).map String.ofList
  let absolute := p.text.startsWith "/"
  let first : List Component := if absolute then [.root] else
    match ps with
    | "." :: _ => [.current]
    | _ => []
  let rest := (if absolute || first == [.current] then ps.drop 1 else ps).filterMap fun s =>
    if s = "" || s = "." then none else if s = ".." then some Component.parent else some (.name s)
  first ++ rest

def fileName? (p : Path) : Option String :=
  match p.components.getLast? with
  | some (.name s) => some s
  | _ => none

def splitName (name : String) : String × Option String :=
  if name = ".." then (name, none)
  else
    let cs := name.toList
    match (cs.reverse.span (· ≠ '.')) with
    | (_, []) => (name, none)
    | (afterRev, _ :: beforeRev) =>
      if beforeRev.isEmpty then (name, none)
      else (String.ofList beforeRev.reverse, some (String.ofList afterRev.reverse))

def extension? (p : Path) : Option String := p.fileName?.bind fun n => (splitName n).2

/-- The text with trailing slashes and trailing `.` components cut away, which then
ends with the file name if there is one. -/
def trimEnd : List Char → List Char
  | [] => []
  | cs =>
    match cs.reverse with
    | '/' :: r => trimEndRev r
    | '.' :: '/' :: r => trimEndRev r
    | _ => cs
where
  trimEndRev : List Char → List Char
    | '/' :: r => trimEndRev r
    | '.' :: '/' :: r => trimEndRev r
    | r => r.reverse

/-- The path cut right after the stem of its file name, with a dot and `ext` added;
unchanged if it has no file name. -/
def setExtension (p : Path) (ext : String) : Path :=
  match p.fileName? with
  | none => p
  | some name =>
    let kept := trimEnd p.text.toList
    let stem := (splitName name).1
    let cut := kept.length - name.length + stem.length
    ⟨String.ofList (kept.take cut) ++ "." ++ ext⟩

/-- The path with its extension replaced by `ext`: the text is first cut short by the
length of the old extension, counted from the very end of the text, and what is left
then gets the extension. A text that ends in its extension keeps everything up to the
dot before it; a name such as `..csss` is cut to `..`, which has no file name and so
stays as it is. -/
def withExtension (p : Path) (ext : String) : Path :=
  let base : Path := match p.extension? with
    | none => p
    | some e => ⟨String.ofList (p.text.toList.take (p.text.length - e.length))⟩
  base.setExtension ext

def isDash (p : Path) : Bool := p.components == [.name "-"]

example : (Path.mk "dir/a.css").withExtension "js" = ⟨"dir/a.js"⟩ := by decide +kernel
example : (Path.mk ".csss").extension? = none := by decide +kernel
example : (Path.mk "..csss").withExtension "js" = ⟨".."⟩ := by decide +kernel
example : (Path.mk "a.b.csss").extension? = some "csss" := by decide +kernel

end Path

end RuleScript
