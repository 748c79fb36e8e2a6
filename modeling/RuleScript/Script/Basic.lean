import RuleScript.Script.Quoted
/-!
# Scripts

A script is a list of statements, one a line: a new binding `let x = v;`, an
assignment `x = v;`, a print `console.log(v);`, or a counted loop whose body is
indented one level more. The loop at nesting depth `d` counts with the name `_i`
followed by `d`; source names begin with a letter, so the counter names never meet
them.
-/

namespace RuleScript

namespace Script

inductive Expr where
  | number (digits : String)
  | text (s : String)
  | name (n : String)
deriving Repr, DecidableEq, Inhabited

/-- A statement of a script. -/
inductive Stmt where
  | bind (x : String) (v : Expr)
  | assign (x : String) (v : Expr)
  | print (v : Expr)
  | loop (count : String) (body : List Stmt)
deriving Repr, Inhabited

namespace Expr

def render : Expr → String
  | .number digits => digits
  | .text s => quote s
  | .name n => n

end Expr

/-- The name that counts the loops at nesting depth `depth`. -/
def counter (depth : Nat) : String := "_i" ++ toString depth

/-- The first line of a loop at nesting depth `depth` that runs `count` times. -/
def loopHead (depth : Nat) (count : String) : String :=
  let i := counter depth
  s!"for (let {i} = 0; {i} < {count}; {i}++) " ++ "\x7b"

mutual

def Stmt.lines (depth : Nat) : Stmt → List (Nat × String)
  | .bind x v => [(depth, "let " ++ x ++ " = " ++ v.render ++ ";")]
  | .assign x v => [(depth, x ++ " = " ++ v.render ++ ";")]
  | .print v => [(depth, "console.log(" ++ v.render ++ ");")]
  | .loop count body =>
    (depth, loopHead depth count) :: Stmt.linesOf (depth + 1) body ++ [(depth, "\x7d")]

def Stmt.linesOf (depth : Nat) : List Stmt → List (Nat × String)
  | [] => []
  | s :: ss => s.lines depth ++ Stmt.linesOf depth ss

end

/-- The text of a script whose levels are indented by `indent` spaces each: every line
ends with a line feed. -/
def render (indent : Nat) (body : List Stmt) : String :=
  String.join ((Stmt.linesOf 0 body).map fun (d, text) =>
    String.ofList (List.replicate (d * indent) ' ') ++ text ++ "\n")

example : render 2 [.loop "3" [.print (.text "x")]] =
    "for (let _i0 = 0; _i0 < 3; _i0++) \x7b\n  console.log(\"x\");\n\x7d\n" := by decide +kernel

end Script

end RuleScript
