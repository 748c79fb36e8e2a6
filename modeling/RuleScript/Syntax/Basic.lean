import RuleScript.Source.Position
/-! # Rule programs

A program is a list of rules. A rule has a selector and a body of items; an item is a
declaration `property: value;` or a loop block, written `loop { ... }` or, inside
another loop, `&loop { ... }`. A value is an integer literal, a string literal or the
name of a variable.

Integer literals keep their digits as text, so no literal is too large; `canonicalDigits`
drops leading zeros, and `Value.integer` writes a number the same way.
-/

namespace RuleScript

inductive Literal where
  | integer (digits : String)
  | string (text : String)
deriving Repr, DecidableEq, Inhabited

/-- The value of a declaration. -/
inductive Value where
  | literal (l : Literal)
  | ref (name : String)
deriving Repr, DecidableEq, Inhabited

/-- A declaration `property: value;`, with the span of its property. -/
structure Declaration where
  property : String
  value : Value
  span : Span
deriving Repr, DecidableEq, Inhabited

/-- How a loop block was written: `loop { ... }` or `&loop { ... }`. Both repeat their
body in the same way. -/
inductive LoopForm where
  | plain
  | nested
deriving Repr, DecidableEq, Inhabited

/-- An item of a rule or loop body. -/
inductive Node where
  | declaration (d : Declaration)
  | loop (form : LoopForm) (body : List Node)
deriving Repr, Inhabited

structure Rule where
  selector : String
  body : List Node
deriving Repr, Inhabited

/-- A program: its rules in order. -/
structure Program where
  rules : List Rule
deriving Repr, Inhabited

/-- Digits without leading zeros: every leading `0` goes, and nothing left is `0`. -/
def canonicalDigits (s : String) : String :=
  match s.toList.dropWhile (· == '0') with
  | [] => "0"
  | cs => String.ofList cs

namespace Value

def integer (n : Nat) : Value := .literal (.integer (toString n))

def string (s : String) : Value := .literal (.string s)

end Value

namespace Declaration

def new (property : String) (value : Value) : Declaration := ⟨property, value, Span.zero⟩

end Declaration

end RuleScript
