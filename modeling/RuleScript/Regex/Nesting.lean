import RuleScript.Regex.Tree
/-!
# Regular expressions: how deep a pattern nests

A pattern may nest groups, repetitions, choices, concatenations and brackets at most
`nestLimit` deep. Each of these nodes lies one level below the node around it; so do
the unions of items and the set operations inside brackets. Literals, classes and
anchors add no level.

The fault names the first node, in reading order from the outside in, that lies deeper
than the limit.
-/

namespace RuleScript

namespace Regex

namespace Nesting

mutual

def item (depth : Nat) : SetItem → Option Span
  | .union s items => if depth + 1 > nestLimit then some s else itemList (depth + 1) items
  | .bracket s _ set => if depth + 1 > nestLimit then some s else classSet (depth + 1) set
  | _ => none

def itemList (depth : Nat) : List SetItem → Option Span
  | [] => none
  | i :: is =>
    match item depth i with
    | some s => some s
    | none => itemList depth is

def classSet (depth : Nat) : ClassSet → Option Span
  | .item i => item depth i
  | .op s _ lhs rhs =>
    if depth + 1 > nestLimit then some s
    else
      match classSet (depth + 1) lhs with
      | some s' => some s'
      | none => classSet (depth + 1) rhs

end

mutual

def node (depth : Nat) : Node → Option Span
  | .bracket s _ set => if depth + 1 > nestLimit then some s else classSet (depth + 1) set
  | .repetition s _ _ _ sub => if depth + 1 > nestLimit then some s else node (depth + 1) sub
  | .group s _ sub => if depth + 1 > nestLimit then some s else node (depth + 1) sub
  | .alternation s alts => if depth + 1 > nestLimit then some s else nodeList (depth + 1) alts
  | .concat s items => if depth + 1 > nestLimit then some s else nodeList (depth + 1) items
  | _ => none

def nodeList (depth : Nat) : List Node → Option Span
  | [] => none
  | n :: ns =>
    match node depth n with
    | some s => some s
    | none => nodeList depth ns

end

end Nesting

/-- The fault of a tree that nests too deep, if it does. -/
def Node.nestFault (n : Node) : Option Fault :=
  (Nesting.node 0 n).map fun s => ⟨.nestLimitExceeded, s, none⟩

end Regex

end RuleScript
