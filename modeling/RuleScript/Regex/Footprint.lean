import RuleScript.Regex.Expr
import RuleScript.Regex.Sequences
import RuleScript.Regex.Trie
import Std.Data.HashMap
/-!
# Regular expressions: the size of a compiled pattern

Before a pattern is used it is compiled twice into an automaton over bytes: forwards,
with states that record where groups match, and backwards, without them. Neither may
take more than `sizeLimit` bytes. A state takes 32 bytes; a state of several byte ranges
takes 8 more for each, and a union 4 more for each alternate it gets.

This module counts what each compilation takes, state by state, in the order the states
are made. The order matters: a class beyond ASCII is compiled into a small automaton of
byte ranges whose equal states are shared through a table of bounded size indexed by a
hash of their transitions, and the transitions name states by number. So the number a
state gets decides what is shared and hence how many states there are.

Compiling stops as soon as the count passes the limit; the count only grows, so it is
over the limit at the end if and only if it is over the limit at some point.
-/

namespace RuleScript

namespace Regex

def sizeLimit : Nat := 10485760

/-- The states made so far and the bytes they hold beyond their fixed size. -/
structure Tally where
  states : Nat
  heap : Nat
deriving Repr, DecidableEq, Inhabited

def Tally.bytes (t : Tally) : Nat := 32 * t.states + t.heap

abbrev Build := StateT Tally Option

namespace Build

/-- Adds `n` states holding `heap` extra bytes between them, and gives the number of the
first. -/
def addMany (n heap : Nat) : Build Nat := fun t =>
  let t' : Tally := ⟨t.states + n, t.heap + heap⟩
  if t'.bytes > sizeLimit then none else some (t.states, t')

def add (heap : Nat) : Build Nat := addMany 1 heap

def alternate : Build Unit := fun t =>
  let t' : Tally := ⟨t.states, t.heap + 4⟩
  if t'.bytes > sizeLimit then none else some ((), t')

end Build

open Build

/-- A compiled part: its first state, its last state, and whether the last is a union,
which gets an alternate when the part is linked to what follows. -/
structure Piece where
  start : Nat
  stop : Nat
  openUnion : Bool
deriving Repr, Inhabited

def Piece.single (id : Nat) : Piece := ⟨id, id, false⟩

def Piece.link (p : Piece) : Build Unit := if p.openUnion then alternate else pure ()

def fnv (xs : List Nat) : UInt64 :=
  xs.foldl (fun h x => (h ^^^ x.toUInt64) * 1099511628211) 14695981039346656037

abbrev Edge := Nat × Nat × Nat

/-- A state of the UTF-8 automaton still being built: its transitions so far, and the
range of its last transition, whose next state is not known yet. -/
structure Pending where
  edges : Array Edge
  last : Option (Nat × Nat)
deriving Repr, Inhabited

def Pending.freeze (p : Pending) (next : Nat) : Array Edge :=
  match p.last with
  | some (a, b) => p.edges.push (a, b, next)
  | none => p.edges

/-- The state of compiling one class forwards: the state every sequence ends in, the
pending states from the root down, and the table of states made, indexed by the hash
of their transitions. -/
structure Forward where
  target : Nat
  pending : Array Pending
  made : Std.HashMap Nat (List Edge × Nat)

def forwardSlots : Nat := 10000

def backwardSlots : Nat := 1000

namespace Forward

def intern (u : Forward) (edges : Array Edge) : Build (Nat × Forward) := do
  let key := edges.toList
  let slot := (fnv (key.flatMap fun e => [e.1, e.2.1, e.2.2])).toNat % forwardSlots
  match u.made[slot]? with
  | some (k, id) => if k == key then return (id, u)
  | none => pure ()
  let id ← add (8 * edges.size)
  return (id, { u with made := u.made.insert slot (key, id) })

/-- Compiles the pending states below the first `keep + 1`, deepest first, with
`fuel` steps; the deepest state leads to the target. -/
def settleBelow (keep : Nat) : Nat → Nat → Forward → Build Forward
  | 0, next, u => pure { u with pending := u.pending.modify (u.pending.size - 1) fun p => ⟨p.freeze next, none⟩ }
  | fuel + 1, next, u =>
    if keep + 1 < u.pending.size then do
      let top := u.pending.back!
      let (id, u) ← intern { u with pending := u.pending.pop } (top.freeze next)
      settleBelow keep fuel id u
    else
      pure { u with pending := u.pending.modify (u.pending.size - 1) fun p => ⟨p.freeze next, none⟩ }

def compileFrom (keep : Nat) (u : Forward) : Build Forward :=
  settleBelow keep u.pending.size u.target u

def shared : List (Nat × Nat) → List Pending → Nat
  | r :: rs, p :: ps => if p.last == some r then shared rs ps + 1 else 0
  | _, _ => 0

def push (u : Forward) (seq : List (Nat × Nat)) : Build Forward := do
  let keep := shared seq u.pending.toList
  let u ← compileFrom keep u
  match seq.drop keep with
  | [] => pure u
  | r :: rs =>
    let pending := u.pending.modify (u.pending.size - 1) fun p => { p with last := some r }
    pure { u with pending := rs.foldl (fun ps r => ps.push ⟨#[], some r⟩) pending }

def compile (ranges : List (Nat × Nat)) : Build Piece := do
  let target ← add 0
  let u : Forward := ⟨target, #[⟨#[], none⟩], {}⟩
  let seqs := ranges.flatMap sequencesOf
  let u ← seqs.foldlM push u
  let u ← compileFrom 0 u
  let root := u.pending[0]?.map (·.edges) |>.getD #[]
  let (start, _) ← intern u root
  pure ⟨start, target, false⟩

end Forward

/-- Compiles a class beyond ASCII backwards: each sequence, last range first, is a chain
of states into a common end, and chains share their ends through a table indexed by
the hash of the state they lead to and the range. -/
def compileBackward (ranges : List (Nat × Nat)) : Build Piece := do
  let union ← add 0
  let finish ← add 0
  let seqs := ranges.flatMap sequencesOf
  let _ ← seqs.foldlM (fun (table : Std.HashMap Nat (Edge × Nat)) seq => do
    let (head, table) ← seq.foldlM (fun (acc : Nat × Std.HashMap Nat (Edge × Nat)) r => do
      let (next, table) := acc
      let key : Edge := (next, r.1, r.2)
      let slot := (fnv [next, r.1, r.2]).toNat % backwardSlots
      match table[slot]? with
      | some (k, id) => if k == key then return (id, table)
      | none => pure ()
      let id ← add 0
      return (id, table.insert slot (key, id))) (finish, table)
    let _ := head
    alternate
    pure table) {}
  pure ⟨union, finish, false⟩

def literalBytes : Expr → Option (List Nat)
  | .literal cs => some (cs.flatMap fun c => utf8Code c.toNat)
  | _ => none

def chain (one : Build Piece) : Nat → Piece → Build Piece
  | 0, acc => pure acc
  | k + 1, acc => fun t =>
    match (do let c ← one; acc.link; pure c : Build Piece) t with
    | none => none
    | some (c, t') => chain one k ⟨acc.start, c.stop, c.openUnion⟩ t'

def exactly (one : Build Piece) : Nat → Build Piece
  | 0 => Piece.single <$> add 0
  | n + 1 => do
    let first ← one
    chain one n first

def optionals (one : Build Piece) : Nat → Piece → Build Piece
  | 0, acc => pure acc
  | k + 1, acc => fun t =>
    match (do
        let _ ← add 0
        let c ← one
        acc.link
        alternate
        alternate
        pure c : Build Piece) t with
    | none => none
    | some (c, t') => optionals one k c t'

def bounded (one : Build Piece) (lo hi : Nat) : Build Piece := do
  let first ← exactly one lo
  let finish ← add 0
  let last ← optionals one (hi - lo) first
  last.link
  pure ⟨first.start, finish, false⟩

/-- At least `n` copies of a part; `nonEmpty` says whether every match of the part is
non-empty, which allows a simpler loop for no lower bound. -/
def atLeast (one : Build Piece) (nonEmpty : Bool) : Nat → Build Piece
  | 0 =>
    if nonEmpty then do
      let union ← add 0
      let c ← one
      alternate
      c.link
      pure ⟨union, union, true⟩
    else do
      let c ← one
      let _ ← add 0
      c.link
      alternate
      let question ← add 0
      let finish ← add 0
      alternate
      alternate
      alternate
      pure ⟨question, finish, false⟩
  | 1 => do
    let c ← one
    let union ← add 0
    c.link
    alternate
    pure ⟨c.start, union, true⟩
  | n + 2 => do
    let first ← exactly one (n + 1)
    let last ← one
    let union ← add 0
    first.link
    last.link
    alternate
    pure ⟨first.start, union, true⟩

mutual

/-- Compiles an expression, backwards when `rev` holds; only forwards are groups
recorded. -/
def compile (rev : Bool) : Expr → Build Piece
  | .empty => Piece.single <$> add 0
  | .literal cs => do
    let n := Expr.byteLength cs
    if n = 0 then Piece.single <$> add 0
    else do
      let first ← addMany n 0
      pure ⟨first, first + n - 1, false⟩
  | .cls rs bytes =>
    if bytes || rs.all (·.2 ≤ 0x7F) then do
      let finish ← add 0
      let start ← add (8 * rs.length)
      pure ⟨start, finish, false⟩
    else if rev then compileBackward rs
    else Forward.compile rs
  | .look _ => Piece.single <$> add 0
  | .rep lo hi _ sub =>
    let one := compile rev sub
    match lo, hi with
    | 0, some 1 => do
      let union ← add 0
      let c ← one
      let finish ← add 0
      alternate
      alternate
      c.link
      pure ⟨union, finish, false⟩
    | lo, none => atLeast one ((sub.minLen.map fun n => decide (n > 0)).getD false) lo
    | lo, some hi => if lo = hi then exactly one lo else bounded one lo hi
  | .capture _ sub =>
    if rev then compile rev sub
    else do
      let start ← add 0
      let inner ← compile rev sub
      let finish ← add 0
      inner.link
      pure ⟨start, finish, false⟩
  | .concat items =>
    if rev then do
      match ← concatBack rev items with
      | some p => pure p
      | none => Piece.single <$> add 0
    else
      match items with
      | [] => Piece.single <$> add 0
      | e :: es => do
        let c ← compile rev e
        concatFront rev c es
  | .alt items =>
    match items.mapM literalBytes with
    | some lits@(_ :: _ :: _) => do
      let (states, heap) := (Trie.ofLiterals rev lits).cost
      let finish ← addMany states heap
      pure ⟨finish + states - 1, finish, false⟩
    | _ =>
      match items with
      | [] => Piece.single <$> add 0
      | [e] => compile rev e
      | a :: b :: rest => do
        let ca ← compile rev a
        let cb ← compile rev b
        let union ← add 0
        let finish ← add 0
        alternate
        ca.link
        alternate
        cb.link
        choiceRest rev rest
        pure ⟨union, finish, false⟩

def concatFront (rev : Bool) (acc : Piece) : List Expr → Build Piece
  | [] => pure acc
  | e :: es => do
    let c ← compile rev e
    acc.link
    concatFront rev ⟨acc.start, c.stop, c.openUnion⟩ es

def concatBack (rev : Bool) : List Expr → Build (Option Piece)
  | [] => pure none
  | e :: es => do
    let r ← concatBack rev es
    let c ← compile rev e
    match r with
    | none => pure (some c)
    | some r => do
      r.link
      pure (some ⟨r.start, c.stop, c.openUnion⟩)

def choiceRest (rev : Bool) : List Expr → Build Unit
  | [] => pure ()
  | e :: es => do
    let c ← compile rev e
    alternate
    c.link
    choiceRest rev es

end

/-- The count of a whole compiled pattern, backwards when `rev` holds, or none when it
passes the size limit. Unless every match starts at the start of the text (ends at its
end, backwards), the automaton begins with a loop over any byte. Forwards, the pattern
is a group of its own. -/
def footprint (rev : Bool) (e : Expr) : Option Tally :=
  let anchored := if rev then e.endsWith .textEnd else e.startsWith .textStart
  let whole : Build Unit := do
    let lead ← if anchored then Piece.single <$> add 0 else do
      let union ← add 0
      let _ ← add 0
      let _ ← add 8
      alternate
      pure ⟨union, union, true⟩
    let body ← if rev then compile rev e else do
      let start ← add 0
      let inner ← compile rev e
      let finish ← add 0
      inner.link
      pure ⟨start, finish, false⟩
    let _ ← add 0
    body.link
    lead.link
  (whole ⟨0, 0⟩).map (·.2)

/-- Whether a pattern compiles within the size limit, backwards when `rev` holds. -/
def fitsSize (rev : Bool) (e : Expr) : Bool := (footprint rev e).isSome

end Regex

end RuleScript
