import RuleScript.Syntax.Basic
/-! # What a rule program means

A program runs its rules in order, all in one top-level scope. A declaration `say: v`
prints the value of `v`: a string literal's text, an integer literal's number, or a
variable's current value. A declaration `x: v` for any other property than `say` and
`times` stores the value of `v` in the innermost scope that already binds `x`, and binds
`x` in the innermost scope if none does. A loop runs its body as many times as the
number of its first direct `times` item says, once if it has none, each time in a fresh
scope; `times` does nothing where it stands. Reading a variable no scope binds, or a loop
counted by anything but an integer, has no meaning.
-/

namespace RuleScript

def decimalValue (ds : String) : Nat :=
  ds.toList.foldl (fun n c => 10 * n + (c.toNat - '0'.toNat)) 0

/-- A value of a running program. -/
inductive Val where
  | number (n : Nat)
  | text (s : String)
deriving Repr, DecidableEq

def rebind {β : Type} (F : List (String × β)) (x : String) (b : β) : List (String × β) :=
  F.map fun p => if p.1 = x then (x, b) else p

theorem lookup_eq_none_iff_keys {β : Type} {F : List (String × β)} {x : String} :
    F.lookup x = none ↔ x ∉ F.map Prod.fst := by
  simp only [List.lookup_eq_none_iff, bne_iff_ne, ne_eq, List.mem_map, not_exists, not_and]
  exact ⟨fun h p hp he => h p hp he.symm, fun h p hp he => h p hp he.symm⟩

section Rebind

variable {β : Type} {F : List (String × β)} {x y : String} {b : β}

@[simp] theorem keys_rebind : (rebind F x b).map Prod.fst = F.map Prod.fst := by
  unfold rebind
  rw [List.map_map]
  congr 1
  funext p
  by_cases h : p.1 = x <;> simp [h]

theorem lookup_rebind_self (h : x ∈ F.map Prod.fst) : (rebind F x b).lookup x = some b := by
  induction F with
  | nil => cases h
  | cons p F ih =>
    obtain ⟨k, c⟩ := p
    by_cases hk : k = x
    · subst hk
      simp [rebind]
    · have hx : x ∈ F.map Prod.fst := by simpa [Ne.symm hk] using h
      have hne : (x == k) = false := by simpa using Ne.symm hk
      simpa [rebind, hk, List.lookup_cons, hne] using ih hx

theorem lookup_rebind_ne (h : y ≠ x) : (rebind F x b).lookup y = F.lookup y := by
  induction F with
  | nil => rfl
  | cons p F ih =>
    obtain ⟨k, c⟩ := p
    by_cases hy : y = k
    · subst hy
      simp [rebind, h]
    · have hne : (y == k) = false := by simpa using hy
      by_cases hk : k = x
      · subst hk
        simpa [rebind, List.lookup_cons, hne] using ih
      · simpa [rebind, hk, List.lookup_cons, hne] using ih

end Rebind

abbrev Scopes := List (List (String × Val))

namespace Scopes

def lookup (R : Scopes) (n : String) : Option Val := R.findSome? (List.lookup n)

def update : Scopes → String → Val → Option Scopes
  | [], _, _ => none
  | S :: R, n, v =>
    if n ∈ S.map Prod.fst then some (rebind S n v :: R) else (update R n v).map (S :: ·)

/-- Stores a value under a name: where some scope binds it, or else as a new binding of
the innermost scope. -/
def store (R : Scopes) (n : String) (v : Val) : Scopes :=
  match R.update n v, R with
  | some R', _ => R'
  | none, [] => [[(n, v)]]
  | none, S :: R' => ((n, v) :: S) :: R'

theorem lookup_cons (S : List (String × Val)) (R : Scopes) (n : String) :
    lookup (S :: R) n = (S.lookup n).or (lookup R n) := by
  simp only [lookup, List.findSome?_cons]
  cases S.lookup n <;> rfl

theorem update_eq_none {R : Scopes} {n : String} (h : ∀ S ∈ R, n ∉ S.map Prod.fst) (v : Val) :
    R.update n v = none := by
  induction R with
  | nil => rfl
  | cons S R ih =>
    rw [update, if_neg (h S List.mem_cons_self),
      ih fun S' hS' => h S' (List.mem_cons_of_mem _ hS')]
    rfl

theorem store_of_update_none {S : List (String × Val)} {R : Scopes} {n : String} {v : Val}
    (h : update (S :: R) n v = none) : store (S :: R) n v = ((n, v) :: S) :: R := by
  simp [store, h]

theorem store_of_update_some {R R' : Scopes} {n : String} {v : Val}
    (h : update R n v = some R') : store R n v = R' := by
  simp [store, h]

end Scopes

def Value.eval (R : Scopes) : Value → Option Val
  | .literal (.integer ds) => some (.number (decimalValue ds))
  | .literal (.string t) => some (.text t)
  | .ref n => R.lookup n

namespace Node

def timesValue : Node → Option Value
  | .declaration d => if d.property = "times" then some d.value else none
  | .loop _ _ => none

/-- How many times a loop with body `body` runs: the number of its first direct `times`
item, or once without one; `none` if that item holds no integer literal. -/
def repeats (body : List Node) : Option Nat :=
  match body.findSome? timesValue with
  | none => some 1
  | some (.literal (.integer ds)) => some (decimalValue ds)
  | some _ => none

end Node

def iterate (step : Scopes → Option (Scopes × List Val)) :
    Nat → Scopes → Option (Scopes × List Val)
  | 0, R => some (R, [])
  | n + 1, R => do
    let (R₁, o₁) ← step R
    let (R₂, o₂) ← iterate step n R₁
    pure (R₂, o₁ ++ o₂)

mutual

/-- Runs an item: the scopes after it and what it printed. -/
def Node.run : Node → Scopes → Option (Scopes × List Val)
  | .declaration d, R =>
    if d.property = "times" then some (R, [])
    else if d.property = "say" then do
      let v ← d.value.eval R
      pure (R, [v])
    else do
      let v ← d.value.eval R
      pure (R.store d.property v, [])
  | .loop _ body, R => do
    let n ← Node.repeats body
    iterate (fun R => do
      let (R', o) ← Node.runAll body ([] :: R)
      pure (R'.tail, o)) n R

def Node.runAll : List Node → Scopes → Option (Scopes × List Val)
  | [], R => some (R, [])
  | n :: ns, R => do
    let (R₁, o₁) ← n.run R
    let (R₂, o₂) ← Node.runAll ns R₁
    pure (R₂, o₁ ++ o₂)

end

/-- One iteration of a loop with body `body`: the body runs in a fresh innermost scope,
which is dropped after it. -/
def Node.iteration (body : List Node) (R : Scopes) : Option (Scopes × List Val) := do
  let (R', o) ← Node.runAll body ([] :: R)
  pure (R'.tail, o)

section Steps

variable {d : Declaration} {R R₁ R₂ : Scopes} {w : Val} {o₁ o₂ : List Val}

theorem run_times (h : d.property = "times") : Node.run (.declaration d) R = some (R, []) := by
  simp [Node.run, h]

theorem run_say (hs : d.property = "say") (hv : d.value.eval R = some w) :
    Node.run (.declaration d) R = some (R, [w]) := by
  have ht : d.property ≠ "times" := by rw [hs]; decide
  rw [Node.run, if_neg ht, if_pos hs]
  simp [hv]

theorem run_store (ht : d.property ≠ "times") (hs : d.property ≠ "say")
    (hv : d.value.eval R = some w) :
    Node.run (.declaration d) R = some (R.store d.property w, []) := by
  simp [Node.run, ht, hs, hv]

theorem run_loop (form : LoopForm) (body : List Node) (R : Scopes) :
    Node.run (.loop form body) R =
      (Node.repeats body).bind fun k => iterate (Node.iteration body) k R := by
  rw [Node.run]
  rfl

theorem iteration_of {body : List Node} (h : Node.runAll body ([] :: R) = some (R₁, o₁)) :
    Node.iteration body R = some (R₁.tail, o₁) := by
  simp [Node.iteration, h]

theorem iterate_succ_of {step : Scopes → Option (Scopes × List Val)} {n : Nat}
    (h₁ : step R = some (R₁, o₁)) (h₂ : iterate step n R₁ = some (R₂, o₂)) :
    iterate step (n + 1) R = some (R₂, o₁ ++ o₂) := by
  simp [iterate, h₁, h₂]

end Steps

/-- What a program prints: its rules' items run in order from one empty top-level
scope. -/
def Program.output (p : Program) : Option (List Val) :=
  (Node.runAll (p.rules.flatMap (·.body)) [[]]).map (·.2)

example : Program.output ⟨[⟨"a", [.declaration (.new "x" (.integer 1)),
    .loop .plain [.declaration (.new "times" (.integer 2)), .declaration (.new "x" (.ref "x")),
      .declaration (.new "y" (.string "in")), .declaration (.new "say" (.ref "y"))],
    .declaration (.new "say" (.ref "x"))]⟩]⟩ =
    some [.text "in", .text "in", .number 1] := by decide +kernel

section Runs

variable {n : Node} {a b : List Node} {R R₁ R₂ : Scopes} {o₁ o₂ : List Val}

theorem runAll_cons_of (h₁ : n.run R = some (R₁, o₁)) (h₂ : Node.runAll a R₁ = some (R₂, o₂)) :
    Node.runAll (n :: a) R = some (R₂, o₁ ++ o₂) := by
  simp [Node.runAll, h₁, h₂]

/-- Items run one after another: the run of a concatenation is the second run after the
first. -/
theorem runAll_append_of (h₁ : Node.runAll a R = some (R₁, o₁))
    (h₂ : Node.runAll b R₁ = some (R₂, o₂)) : Node.runAll (a ++ b) R = some (R₂, o₁ ++ o₂) := by
  induction a generalizing R o₁ with
  | nil =>
    simp only [Node.runAll, Option.some.injEq, Prod.mk.injEq] at h₁
    obtain ⟨rfl, rfl⟩ := h₁
    simpa using h₂
  | cons n a ih =>
    simp only [Node.runAll, Option.bind_eq_bind, Option.bind_eq_some_iff, Option.pure_def,
      Option.some.injEq] at h₁
    obtain ⟨⟨R', o'⟩, hn, ⟨R'', o''⟩, ha, he⟩ := h₁
    simp only [Prod.mk.injEq] at he
    obtain ⟨rfl, rfl⟩ := he
    rw [List.cons_append, runAll_cons_of hn (ih ha), List.append_assoc]

end Runs

end RuleScript
