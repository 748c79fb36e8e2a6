import RuleScript.Proofs.Meaning
import RuleScript.Proofs.Scoping
/-! # Running a script

The part of the script language that written scripts use, as the language runs it.

A number is a double. Only whole numbers at least zero arise here: a literal, a loop
counter and its increments. A double holds these exactly up to 2^53, rounds the larger
ones to the nearest double, ties to even, and makes infinity of what is too large for any
(`Number.ofNat`). A string is a list of UTF-16 code units; a text literal stands for the
units of the characters between its quotes, escapes read (`literalValue`).

The scopes of a running script form a stack, innermost first. A block — the script's top
level, or a loop's body — opens a scope that holds every name the block binds, before
any of its statements runs; a name stays in its dead zone until its `let` runs. A loop
keeps its counter in a scope of its own around the body's, and the body gets a fresh
scope on every iteration. Reading a name no scope binds or one in its dead zone fails,
as does assigning one; so, for assignment, does a name no scope binds (the script would
make a global of it, which written scripts never ask for).

Before anything runs, the script must be one the language reads: every name it binds or
assigns is an identifier, no reserved word and no fixed value's name, every name it reads
is an identifier and no reserved word, every number is a decimal integer literal, every
text literal reads back, and no block binds a name twice (`wellFormed`).

Fuel bounds the work: a statement runs only with fuel left, and a loop given `f + 1` tests
its condition at most `f` times and runs each statement of its body with `f`.
-/

namespace RuleScript

namespace Script

/-! ## Numbers -/

inductive Number where
  | finite (n : Nat)
  | infinity
deriving Repr, DecidableEq

namespace Number

/-- The double nearest to `n`, ties to even, or infinity where no double is that large:
`n` keeps its 53 leading binary digits, rounded on the ones it drops. -/
def ofNat (n : Nat) : Number :=
  let drop := n.log2 + 1 - 53
  let unit := Nat.pow 2 drop
  let q := n / unit
  let r := n % unit
  let m := if unit < 2 * r ∨ (2 * r = unit ∧ q % 2 = 1) then q + 1 else q
  -- the largest double is below 2^1024
  if (m * unit).log2 < 1024 then .finite (m * unit) else .infinity

/-- 2^53: a double holds every whole number up to it exactly. -/
def exactBound : Nat := 9007199254740992

theorem exactBound_eq : exactBound = Nat.pow 2 53 := rfl

def lt : Number → Number → Bool
  | .finite a, .finite b => a < b
  | .finite _, .infinity => true
  | .infinity, _ => false

def succ : Number → Number
  | .finite a => ofNat (a + 1)
  | .infinity => .infinity

theorem ofNat_of_le {n : Nat} (h : n ≤ exactBound) : ofNat n = .finite n := by
  rw [exactBound_eq] at h
  rcases Nat.lt_or_eq_of_le h with h | rfl
  · -- below 2^53 a number has at most 53 binary digits, so rounding drops none
    have hlog : n.log2 < 53 := by
      rcases Nat.eq_zero_or_pos n with rfl | hn
      · simp
      · exact (Nat.log2_lt (Nat.pos_iff_ne_zero.1 hn)).2 h
    have hd : n.log2 + 1 - 53 = 0 := by omega
    have hl : n.log2 < 1024 := by omega
    have hu : Nat.pow 2 0 = 1 := rfl
    unfold ofNat
    simp only [hd, hu, Nat.div_one, Nat.mod_one, Nat.mul_one, Nat.mul_zero]
    have hm : ¬ (1 < 0 ∨ (0 = 1 ∧ n % 2 = 1)) := by omega
    rw [if_neg hm, if_pos hl]
  · decide +kernel

example : ofNat (2 ^ 53 + 1) = .finite (2 ^ 53) ∧ ofNat (2 ^ 53 + 3) = .finite (2 ^ 53 + 4) := by
  decide +kernel

theorem succ_finite {n : Nat} (h : n + 1 ≤ exactBound) : succ (.finite n) = .finite (n + 1) := by
  rw [succ, ofNat_of_le h]

end Number

/-! ## Strings -/

def utf16 (c : Char) : List UInt16 :=
  if c.toNat < 0x10000 then [c.toNat.toUInt16]
  else
    let m := c.toNat - 0x10000
    [(0xD800 + m / 0x400).toUInt16, (0xDC00 + m % 0x400).toUInt16]

def units (s : String) : List UInt16 := s.toList.flatMap utf16

def hexValue (c : Char) : Option Nat :=
  if '0' ≤ c ∧ c ≤ '9' then some (c.toNat - '0'.toNat)
  else if 'a' ≤ c ∧ c ≤ 'f' then some (c.toNat - 'a'.toNat + 10)
  else if 'A' ≤ c ∧ c ≤ 'F' then some (c.toNat - 'A'.toNat + 10)
  else none

def hex4 (a b c d : Char) : Option Nat := do
  let w ← hexValue a
  let x ← hexValue b
  let y ← hexValue c
  let z ← hexValue d
  pure (4096 * w + 256 * x + 16 * y + z)

def singleEscape (c : Char) : Option UInt16 :=
  if c.toNat = 0x27 then some 0x27
  else match c with
    | '"' => some 0x22
    | '\\' => some 0x5C
    | 'b' => some 0x08
    | 'f' => some 0x0C
    | 'n' => some 0x0A
    | 'r' => some 0x0D
    | 't' => some 0x09
    | 'v' => some 0x0B
    | _ => none

/-- The code units that the characters between the quotes of a double-quoted literal
stand for; `none` if they cannot stand there. A raw double quote, backslash, line feed or
carriage return cannot; the single-character escapes and a backslash, `u` and four
hexadecimal digits are read, and the language's other escapes are not. -/
def unquote : List Char → Option (List UInt16)
  | [] => some []
  | '\\' :: c :: rest =>
    match c, rest with
    | 'u', a :: b :: d :: e :: rest' => do
      let n ← hex4 a b d e
      let u ← unquote rest'
      pure (n.toUInt16 :: u)
    | c, rest => do
      let k ← singleEscape c
      let u ← unquote rest
      pure (k :: u)
  | c :: rest =>
    if c = '"' ∨ c = '\\' ∨ c = '\n' ∨ c = '\r' then none
    else (unquote rest).map (utf16 c ++ ·)

def literalValue (lit : String) : Option (List UInt16) :=
  match lit.toList with
  | '"' :: rest => if rest.getLast? = some '"' then unquote rest.dropLast else none
  | _ => none

theorem hexValue_hexDigit : ∀ k < 16, hexValue (hexDigit k) = some k := by decide

theorem hex4_unicodeEscape {n : Nat} (h : n < 0x10000) :
    hex4 (hexDigit (n / 4096 % 16)) (hexDigit (n / 256 % 16)) (hexDigit (n / 16 % 16))
      (hexDigit (n % 16)) = some n := by
  simp only [hex4, hexValue_hexDigit _ (Nat.mod_lt _ (by decide)), Option.bind_eq_bind,
    Option.bind_some, Option.pure_def, Option.some.injEq]
  omega

theorem utf16_of_lt {c : Char} (h : c.toNat < 0x10000) : utf16 c = [c.toNat.toUInt16] :=
  if_pos h

theorem unquote_escape (c : Char) (rest : List Char) :
    unquote (escape c ++ rest) = (unquote rest).map (utf16 c ++ ·) := by
  unfold escape
  by_cases hs : c = '"' ∨ c = '\\' ∨ c = '\n' ∨ c = '\r' ∨ c = '\t'
  · -- the five characters with an escape of their own
    rcases hs with rfl | rfl | rfl | rfl | rfl <;>
      cases h : unquote rest <;> simp [unquote, singleEscape, utf16, h]
  obtain ⟨h1, h2, h3, h4, h5⟩ : c ≠ '"' ∧ c ≠ '\\' ∧ c ≠ '\n' ∧ c ≠ '\r' ∧ c ≠ '\t' := by
    simpa only [not_or] using hs
  simp only [h1, h2, h3, h4, h5, if_false]
  split
  · next h6 =>
    -- separators and control characters are written as four hexadecimal digits
    have hc : c.toNat < 0x10000 := by
      simp only [isSeparator, isControl, Bool.or_eq_true, beq_iff_eq, decide_eq_true_eq,
        Bool.and_eq_true] at h6
      omega
    simp only [unicodeEscape, List.cons_append, List.nil_append]
    rw [unquote.eq_2, hex4_unicodeEscape hc, utf16_of_lt hc]
    cases unquote rest <;> rfl
  · rw [List.singleton_append, unquote.eq_4 _ _ (fun _ _ h _ => h2 h)]
    rw [if_neg (by simp [h1, h2, h3, h4])]

theorem unquote_escapes (cs : List Char) : unquote (cs.flatMap escape) = some (cs.flatMap utf16) := by
  induction cs with
  | nil => rfl
  | cons c cs ih => rw [List.flatMap_cons, unquote_escape, ih, List.flatMap_cons]; rfl

theorem literalValue_quote (s : String) : literalValue (quote s) = some (units s) := by
  unfold literalValue quote
  rw [String.toList_ofList]
  simp only [List.getLast?_append, List.getLast?_singleton, Option.some_or, if_true,
    List.dropLast_concat]
  exact unquote_escapes s.toList

example : literalValue "\"\\u00e9\\n\"" = some [0xE9, 0x0A] := by decide

def isDecimalLiteral (ds : String) : Bool :=
  match ds.toList with
  | [] => false
  | ['0'] => true
  | c :: cs => c != '0' && c.isDigit && cs.all Char.isDigit

/-! ## Scopes and statements -/

/-- A value of a running script. -/
inductive Value where
  | number (x : Number)
  | string (units : List UInt16)
deriving Repr, DecidableEq

inductive Halt where
  | syntaxError
  | referenceError
  | outOfFuel
deriving Repr, DecidableEq

/-- The scopes of a running script, innermost first. A scope binds names to values, or
to nothing while a name is in its dead zone. -/
abbrev Env := List (List (String × Option Value))

abbrev Outcome := Except Halt (Env × List Value)

namespace Env

def find (E : Env) (x : String) : Option (Option Value) := E.findSome? (List.lookup x)

theorem find_cons (F : List (String × Option Value)) (E : Env) (x : String) :
    find (F :: E) x = (F.lookup x).or (find E x) := by
  simp only [find, List.findSome?_cons]
  cases F.lookup x <;> rfl

def define : Env → String → Value → Env
  | [], _, _ => []
  | F :: E, x, a => rebind F x (some a) :: E

/-- Runs an assignment: the innermost scope that binds the name gives it the value,
unless the name is in its dead zone; no scope binding it fails too. -/
def assign : Env → String → Value → Except Halt Env
  | [], _, _ => .error .referenceError
  | F :: E, x, a =>
    match F.lookup x with
    | some (some _) => .ok (rebind F x (some a) :: E)
    | some none => .error .referenceError
    | none => (assign E x a).map (F :: ·)

def number (E : Env) (x : String) : Except Halt Number :=
  match E.find x with
  | some (some (.number n)) => .ok n
  | _ => .error .referenceError

end Env

def Expr.eval (E : Env) : Expr → Except Halt Value
  | .number ds => .ok (.number (Number.ofNat (decimalValue ds)))
  | .text s =>
    match literalValue (quote s) with
    | some u => .ok (.string u)
    | none => .error .syntaxError
  | .name x =>
    match E.find x with
    | some (some a) => .ok a
    | _ => .error .referenceError

def seq (step : Env → Stmt → Outcome) : Env → List Stmt → Outcome
  | E, [] => .ok (E, [])
  | E, s :: ss => do
    let (E₁, o₁) ← step E s
    let (E₂, o₂) ← seq step E₁ ss
    pure (E₂, o₁ ++ o₂)

/-- Runs a block with `step`: its scope holds the names it binds, each in its dead zone,
and is dropped at the end. -/
def block (step : Env → Stmt → Outcome) (ss : List Stmt) (E : Env) : Outcome := do
  let (E', o) ← seq step ((bound ss).map (fun x => (x, none)) :: E) ss
  pure (E'.tail, o)

/-- The iterations of a loop counted by the name `i` of the innermost scope: while it is
below `limit`, run `body`, then add one to it. -/
def repeatWhile (i : String) (limit : Number) (body : Env → Outcome) : Nat → Env → Outcome
  | 0, _ => .error .outOfFuel
  | fuel + 1, E => do
    let n ← E.number i
    if n.lt limit then
      let (E₁, o₁) ← body E
      let n' ← E₁.number i
      let E₂ ← E₁.assign i (.number n'.succ)
      let (E₃, o₂) ← repeatWhile i limit body fuel E₂
      pure (E₃, o₁ ++ o₂)
    else pure (E, [])

/-- Runs a statement at nesting depth `depth` with `fuel`. A print writes one value; a
loop counts with its depth's counter, from zero up to its count. -/
def exec : Nat → Nat → Env → Stmt → Outcome
  | 0, _, _, _ => .error .outOfFuel
  | _ + 1, _, E, .bind x v => do
    let a ← v.eval E
    pure (E.define x a, [])
  | _ + 1, _, E, .assign x v => do
    let a ← v.eval E
    let E' ← E.assign x a
    pure (E', [])
  | _ + 1, _, E, .print v => do
    let a ← v.eval E
    pure (E, [a])
  | fuel + 1, depth, E, .loop count body => do
    let limit := Number.ofNat (decimalValue count)
    let start := [(counter depth, some (.number (.finite 0)))]
    let (E', o) ← repeatWhile (counter depth) limit (block (exec fuel (depth + 1)) body) fuel
      (start :: E)
    pure (E'.tail, o)

theorem eval_text (E : Env) (s : String) : (Expr.text s).eval E = .ok (.string (units s)) := by
  simp [Expr.eval, literalValue_quote]

theorem eval_name_of {E : Env} {x : String} {a : Value} (h : E.find x = some (some a)) :
    (Expr.name x).eval E = .ok a := by
  simp [Expr.eval, h]

section Runs

variable {step : Env → Stmt → Outcome} {E E₁ E₂ : Env} {o₁ o₂ : List Value}

theorem seq_cons_of {s : Stmt} {ss : List Stmt} (h₁ : step E s = .ok (E₁, o₁))
    (h₂ : seq step E₁ ss = .ok (E₂, o₂)) : seq step E (s :: ss) = .ok (E₂, o₁ ++ o₂) := by
  simp only [seq, h₁, h₂, bind, Except.bind]
  rfl

theorem seq_singleton_of {s : Stmt} (h : step E s = .ok (E₁, o₁)) : seq step E [s] = .ok (E₁, o₁) := by
  simpa using seq_cons_of h (show seq step E₁ [] = .ok (E₁, []) from rfl)

/-- Statements run one after another: a run of a concatenation is the second run after the
first. -/
theorem seq_append_of {a b : List Stmt} (h₁ : seq step E a = .ok (E₁, o₁))
    (h₂ : seq step E₁ b = .ok (E₂, o₂)) : seq step E (a ++ b) = .ok (E₂, o₁ ++ o₂) := by
  induction a generalizing E o₁ with
  | nil =>
    simp only [seq, Except.ok.injEq, Prod.mk.injEq] at h₁
    obtain ⟨rfl, rfl⟩ := h₁
    simpa using h₂
  | cons s a ih =>
    rcases hs : step E s with e | ⟨E', o'⟩
    · simp only [seq, hs, bind, Except.bind, reduceCtorEq] at h₁
    rcases ha : seq step E' a with e' | ⟨E'', o''⟩ <;>
      simp only [seq, hs, ha, bind, Except.bind, reduceCtorEq] at h₁
    obtain ⟨rfl, rfl⟩ := Prod.mk.inj (Except.ok.inj h₁)
    rw [List.cons_append, seq_cons_of hs (ih ha), List.append_assoc]

theorem block_of {ss : List Stmt} {E' : Env} {o : List Value}
    (h : seq step ((bound ss).map (fun x => (x, none)) :: E) ss = .ok (E', o)) :
    block step ss E = .ok (E'.tail, o) := by
  simp only [block, h, bind, Except.bind]
  rfl

end Runs

section Loops

variable {i : String} {limit : Number} {body : Env → Outcome} {fuel : Nat} {E E₁ E₂ E₃ : Env}
  {n n' : Number} {o₁ o₂ : List Value}

theorem repeatWhile_stop (hn : E.number i = .ok n) (hl : n.lt limit = false) :
    repeatWhile i limit body (fuel + 1) E = .ok (E, []) := by
  simp only [repeatWhile, hn, hl, bind, Except.bind]
  rfl

/-- One iteration: the counter is below the limit, the body runs, the counter goes up by
one, and the iterations go on. -/
theorem repeatWhile_step (hn : E.number i = .ok n) (hl : n.lt limit = true)
    (h₁ : body E = .ok (E₁, o₁)) (hn' : E₁.number i = .ok n')
    (h₂ : E₁.assign i (.number n'.succ) = .ok E₂)
    (h₃ : repeatWhile i limit body fuel E₂ = .ok (E₃, o₂)) :
    repeatWhile i limit body (fuel + 1) E = .ok (E₃, o₁ ++ o₂) := by
  simp only [repeatWhile, hn, hl, h₁, hn', h₂, h₃, bind, Except.bind]
  rfl

end Loops

section Statements

variable {fuel depth : Nat} {E E' : Env} {x : String} {v : Expr} {a : Value}

theorem exec_bind_of (h : v.eval E = .ok a) :
    exec (fuel + 1) depth E (.bind x v) = .ok (E.define x a, []) := by
  simp only [exec, h, bind, Except.bind]
  rfl

theorem exec_assign_of (h : v.eval E = .ok a) (h' : E.assign x a = .ok E') :
    exec (fuel + 1) depth E (.assign x v) = .ok (E', []) := by
  simp only [exec, h, h', bind, Except.bind]
  rfl

theorem exec_print_of (h : v.eval E = .ok a) : exec (fuel + 1) depth E (.print v) = .ok (E, [a]) := by
  simp only [exec, h, bind, Except.bind]
  rfl

theorem seq_exec_of {s : Stmt} {o : List Value} (h : ∀ f, exec (f + 1) depth E s = .ok (E', o)) :
    ∀ f ≥ 1, seq (exec f depth) E [s] = .ok (E', o) := by
  intro f hf
  obtain ⟨f, rfl⟩ : ∃ g, f = g + 1 := ⟨f - 1, by omega⟩
  exact seq_singleton_of (h f)

theorem exec_loop_of {count : String} {body : List Stmt} {o : List Value}
    (h : repeatWhile (counter depth) (Number.ofNat (decimalValue count))
      (block (exec fuel (depth + 1)) body) fuel
      ([(counter depth, some (.number (.finite 0)))] :: E) = .ok (E', o)) :
    exec (fuel + 1) depth E (.loop count body) = .ok (E'.tail, o) := by
  simp only [exec, h, bind, Except.bind]
  rfl

end Statements

/-! ## Scripts the language reads -/

def isBindable (x : String) : Bool :=
  isIdentifierName x && !reservedWords.contains x && !fixedNames.contains x

def Expr.wellFormed : Expr → Bool
  | .number ds => isDecimalLiteral ds
  | .text s => (literalValue (quote s)).isSome
  | .name x => isIdentifierName x && !reservedWords.contains x

mutual

def Stmt.wellFormed : Stmt → Bool
  | .bind x v => isBindable x && v.wellFormed
  | .assign x v => isBindable x && v.wellFormed
  | .print v => v.wellFormed
  | .loop count body => isDecimalLiteral count && decide (bound body).Nodup &&
      Stmt.allWellFormed body

def Stmt.allWellFormed : List Stmt → Bool
  | [] => true
  | s :: ss => s.wellFormed && Stmt.allWellFormed ss

end

def wellFormed (body : List Stmt) : Bool := decide (bound body).Nodup && Stmt.allWellFormed body

/-- Runs a script with `fuel`: the values it prints, in order. -/
def run (fuel : Nat) (body : List Stmt) : Except Halt (List Value) :=
  if wellFormed body then (block (exec fuel 0) body []).map (·.2) else .error .syntaxError

theorem run_of {fuel : Nat} {body : List Stmt} {E : Env} {o : List Value}
    (hw : wellFormed body = true) (h : block (exec fuel 0) body [] = .ok (E, o)) :
    run fuel body = .ok o := by
  simp only [run, hw, if_true, h]
  rfl

theorem allWellFormed_append {a b : List Stmt} (ha : Stmt.allWellFormed a = true)
    (hb : Stmt.allWellFormed b = true) : Stmt.allWellFormed (a ++ b) = true := by
  induction a with
  | nil => simpa using hb
  | cons s a ih =>
    simp only [Stmt.allWellFormed, Bool.and_eq_true] at ha
    simp [Stmt.allWellFormed, ha.1, ih ha.2]

example : run 4 [.bind "x" (.number "1"), .loop "2" [.assign "x" (.text "é\n"),
    .bind "y" (.name "x"), .print (.name "y")], .print (.name "x")] =
    .ok [.string [0xE9, 0x0A], .string [0xE9, 0x0A], .string [0xE9, 0x0A]] := by decide +kernel

end Script

end RuleScript
