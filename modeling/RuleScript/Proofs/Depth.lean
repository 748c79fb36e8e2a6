import RuleScript.Proofs.Writing
import Mathlib.Control.Monad.Basic
/-! # The scope stack follows the nesting depth

Writing keeps two counts of how deep it is: the depth argument of each call, which names a
loop's counter and indents its lines, and the height of the scope stack, which decides
visibility. Nothing checks that they agree; here they are shown to.

The calls that writing a program makes are given by `Emit.Enters` and `Emit.RulesEnter`: an
item is written once those before it are, and the items of a loop body once the loop's count
is settled and its scope pushed.

Main statement: `scope_stack_follows_depth`. Every call that writes an item at depth `d`
finds `d + 1` scopes on the stack; writing an item changes the stack only by adding names to
its innermost scope; a loop that is written leaves the stack as it found it, so nothing bound
in its body is visible after it; and the loop written when the stack holds `h` scopes heads
its lines at level `h - 1` with the counter `_i` of that level.
-/

namespace RuleScript

namespace Script

@[simp] theorem Stmt.linesOf_nil (depth : Nat) : Stmt.linesOf depth [] = [] := by
  rw [Stmt.linesOf]

theorem Stmt.linesOf_cons (depth : Nat) (s : Stmt) (ss : List Stmt) :
    Stmt.linesOf depth (s :: ss) = s.lines depth ++ Stmt.linesOf depth ss := by
  rw [Stmt.linesOf]

@[simp] theorem Stmt.linesOf_append (depth : Nat) (a b : List Stmt) :
    Stmt.linesOf depth (a ++ b) = Stmt.linesOf depth a ++ Stmt.linesOf depth b := by
  induction a with
  | nil => simp
  | cons s ss ih => simp [Stmt.linesOf_cons, ih]

/-- A loop's lines are its head at its own level, its body one level deeper, and its closing
brace. -/
theorem Stmt.linesOf_loop (depth : Nat) (count : String) (body : List Stmt) :
    Stmt.linesOf depth [.loop count body] =
      (depth, loopHead depth count) :: Stmt.linesOf (depth + 1) body ++ [(depth, "\x7d")] := by
  rw [Stmt.linesOf_cons, Stmt.lines, Stmt.linesOf_nil, List.append_nil]

end Script

namespace Emit

/-! ## The calls of writing -/

/-- `Enters d ns s d' n t`: writing the items `ns` at depth `d` from the state `s` calls the
writing of the item `n` at depth `d'` from the state `t`. It calls each item of `ns` once
those before it are written, and each item of a loop body once the loop's count is settled
and a new scope is pushed for the body. -/
inductive Enters : Nat → List Node → Emitter → Nat → Node → Emitter → Prop
  | here {d : Nat} {n : Node} {ns : List Node} {s : Emitter} : Enters d (n :: ns) s d n s
  | body {d d' : Nat} {form : LoopForm} {body ns : List Node} {s t : Emitter} {n : Node}
      {count : String} : loopCount body = .ok count →
      Enters (d + 1) body { s with scopes := [] :: s.scopes } d' n t →
      Enters d (.loop form body :: ns) s d' n t
  | later {d d' : Nat} {m n : Node} {ns : List Node} {s s₁ t : Emitter} {a : List Script.Stmt} :
      exec (node d m) s = (.ok a, s₁) → Enters d ns s₁ d' n t → Enters d (m :: ns) s d' n t

/-- `RulesEnter rs s d n t`: writing the rules `rs` from the state `s` calls the writing of
the item `n` at depth `d` from the state `t`. Each rule's items are written at depth 0 once
the rules before it are written and the rule is noted. -/
inductive RulesEnter : List Rule → Emitter → Nat → Node → Emitter → Prop
  | rule {r : Rule} {rs : List Rule} {s t : Emitter} {d : Nat} {n : Node} :
      Enters 0 r.body (s.note (.rule r.selector r.body.length)) d n t →
      RulesEnter (r :: rs) s d n t
  | later {r : Rule} {rs : List Rule} {s s₁ t : Emitter} {d : Nat} {n : Node}
      {a : List Script.Stmt} :
      exec (nodes 0 r.body) (s.note (.rule r.selector r.body.length)) = (.ok a, s₁) →
      RulesEnter rs s₁ d n t → RulesEnter (r :: rs) s d n t

/-! ## The height of the stack -/

theorem node_height {d : Nat} {n : Node} {s s' : Emitter} {out : List Script.Stmt}
    (h : exec (node d n) s = (.ok out, s')) (hs : s.scopes ≠ []) :
    s'.scopes.length = s.scopes.length := by
  obtain ⟨c, cs, hcs⟩ := List.exists_cons_of_ne_nil hs
  obtain ⟨new, h', -⟩ := node_scopes h hcs
  simp [h', hcs]

theorem nodes_height {d : Nat} {ns : List Node} {s s' : Emitter} {out : List Script.Stmt}
    (h : exec (nodes d ns) s = (.ok out, s')) (hs : s.scopes ≠ []) :
    s'.scopes.length = s.scopes.length := by
  obtain ⟨c, cs, hcs⟩ := List.exists_cons_of_ne_nil hs
  obtain ⟨new, h', -⟩ := nodes_scopes h hcs
  simp [h', hcs]

/-- Every call made while writing items at depth `d` from a stack of `d + 1` scopes finds as
many scopes as its own depth plus one. -/
theorem Enters.height {d d' : Nat} {ns : List Node} {s t : Emitter} {n : Node}
    (h : Enters d ns s d' n t) (hs : s.scopes.length = d + 1) : t.scopes.length = d' + 1 := by
  induction h with
  | here => exact hs
  | body _ _ ih => exact ih (by simp [hs])
  | later hm _ ih =>
    exact ih (by rw [node_height hm (List.ne_nil_of_length_pos (by omega)), hs])

theorem RulesEnter.height {rs : List Rule} {s t : Emitter} {d : Nat} {n : Node}
    (h : RulesEnter rs s d n t) (hs : s.scopes.length = 1) : t.scopes.length = d + 1 := by
  induction h with
  | rule he => exact he.height hs
  | @later r rs s s₁ t d n a hm _ ih =>
    have hne : (s.note (.rule r.selector r.body.length)).scopes ≠ [] :=
      List.ne_nil_of_length_pos (by simp [hs])
    exact ih (by rw [nodes_height hm hne, Emitter.note_scopes, hs])

/-- A written loop leaves the stack exactly as it found it: its body's scope is popped, and
the scopes around it are untouched. -/
theorem node_loop_scopes {d : Nat} {form : LoopForm} {body : List Node} {s s' : Emitter}
    {out : List Script.Stmt} (h : exec (node d (.loop form body)) s = (.ok out, s')) :
    s'.scopes = s.scopes := by
  obtain ⟨count, inner, s₁, -, h₁, -, rfl⟩ := node_loop_ok h
  obtain ⟨new, hs₁, -⟩ := nodes_scopes h₁ (rfl : ([] :: s.scopes) = [] :: s.scopes)
  simp [hs₁]

/-! ## Where a call's lines stand -/

/-- In a successful run, every call succeeds, and its statements, written at its own depth,
are a stretch of the lines of the run. -/
theorem Enters.lines {d d' : Nat} {ns : List Node} {s t : Emitter} {n : Node}
    (h : Enters d ns s d' n t) {out : List Script.Stmt} {s' : Emitter}
    (hrun : exec (nodes d ns) s = (.ok out, s')) :
    ∃ o t', exec (node d' n) t = (.ok o, t') ∧
      Script.Stmt.linesOf d' o <:+: Script.Stmt.linesOf d out := by
  induction h generalizing out s' with
  | here =>
    obtain ⟨a, b, s₁, h₁, -, rfl⟩ := nodes_cons_ok hrun
    exact ⟨a, s₁, h₁, by rw [Script.Stmt.linesOf_append]; exact List.infix_append_left⟩
  | body _ _ ih =>
    obtain ⟨a, b, s₁, h₁, -, rfl⟩ := nodes_cons_ok hrun
    obtain ⟨count, inner, s₂, -, h₂, rfl, -⟩ := node_loop_ok h₁
    -- the body's lines stand one level deeper, between the loop's head and its brace
    obtain ⟨o, t', ho, hinfix⟩ := ih h₂
    refine ⟨o, t', ho, hinfix.trans ?_⟩
    rw [Script.Stmt.linesOf_append, Script.Stmt.linesOf_loop]
    exact ((List.suffix_cons _ _).isInfix.trans List.infix_append_left).trans List.infix_append_left
  | later hm _ ih =>
    obtain ⟨a, b, s₁, h₁, h₂, rfl⟩ := nodes_cons_ok hrun
    rw [hm] at h₁
    obtain ⟨-, rfl⟩ := Prod.mk.inj h₁
    obtain ⟨o, t', ho, hinfix⟩ := ih h₂
    refine ⟨o, t', ho, hinfix.trans ?_⟩
    rw [Script.Stmt.linesOf_append]
    exact List.infix_append_right

theorem RulesEnter.lines {rs : List Rule} {s t : Emitter} {d : Nat} {n : Node}
    (h : RulesEnter rs s d n t) {out : List Script.Stmt} {s' : Emitter}
    (hrun : exec (rules rs) s = (.ok out, s')) :
    ∃ o t', exec (node d n) t = (.ok o, t') ∧
      Script.Stmt.linesOf d o <:+: Script.Stmt.linesOf 0 out := by
  induction h generalizing out s' with
  | rule he =>
    obtain ⟨a, b, s₁, h₁, -, rfl⟩ := rules_cons_ok hrun
    obtain ⟨o, t', ho, hinfix⟩ := he.lines h₁
    refine ⟨o, t', ho, hinfix.trans ?_⟩
    rw [Script.Stmt.linesOf_append]
    exact List.infix_append_left
  | later hm _ ih =>
    obtain ⟨a, b, s₁, h₁, h₂, rfl⟩ := rules_cons_ok hrun
    rw [hm] at h₁
    obtain ⟨-, rfl⟩ := Prod.mk.inj h₁
    obtain ⟨o, t', ho, hinfix⟩ := ih h₂
    refine ⟨o, t', ho, hinfix.trans ?_⟩
    rw [Script.Stmt.linesOf_append]
    exact List.infix_append_right

end Emit

/-- The scope stack follows the nesting depth. While a program is written, every call that
writes an item at depth `d` finds `d + 1` scopes on the stack. Writing an item, from any
state, changes the stack only by adding names to its innermost scope. A written loop leaves
the stack exactly as it found it, so no name bound in its body is visible after it. And when
the program is written, each loop entered with `h` scopes on the stack heads its lines at
level `h - 1`, counting with the counter of that level. -/
theorem scope_stack_follows_depth (p : Program) :
    (∀ d n t, Emit.RulesEnter p.rules {} d n t → t.scopes.length = d + 1) ∧
    (∀ d n s out s' c cs, Emit.exec (Emit.node d n) s = (.ok out, s') → s.scopes = c :: cs →
      ∃ new, s'.scopes = (new ++ c) :: cs) ∧
    (∀ d form body s out s', Emit.exec (Emit.node d (.loop form body)) s = (.ok out, s') →
      s'.scopes = s.scopes ∧ ∀ x, s'.visible x = s.visible x) ∧
    (∀ k out, p.compile { indent := k } = .ok out → ∃ body, out.js = Script.render k body ∧
      ∀ d form b t, Emit.RulesEnter p.rules {} d (.loop form b) t →
        ∃ count, (t.scopes.length - 1, Script.loopHead (t.scopes.length - 1) count) ∈
          Script.Stmt.linesOf 0 body) := by
  refine ⟨fun d n t h => h.height rfl, fun d n s out s' c cs h hs => ?_,
    fun d form body s out s' h => ?_, fun k out h => ?_⟩
  · obtain ⟨new, h', -⟩ := Emit.node_scopes h hs
    exact ⟨new, h'⟩
  · have hs := Emit.node_loop_scopes h
    exact ⟨hs, Emitter.visible_congr hs⟩
  · obtain ⟨-, body, s, hrun, rfl⟩ := Program.compile_ok h
    refine ⟨body, rfl, fun d form b t he => ?_⟩
    obtain ⟨o, t', ho, hinfix⟩ := he.lines hrun
    obtain ⟨count, inner, -, -, -, rfl, -⟩ := Emit.node_loop_ok ho
    have hd : t.scopes.length - 1 = d := by rw [he.height rfl]; rfl
    refine ⟨count, hinfix.subset ?_⟩
    rw [hd, Script.Stmt.linesOf_loop]
    exact List.mem_cons_self

/-- A loop nested first in a loop is written at depth one, with two scopes on the stack, and
its head stands at level one of the script. -/
theorem scope_stack_follows_depth_nested_loops :
    let inner : Node := .loop .nested [.declaration ⟨"say", .integer 1, ⟨0, 0, 2, 5⟩⟩]
    let p : Program :=
      ⟨[⟨"r", [.loop .plain [inner, .declaration ⟨"times", .integer 2, ⟨0, 0, 3, 5⟩⟩]]⟩]⟩
    let t : Emitter := { scopes := [[], []], events := [.rule "r" 1] }
    let out : Compiled := ⟨"for (let _i0 = 0; _i0 < 2; _i0++) \x7b\n" ++
      "  for (let _i1 = 0; _i1 < 1; _i1++) \x7b\n    console.log(1);\n  \x7d\n\x7d\n", [], []⟩
    Emit.RulesEnter p.rules {} 1 inner t ∧ t.scopes.length = 2 ∧ p.compile ⟨2⟩ = .ok out ∧
      ∃ body, out.js = Script.render 2 body ∧
        ∃ count, (1, Script.loopHead 1 count) ∈ Script.Stmt.linesOf 0 body := by
  intro inner p t out
  obtain ⟨hheight, -, -, hwritten⟩ := scope_stack_follows_depth p
  have henter : Emit.RulesEnter p.rules {} 1 inner t := .rule (.body rfl .here)
  have hcompiled : p.compile ⟨2⟩ = .ok out := by decide +kernel
  obtain ⟨body, hjs, hlines⟩ := hwritten 2 out hcompiled
  exact ⟨henter, hheight 1 inner t henter, hcompiled, body, hjs, hlines 1 .nested _ t henter⟩

end RuleScript
