import RuleScript.Proofs.Writing
import Mathlib.Control.Monad.Basic
/-! # The declared names

Writing records a name when it binds it with `let`, unless the name is recorded already
(`Emitter.declared`). Names leave the scope stack when their loop closes, but never the
record, so the record does not follow scoping.

Main statement: `compile_declared`. The declared names of a written program are the names
its declarations assign, in document order, each kept at its first occurrence. The proof
rests on one invariant (`Emitter.Recorded`): every name on the scope stack is recorded. So a
declaration that assigns a visible name, which writing does not record again, assigns a
recorded one, and every declaration that assigns a name records it as `recordName` says.
-/

namespace RuleScript

def recordName (names : List String) (x : String) : List String :=
  if x ∈ names then names else names ++ [x]

theorem recordName_of_mem {names : List String} {x : String} (h : x ∈ names) :
    recordName names x = names := by
  simp [recordName, h]

theorem mem_recordName {names : List String} {x y : String} :
    y ∈ recordName names x ↔ y ∈ names ∨ y = x := by
  unfold recordName
  by_cases h : x ∈ names
  · simp only [h, if_true, iff_self_or]
    rintro rfl
    exact h
  · simp [h]

/-- Recording names one by one after `acc` keeps, in order, the first occurrence of each
name that `acc` does not hold. -/
theorem foldl_recordName (acc xs : List String) :
    xs.foldl recordName acc = acc ++ (xs.filter fun x => x ∉ acc).eraseDups := by
  induction xs generalizing acc with
  | nil => simp
  | cons x xs ih =>
    rw [List.foldl_cons, ih]
    by_cases hx : x ∈ acc
    · simp [recordName, hx]
    · -- `x` is new: it is recorded, and later copies of it are dropped
      have hfilter : (xs.filter fun y => y ∉ acc ++ [x]) =
          ((xs.filter fun y => y ∉ acc).filter fun y => !y == x) := by
        rw [List.filter_filter]
        refine List.filter_congr fun y _ => ?_
        by_cases hy : y = x <;> simp [hy, hx]
      rw [recordName, if_neg hx, List.filter_cons_of_pos (by simpa using hx), List.eraseDups_cons,
        hfilter, List.append_assoc, List.singleton_append]

theorem foldl_recordName_nil (xs : List String) : xs.foldl recordName [] = xs.eraseDups := by
  rw [foldl_recordName, List.nil_append, List.filter_eq_self.2 fun x _ => by simp]

def Declaration.assigned (d : Declaration) : Option String :=
  if d.property = "say" ∨ d.property = "times" then none else some d.property

def Program.assignedNames (p : Program) : List String :=
  p.declarations.filterMap Declaration.assigned

namespace Emitter

theorem declared_declare (s : Emitter) (x : String) :
    (s.declare x).declared = recordName s.declared x := by
  simp [declare, recordName]

/-- Every name on the scope stack of `s` is recorded as declared. -/
def Recorded (s : Emitter) : Prop := ∀ c ∈ s.scopes, ∀ x ∈ c, x ∈ s.declared

theorem Recorded.declare {s : Emitter} (h : s.Recorded) (x : String) : (s.declare x).Recorded := by
  intro c hc y hy
  rw [declared_declare, mem_recordName]
  unfold Emitter.declare at hc
  split at hc
  · cases hc
  · next inner outer hs =>
    rcases List.mem_cons.1 hc with rfl | hc
    · rcases List.mem_cons.1 hy with rfl | hy
      · exact .inr rfl
      · exact .inl (h inner (by simp [hs]) y hy)
    · exact .inl (h c (by simp [hs, hc]) y hy)

theorem Recorded.push {s : Emitter} (h : s.Recorded) :
    ({ s with scopes := [] :: s.scopes } : Emitter).Recorded := by
  intro c hc x hx
  rcases List.mem_cons.1 hc with rfl | hc
  · cases hx
  · exact h c hc x hx

theorem Recorded.pop {s : Emitter} (h : s.Recorded) :
    ({ s with scopes := s.scopes.tail } : Emitter).Recorded :=
  fun c hc x hx => h c (List.mem_of_mem_tail hc) x hx

theorem Recorded.mem_of_visible {s : Emitter} (h : s.Recorded) {x : String}
    (hv : s.visible x = true) : x ∈ s.declared := by
  obtain ⟨c, hc, hx⟩ := visible_iff.1 hv
  exact h c hc x hx

end Emitter

namespace Emit

theorem value_declared {d : Declaration} {s s' : Emitter} {e : Script.Expr}
    (h : exec (value d) s = (.ok e, s')) : s'.declared = s.declared ∧ s'.scopes = s.scopes := by
  obtain ⟨-, ⟨-, rfl⟩ | ⟨n, -, -, rfl⟩⟩ := value_cases h
  · exact ⟨rfl, rfl⟩
  · unfold readNote
    split <;> exact ⟨rfl, rfl⟩

theorem recorded_of_value {d : Declaration} {s s' : Emitter} {e : Script.Expr}
    (h : exec (value d) s = (.ok e, s')) (hr : s.Recorded) : s'.Recorded := by
  obtain ⟨hd, hs⟩ := value_declared h
  intro c hc x hx
  rw [hd]
  exact hr c (hs ▸ hc) x hx

theorem declaration_declared {depth : Nat} {d : Declaration} {s s' : Emitter}
    {out : List Script.Stmt} (h : exec (declaration depth d) s = (.ok out, s'))
    (hr : s.Recorded) :
    s'.declared = ([d].filterMap Declaration.assigned).foldl recordName s.declared ∧
      s'.Recorded := by
  rcases declaration_cases h with ⟨ht, -, rfl⟩ | ⟨-, hs, v, hv, -⟩ |
      ⟨ht, hs, -, -, v, s₁, hv, ⟨hvis, -, rfl⟩ | ⟨-, -, rfl⟩⟩
  · -- a `times` assigns nothing, and at most warns
    have none : Declaration.assigned d = none := by simp [Declaration.assigned, ht]
    refine ⟨by split <;> simp [none, Emitter.note], ?_⟩
    split <;> exact hr
  · have none : Declaration.assigned d = none := by simp [Declaration.assigned, hs]
    exact ⟨by simp [none, (value_declared hv).1], recorded_of_value hv hr⟩
  · -- a visible property is recorded already
    have some : Declaration.assigned d = some d.property := by simp [Declaration.assigned, ht, hs]
    have hr₁ := recorded_of_value hv hr
    rw [← (value_declared hv).1]
    exact ⟨by simp [some, recordName_of_mem (hr₁.mem_of_visible hvis)], hr₁⟩
  · have some : Declaration.assigned d = some d.property := by simp [Declaration.assigned, ht, hs]
    refine ⟨?_, (recorded_of_value hv hr).declare _⟩
    simp [some, Emitter.declared_declare, (value_declared hv).1]

mutual

/-- Writing an item records the names its declarations assign, in document order, and keeps
every name on the stack recorded. -/
theorem node_declared : ∀ {depth : Nat} {n : Node} {s s' : Emitter} {out : List Script.Stmt},
    exec (node depth n) s = (.ok out, s') → s.Recorded →
    s'.declared = (n.declarations.filterMap Declaration.assigned).foldl recordName s.declared ∧
      s'.Recorded
  | depth, .declaration d, s, s', out, h, hr => by
    rw [node_declaration] at h
    simpa [Node.declarations] using declaration_declared h hr
  | depth, .loop form body, s, s', out, h, hr => by
    obtain ⟨count, inner, s₁, -, h₁, -, rfl⟩ := node_loop_ok h
    -- the loop's scope goes when the loop closes; its names stay recorded
    obtain ⟨hd, hr₁⟩ := nodes_declared h₁ hr.push
    exact ⟨by simpa [Node.declarations] using hd, hr₁.pop⟩

theorem nodes_declared : ∀ {depth : Nat} {ns : List Node} {s s' : Emitter}
    {out : List Script.Stmt}, exec (nodes depth ns) s = (.ok out, s') → s.Recorded →
    s'.declared =
        ((Node.declarationsOf ns).filterMap Declaration.assigned).foldl recordName s.declared ∧
      s'.Recorded
  | depth, [], s, s', out, h, hr => by
    obtain ⟨-, rfl⟩ := nodes_nil_ok h
    exact ⟨by simp [Node.declarationsOf], hr⟩
  | depth, n :: ns, s, s', out, h, hr => by
    obtain ⟨a, b, s₁, h₁, h₂, -⟩ := nodes_cons_ok h
    obtain ⟨hd₁, hr₁⟩ := node_declared h₁ hr
    obtain ⟨hd₂, hr₂⟩ := nodes_declared h₂ hr₁
    refine ⟨?_, hr₂⟩
    rw [hd₂, hd₁, Node.declarationsOf, List.filterMap_append, List.foldl_append]

end

theorem rules_declared : ∀ {rs : List Rule} {s s' : Emitter} {out : List Script.Stmt},
    exec (rules rs) s = (.ok out, s') → s.Recorded →
    s'.declared = (((rs.flatMap fun r => Node.declarationsOf r.body).filterMap
      Declaration.assigned).foldl recordName s.declared)
  | [], s, s', out, h, _ => by
    obtain ⟨-, rfl⟩ := rules_nil_ok h
    rfl
  | r :: rs, s, s', out, h, hr => by
    obtain ⟨a, b, s₁, h₁, h₂, -⟩ := rules_cons_ok h
    obtain ⟨hd₁, hr₁⟩ := nodes_declared h₁ hr
    rw [rules_declared h₂ hr₁, hd₁, List.flatMap_cons, List.filterMap_append,
      List.foldl_append]
    rfl

end Emit

/-- The declared names of a written program are the names its declarations assign (every
property other than `say` and `times`), in document order, each kept at its first occurrence,
however the declarations are scoped. -/
theorem compile_declared (p : Program) (k : Nat) (out : Compiled)
    (h : p.compile { indent := k } = .ok out) : out.declared = p.assignedNames.eraseDups := by
  obtain ⟨-, body, s, hrun, rfl⟩ := Program.compile_ok h
  have start : ({} : Emitter).Recorded := by
    intro c hc x hx
    simp only [List.mem_singleton] at hc
    subst hc
    cases hx
  rw [Emit.rules_declared hrun start]
  exact foldl_recordName_nil _

/-- A name bound in two sibling loops and again after them is declared once: the script binds
`x` three times with `let`, and `x` leads the declared names. -/
theorem compile_declared_sibling_loops :
    let p : Program := ⟨[⟨"r", [
      .loop .plain [.declaration ⟨"x", .integer 1, ⟨0, 0, 1, 10⟩⟩],
      .loop .plain [.declaration ⟨"y", .integer 2, ⟨0, 0, 2, 10⟩⟩,
        .declaration ⟨"x", .ref "y", ⟨0, 0, 2, 16⟩⟩],
      .declaration ⟨"x", .integer 3, ⟨0, 0, 3, 3⟩⟩,
      .declaration ⟨"say", .ref "x", ⟨0, 0, 4, 3⟩⟩]⟩]⟩
    let out : Compiled := ⟨"for (let _i0 = 0; _i0 < 1; _i0++) \x7b\n  let x = 1;\n\x7d\n" ++
      "for (let _i0 = 0; _i0 < 1; _i0++) \x7b\n  let y = 2;\n  let x = y;\n\x7d\n" ++
      "let x = 3;\nconsole.log(x);\n", ["x", "y"], []⟩
    p.compile ⟨2⟩ = .ok out ∧ out.declared = p.assignedNames.eraseDups := by
  dsimp only
  refine ⟨?compiled, compile_declared _ 2 _ ?compiled⟩
  decide +kernel

end RuleScript
