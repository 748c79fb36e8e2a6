import RuleScript.Proofs.Writing
/-! # Writing fails at the first fault

Whether a program can be written as a script depends on its text alone, never on what is
visible where. Each declaration and each loop has at most one fault of its own
(`Declaration.fault`, `Node.countFault`), and the faults of a program are listed in the order
writing meets them: rules in order, items in order, and a loop's own fault before those of
its body (`Program.faults`).

Main statement: `compile_fails_at_first_fault`. An indent that is too wide fails before
anything else; otherwise writing fails with the first fault of the program, and succeeds
exactly when there is none. The proof follows writing: from any state, each writing function
fails with the first fault of what it writes (`failure_node`, `failure_nodes`).
-/

namespace RuleScript

/-! ## The faults of a program -/

namespace Declaration

/-- The fault of reading the variable of `d`, if it reads one: its script name is a
reserved word. -/
def readFault (d : Declaration) : Option EmitError :=
  match d.value with
  | .ref v =>
    if Script.identifier v ∈ Script.keywords then
      some (.reservedName (Script.identifier v) d.span.line d.span.column)
    else none
  | .literal _ => none

/-- The fault of writing `d`. A `times` has none: inside a loop its count belongs to the
loop, and outside one it only warns. A `say` fails only on the variable it reads. Any other
property fails first if its script name is a reserved word or the name of a fixed value, and
then on the variable it reads. -/
def fault (d : Declaration) : Option EmitError :=
  if d.property = "times" then none
  else if d.property = "say" then d.readFault
  else if Script.identifier d.property ∈ Script.keywords ∨
      Script.identifier d.property ∈ Script.fixedNames then
    some (.reservedName (Script.identifier d.property) d.span.line d.span.column)
  else d.readFault

end Declaration

namespace Node

/-- The fault of the count of a loop with body `body`, from the `times` items `t₁, t₂, …`
among its direct items: `t₁` must hold an integer literal (a string is shown quoted, a
variable by its name), and then there may be no `t₂`. -/
def countFault (body : List Node) : Option EmitError :=
  match Emit.timesItems body with
  | [] => none
  | t₁ :: more =>
    match t₁.value with
    | .literal (.integer _) =>
      more.head?.map fun t₂ => .duplicateTimes t₂.span.line t₂.span.column t₁.span.line
    | .literal (.string s) => some (.invalidTimes (Script.quote s) t₁.span.line t₁.span.column)
    | .ref n => some (.invalidTimes n t₁.span.line t₁.span.column)

mutual

/-- The faults of an item in the order writing meets them: a loop's own fault comes before
those of its body. -/
def faults : Node → List EmitError
  | .declaration d => d.fault.toList
  | .loop _ body => (countFault body).toList ++ faultsOf body

def faultsOf : List Node → List EmitError
  | [] => []
  | n :: ns => faults n ++ faultsOf ns

end

end Node

/-- The faults of a program in the order writing meets them: rules in order, items in order,
loop bodies in place. -/
def Program.faults (p : Program) : List EmitError := p.rules.flatMap fun r => Node.faultsOf r.body

example : Program.faults ⟨[⟨"r", [.declaration ⟨"times", .ref "new", ⟨0, 0, 1, 5⟩⟩,
    .loop .plain [.declaration ⟨"say", .ref "class", ⟨0, 0, 2, 3⟩⟩,
      .declaration ⟨"times", .string "3", ⟨0, 0, 3, 3⟩⟩]]⟩]⟩ =
    [.invalidTimes "\"3\"" 3 3, .reservedName "class" 2 3] := by decide +kernel

/-! ## No fault is about the indent -/

theorem Declaration.readFault_ne_invalidIndent (d : Declaration) (k : Nat) :
    d.readFault ≠ some (.invalidIndent k) := by
  unfold readFault
  split
  · split <;> simp
  · simp

theorem Declaration.fault_ne_invalidIndent (d : Declaration) (k : Nat) :
    d.fault ≠ some (.invalidIndent k) := by
  unfold fault
  split
  · simp
  · split
    · exact d.readFault_ne_invalidIndent k
    · split
      · simp
      · exact d.readFault_ne_invalidIndent k

theorem Node.countFault_ne_invalidIndent (body : List Node) (k : Nat) :
    countFault body ≠ some (.invalidIndent k) := by
  unfold countFault
  split
  · simp
  · split
    · cases _ : List.head? _ <;> simp_all
    · simp
    · simp

mutual

theorem Node.invalidIndent_not_mem_faults : ∀ (n : Node) (k : Nat), .invalidIndent k ∉ n.faults
  | .declaration d, k => by
    simpa [faults] using d.fault_ne_invalidIndent k
  | .loop _ body, k => by
    simpa [faults, Option.mem_toList] using
      And.intro (countFault_ne_invalidIndent body k) (invalidIndent_not_mem_faultsOf body k)

theorem Node.invalidIndent_not_mem_faultsOf :
    ∀ (ns : List Node) (k : Nat), .invalidIndent k ∉ faultsOf ns
  | [], k => by simp [faultsOf]
  | n :: ns, k => by
    simpa [faultsOf] using
      And.intro (invalidIndent_not_mem_faults n k) (invalidIndent_not_mem_faultsOf ns k)

end

theorem Program.invalidIndent_not_mem_faults (p : Program) (k : Nat) :
    .invalidIndent k ∉ p.faults := by
  simp only [Program.faults, List.mem_flatMap, not_exists, not_and]
  exact fun r _ => Node.invalidIndent_not_mem_faultsOf r.body k

/-! ## Writing reports the first fault -/

namespace Emit

/-- The fault an outcome of writing reports: none for a success. -/
def failure {α : Type} : Except EmitError α → Option EmitError
  | .ok _ => none
  | .error e => some e

@[simp] theorem failure_ok {α : Type} (a : α) :
    failure (.ok a : Except EmitError α) = none := rfl
@[simp] theorem failure_error {α : Type} (e : EmitError) :
    failure (.error e : Except EmitError α) = some e := rfl

theorem failure_eq_some_iff {α : Type} {r : Except EmitError α} {e : EmitError} :
    failure r = some e ↔ r = .error e := by
  cases r <;> simp

theorem failure_eq_none_iff {α : Type} {r : Except EmitError α} :
    failure r = none ↔ ∃ a, r = .ok a := by
  cases r <;> simp

/-- A step followed by another fails as the first does, or else as the second does from the
state the first left. -/
theorem failure_exec_bind {α β : Type} (m : EmitM α) (f : α → EmitM β) (s : Emitter) :
    failure (exec (m >>= f) s).1 = match exec m s with
      | (.ok a, s') => failure (exec (f a) s').1
      | (.error e, _) => some e := by
  rw [exec_bind]
  rcases exec m s with ⟨e | a, s'⟩ <;> rfl

theorem failure_bind_of_safe {α β : Type} {f : α → EmitM β}
    (hf : ∀ a t, failure (exec (f a) t).1 = none) (m : EmitM α) (s : Emitter) :
    failure (exec (m >>= f) s).1 = failure (exec m s).1 := by
  rw [failure_exec_bind]
  rcases exec m s with ⟨e | a, s'⟩
  · rfl
  · exact hf a s'

theorem failure_modify_bind {β : Type} (g : Emitter → Emitter) (f : Unit → EmitM β)
    (s : Emitter) : failure (exec (modify g >>= f) s).1 = failure (exec (f ()) (g s)).1 := by
  rw [failure_exec_bind, exec_modify]

/-- Two steps in a row fail with the first fault of the first, or else with the first fault
of the second from where the first left off: the head of their faults joined. -/
theorem failure_seq {α β : Type} {m : EmitM α} {f : α → EmitM β} {s : Emitter}
    {xs ys : List EmitError} (hm : failure (exec m s).1 = xs.head?)
    (hf : ∀ a t, exec m s = (.ok a, t) → failure (exec (f a) t).1 = ys.head?) :
    failure (exec (m >>= f) s).1 = (xs ++ ys).head? := by
  rw [failure_exec_bind]
  rcases h : exec m s with ⟨e | a, t⟩
  · rw [h, failure_error] at hm
    rw [List.head?_append, ← hm]
    rfl
  · -- the first step has no fault
    rw [h, failure_ok] at hm
    rw [List.head?_eq_none_iff.1 hm.symm, List.nil_append]
    exact hf a t h

theorem failure_referenceName (n : String) (d : Declaration) :
    failure (referenceName n d) = if Script.identifier n ∈ Script.keywords then
      some (.reservedName (Script.identifier n) d.span.line d.span.column) else none := by
  unfold referenceName
  by_cases h : Script.identifier n ∈ Script.keywords <;> simp [h]

theorem failure_bindingName (n : String) (d : Declaration) :
    failure (bindingName n d) = if Script.identifier n ∈ Script.keywords ∨
      Script.identifier n ∈ Script.fixedNames then
      some (.reservedName (Script.identifier n) d.span.line d.span.column) else none := by
  unfold bindingName referenceName
  by_cases hk : Script.identifier n ∈ Script.keywords
  · simp [hk]
  · by_cases hf : Script.identifier n ∈ Script.fixedNames <;> simp [hk, hf]

theorem exec_value_ref {d : Declaration} {n : String} (hv : d.value = .ref n) (s : Emitter) :
    exec (value d) s = match referenceName n d with
      | .error e => (.error e, s)
      | .ok x => (.ok (.name x), readNote s n d) := by
  unfold value
  simp only [hv]
  rw [exec_bind, exec_lift]
  cases referenceName n d with
  | error e => rfl
  | ok x =>
    simp only [exec_bind, exec_get, readNote]
    split <;> rfl

theorem failure_value (d : Declaration) (s : Emitter) :
    failure (exec (value d) s).1 = d.readFault := by
  cases hv : d.value with
  | literal l =>
    unfold value
    cases l <;> simp [hv, Declaration.readFault]
  | ref n =>
    rw [exec_value_ref hv, Declaration.readFault, hv]
    simp only
    rw [← failure_referenceName n d]
    cases referenceName n d <;> rfl

theorem failure_declaration (depth : Nat) (d : Declaration) (s : Emitter) :
    failure (exec (declaration depth d) s).1 = d.fault := by
  unfold declaration Declaration.fault
  by_cases ht : d.property = "times"
  · -- a `times` at most warns
    simp only [ht, if_true]
    split <;> rfl
  simp only [ht, if_false]
  by_cases hs : d.property = "say"
  · simp only [hs, if_true]
    rw [failure_bind_of_safe (fun _ _ => rfl), failure_value]
  simp only [hs, if_false]
  -- any other property: its name is checked before its value is written
  have hname := failure_bindingName d.property d
  rw [failure_exec_bind, exec_lift]
  by_cases hbad : Script.identifier d.property ∈ Script.keywords ∨
      Script.identifier d.property ∈ Script.fixedNames
  · rw [if_pos hbad] at hname ⊢
    cases hb : bindingName d.property d with
    | error e => rw [hb] at hname; exact hname
    | ok x => rw [hb] at hname; cases hname
  · rw [if_neg hbad] at hname ⊢
    cases hb : bindingName d.property d with
    | error e => rw [hb] at hname; cases hname
    | ok x =>
      refine (failure_bind_of_safe (fun v t => ?_) _ _).trans (failure_value d _)
      simp only [exec_bind, exec_get]
      split <;> rfl

theorem failure_loopCount (body : List Node) : failure (loopCount body) = Node.countFault body := by
  unfold loopCount Node.countFault
  cases timesItems body with
  | nil => rfl
  | cons t₁ more =>
    obtain ⟨property, value, span⟩ := t₁
    cases value with
    | ref n => rfl
    | literal l =>
      cases l with
      | string s => rfl
      | integer digits => cases more <;> rfl

mutual

/-- Writing an item, from any state, fails with its first fault, and succeeds if it has
none. -/
theorem failure_node : ∀ (depth : Nat) (n : Node) (s : Emitter),
    failure (exec (node depth n) s).1 = n.faults.head?
  | depth, .declaration d, s => by
    rw [node_declaration, failure_declaration, Node.faults, Option.head?_toList]
  | depth, .loop form body, s => by
    rw [node, Node.faults]
    refine failure_seq (by rw [exec_lift, failure_loopCount, Option.head?_toList]) ?_
    -- the count is settled; the body is written in a new scope, which is dropped again
    intro count t h
    obtain ⟨-, rfl⟩ := Prod.mk.inj ((exec_lift _ s).symm.trans h)
    rw [failure_modify_bind, failure_bind_of_safe, failure_nodes (depth + 1) body]
    intro _ _
    rfl

theorem failure_nodes : ∀ (depth : Nat) (ns : List Node) (s : Emitter),
    failure (exec (nodes depth ns) s).1 = (Node.faultsOf ns).head?
  | depth, [], s => by
    rw [nodes]
    rfl
  | depth, n :: ns, s => by
    rw [nodes, Node.faultsOf]
    refine failure_seq (failure_node depth n s) fun a t _ => ?_
    rw [failure_bind_of_safe (fun _ _ => rfl), failure_nodes depth ns t]

end

theorem failure_rules : ∀ (rs : List Rule) (s : Emitter),
    failure (exec (rules rs) s).1 = (rs.flatMap fun r => Node.faultsOf r.body).head?
  | [], s => by
    rw [rules]
    rfl
  | r :: rs, s => by
    rw [rules, failure_modify_bind, List.flatMap_cons]
    refine failure_seq (failure_nodes 0 r.body _) fun a t _ => ?_
    rw [failure_bind_of_safe (fun _ _ => rfl), failure_rules rs t]

end Emit

/-- Writing a program fails on a too wide indent before anything else, and otherwise with the
program's first fault. -/
theorem Program.failure_compile (p : Program) (o : Options) :
    Emit.failure (p.compile o) = if Options.maxIndent < o.indent then some (.invalidIndent o.indent)
      else p.faults.head? := by
  unfold compile emit
  by_cases hi : Options.maxIndent < o.indent
  · rw [if_pos hi, if_pos hi]
    rfl
  · rw [if_neg hi, if_neg hi]
    have hrun := Emit.failure_rules p.rules {}
    unfold Emit.exec at hrun
    rcases h : (Emit.rules p.rules).run.run {} with ⟨e | body, s⟩ <;> rw [h] at hrun <;>
      exact hrun

/-- Writing fails exactly at the first fault. With an indent wider than `Options.maxIndent`
writing fails on the indent, whatever the program; otherwise it fails with the first fault of
the program in the order writing meets them, and succeeds exactly when there is none. -/
theorem compile_fails_at_first_fault (p : Program) (k : Nat) :
    (∀ e, p.compile { indent := k } = .error e ↔
      if Options.maxIndent < k then e = .invalidIndent k else p.faults.head? = some e) ∧
    ((∃ out, p.compile { indent := k } = .ok out) ↔
      k ≤ Options.maxIndent ∧ p.faults = []) ∧
    (p.compile { indent := k } = .error (.invalidIndent k) ↔ Options.maxIndent < k) := by
  have hc := p.failure_compile { indent := k }
  have errors : ∀ e, p.compile { indent := k } = .error e ↔
      if Options.maxIndent < k then e = .invalidIndent k else p.faults.head? = some e := by
    intro e
    rw [← Emit.failure_eq_some_iff, hc]
    by_cases hi : Options.maxIndent < k
    · simp [hi, eq_comm]
    · simp [hi]
  refine ⟨errors, ?_, ?_⟩
  · rw [← Emit.failure_eq_none_iff, hc]
    by_cases hi : Options.maxIndent < k
    · simp only [hi, if_true, reduceCtorEq, false_iff, not_and]
      exact fun hk => absurd hi (Nat.not_lt.2 hk)
    · simp only [hi, if_false, List.head?_eq_none_iff, Nat.not_lt.1 hi, true_and]
  · rw [errors]
    by_cases hi : Options.maxIndent < k
    · simp [hi]
    · -- no fault of the program is about the indent
      simp only [hi, if_false, iff_false]
      intro hhead
      exact p.invalidIndent_not_mem_faults k (List.mem_of_mem_head? hhead)

end RuleScript
