import RuleScript.Script.Emit
/-! # Writing, step by step

Writing runs in a state monad that can fail. `Emit.exec` runs a step from a state and
gives its outcome with the state after it; the lemmas here take a successful run of
each writing function apart, so that later proofs never unfold the monad.

* `value_cases` and `declaration_cases` say everything writing a value or a
  declaration can do.
* `nodes_scopes`: writing items binds new names only in the innermost scope, each one
  not visible before, and these are exactly the names the written statements bind with
  `let`; a loop leaves the scopes as it found them.
* `nodes_events`: writing only ever adds events.
-/

namespace RuleScript

namespace Script

def bound : List Stmt → List String
  | [] => []
  | .bind x _ :: ss => x :: bound ss
  | .assign _ _ :: ss => bound ss
  | .print _ :: ss => bound ss
  | .loop _ _ :: ss => bound ss

@[simp] theorem bound_nil : bound [] = [] := rfl

@[simp] theorem bound_append (a b : List Stmt) : bound (a ++ b) = bound a ++ bound b := by
  induction a with
  | nil => rfl
  | cons s ss ih => cases s <;> simp [bound, ih]

@[simp] theorem bound_bind (x : String) (v : Expr) : bound [.bind x v] = [x] := rfl
@[simp] theorem bound_assign (x : String) (v : Expr) : bound [.assign x v] = [] := rfl
@[simp] theorem bound_print (v : Expr) : bound [.print v] = [] := rfl
@[simp] theorem bound_loop (c : String) (body : List Stmt) : bound [.loop c body] = [] := rfl

end Script

namespace Node

mutual

/-- The declarations of an item, those in loop bodies included, in document order. -/
def declarations : Node → List Declaration
  | .declaration d => [d]
  | .loop _ body => declarationsOf body

def declarationsOf : List Node → List Declaration
  | [] => []
  | n :: ns => declarations n ++ declarationsOf ns

end

end Node

def Program.declarations (p : Program) : List Declaration :=
  p.rules.flatMap fun r => Node.declarationsOf r.body

def Value.expr : Value → Script.Expr
  | .literal (.integer digits) => .number digits
  | .literal (.string s) => .text s
  | .ref n => .name (Script.identifier n)

namespace Emitter

theorem visible_iff {s : Emitter} {n : String} : s.visible n = true ↔ ∃ c ∈ s.scopes, n ∈ c := by
  simp [visible]

@[simp] theorem note_scopes (s : Emitter) (e : Event) : (s.note e).scopes = s.scopes := rfl
@[simp] theorem note_events (s : Emitter) (e : Event) :
    (s.note e).events = s.events ++ [e] := rfl
@[simp] theorem declare_events (s : Emitter) (n : String) : (s.declare n).events = s.events :=
  rfl

theorem visible_congr {s t : Emitter} (h : s.scopes = t.scopes) (n : String) :
    s.visible n = t.visible n := by
  simp [visible, h]

theorem visible_of_extend {s t : Emitter} {hd new : List String} {tl : List (List String)}
    (hs : s.scopes = hd :: tl) (ht : t.scopes = (new ++ hd) :: tl) {n : String}
    (h : s.visible n = true) : t.visible n = true := by
  rw [visible_iff, hs] at h
  rw [visible_iff, ht]
  obtain ⟨c, hc, hn⟩ := h
  rcases List.mem_cons.1 hc with rfl | hc
  · exact ⟨new ++ c, List.mem_cons_self, List.mem_append_right _ hn⟩
  · exact ⟨c, List.mem_cons_of_mem _ hc, hn⟩

theorem fresh_of_extend {s t : Emitter} {hd new : List String} {tl : List (List String)}
    (hs : s.scopes = hd :: tl) (ht : t.scopes = (new ++ hd) :: tl) {n : String}
    (h : t.visible n = false) : s.visible n = false ∧ n ∉ new := by
  refine ⟨?_, fun hn => ?_⟩
  · cases hvis : s.visible n
    · rfl
    · rw [visible_of_extend hs ht hvis] at h
      cases h
  · have : t.visible n = true := by
      rw [visible_iff, ht]
      exact ⟨_, List.mem_cons_self, List.mem_append_left _ hn⟩
    rw [this] at h
    cases h

theorem declare_scopes {s : Emitter} {c : List String} {cs : List (List String)} (n : String)
    (h : s.scopes = c :: cs) : (s.declare n).scopes = (n :: c) :: cs := by
  simp [declare, h]

end Emitter

namespace Emit

/-- The outcome of a writing step run from state `s`, and the state after it. -/
def exec {α : Type} (m : EmitM α) (s : Emitter) : Except EmitError α × Emitter := m.run.run s

theorem exec_bind {α β : Type} (m : EmitM α) (f : α → EmitM β) (s : Emitter) :
    exec (m >>= f) s = match exec m s with
      | (.ok a, s') => exec (f a) s'
      | (.error e, s') => (.error e, s') := by
  unfold exec
  rw [ExceptT.run_bind, StateT.run_bind]
  rcases m.run.run s with ⟨_ | a, s'⟩ <;> rfl

theorem bind_ok {α β : Type} {m : EmitM α} {f : α → EmitM β} {s s' : Emitter} {b : β}
    (h : exec (m >>= f) s = (.ok b, s')) :
    ∃ a s₁, exec m s = (.ok a, s₁) ∧ exec (f a) s₁ = (.ok b, s') := by
  rw [exec_bind] at h
  rcases hm : exec m s with ⟨e | a, s₁⟩
  · rw [hm] at h
    cases h
  · rw [hm] at h
    exact ⟨a, s₁, rfl, h⟩

@[simp] theorem exec_pure {α : Type} (a : α) (s : Emitter) :
    exec (pure a : EmitM α) s = (.ok a, s) := rfl
@[simp] theorem exec_get (s : Emitter) : exec (get : EmitM Emitter) s = (.ok s, s) := rfl
@[simp] theorem exec_set (t s : Emitter) : exec (set t : EmitM Unit) s = (.ok (), t) := rfl
@[simp] theorem exec_modify (f : Emitter → Emitter) (s : Emitter) :
    exec (modify f : EmitM Unit) s = (.ok (), f s) := rfl
@[simp] theorem exec_lift {α : Type} (r : Except EmitError α) (s : Emitter) :
    exec (lift r) s = (r, s) := rfl
@[simp] theorem exec_warn (w : Warning) (s : Emitter) :
    exec (warn w) s = (.ok (), s.note (.warning w)) := rfl

theorem referenceName_ok {n x : String} {d : Declaration} (h : referenceName n d = .ok x) :
    x = Script.identifier n ∧ Script.identifier n ∉ Script.keywords := by
  unfold referenceName at h
  dsimp only at h
  split at h
  · cases h
  · rename_i hk
    cases h
    exact ⟨rfl, by simpa using hk⟩

theorem bindingName_ok {n x : String} {d : Declaration} (h : bindingName n d = .ok x) :
    x = Script.identifier n ∧ Script.identifier n ∉ Script.keywords ∧
      Script.identifier n ∉ Script.fixedNames := by
  unfold bindingName at h
  split at h
  · cases h
  · rename_i y hy
    obtain ⟨rfl, hk⟩ := referenceName_ok hy
    split at h
    · cases h
    · rename_i hf
      cases h
      exact ⟨rfl, hk, by simpa using hf⟩

/-- The warning for reading `n` in declaration `d`, if `n` is neither visible in `s` nor
fixed. -/
def readNote (s : Emitter) (n : String) (d : Declaration) : Emitter :=
  if !s.visible n && !Script.fixedNames.contains n then
    s.note (.warning (.undeclared n d.span.line d.span.column))
  else s

/-- Everything writing a value can do: a literal leaves the state alone, and a variable
whose script name is no reserved word may add a warning. -/
theorem value_cases {d : Declaration} {s s' : Emitter} {e : Script.Expr}
    (h : exec (value d) s = (.ok e, s')) :
    e = d.value.expr ∧
      ((∀ n, d.value ≠ .ref n) ∧ s' = s ∨
        ∃ n, d.value = .ref n ∧ Script.identifier n ∉ Script.keywords ∧ s' = readNote s n d) := by
  unfold value at h
  split at h
  · rename_i digits hv
    simp only [exec_pure, Prod.mk.injEq, Except.ok.injEq] at h
    exact ⟨by simp [hv, Value.expr, h.1], .inl ⟨by simp [hv], h.2.symm⟩⟩
  · rename_i t hv
    simp only [exec_pure, Prod.mk.injEq, Except.ok.injEq] at h
    exact ⟨by simp [hv, Value.expr, h.1], .inl ⟨by simp [hv], h.2.symm⟩⟩
  · rename_i n hv
    obtain ⟨x, s₁, h₁, h₂⟩ := bind_ok h
    simp only [exec_lift, Prod.mk.injEq] at h₁
    obtain ⟨hx, rfl⟩ := h₁
    obtain ⟨rfl, hk⟩ := referenceName_ok hx
    obtain ⟨y, s₂, h₃, h₄⟩ := bind_ok h₂
    simp only [exec_get, Prod.mk.injEq, Except.ok.injEq] at h₃
    obtain ⟨rfl, rfl⟩ := h₃
    refine ⟨?_, .inr ⟨n, hv, hk, ?_⟩⟩ <;> split at h₄
    · obtain ⟨u, s₃, h₅, h₆⟩ := bind_ok h₄
      simp only [exec_warn, exec_pure, Prod.mk.injEq, Except.ok.injEq] at h₅ h₆
      simp [hv, Value.expr, h₆.1]
    · simp only [exec_pure, Prod.mk.injEq, Except.ok.injEq] at h₄
      simp [hv, Value.expr, h₄.1]
    · obtain ⟨u, s₃, h₅, h₆⟩ := bind_ok h₄
      simp only [exec_warn, exec_pure, Prod.mk.injEq, Except.ok.injEq] at h₅ h₆
      rw [readNote, if_pos ‹_›, ← h₆.2, ← h₅.2]
    · simp only [exec_pure, Prod.mk.injEq, Except.ok.injEq] at h₄
      rw [readNote, if_neg ‹_›, h₄.2]

/-- Everything writing a declaration can do. `times` writes nothing, and warns at the top
level; `say` prints its value; any other property is assigned if it is visible after its
value is written, and bound with `let` in the innermost scope if not. -/
theorem declaration_cases {depth : Nat} {d : Declaration} {s s' : Emitter}
    {out : List Script.Stmt} (h : exec (declaration depth d) s = (.ok out, s')) :
    (d.property = "times" ∧ out = [] ∧
        s' = if depth = 0 then s.note (.warning (.timesOutsideLoop d.span.line d.span.column))
          else s) ∨
      (d.property ≠ "times" ∧ d.property = "say" ∧
        ∃ v, exec (value d) s = (.ok v, s') ∧ out = [.print v]) ∨
      (d.property ≠ "times" ∧ d.property ≠ "say" ∧
        Script.identifier d.property ∉ Script.keywords ∧
        Script.identifier d.property ∉ Script.fixedNames ∧
        ∃ v s₁, exec (value d) s = (.ok v, s₁) ∧
          (s₁.visible d.property = true ∧ out = [.assign (Script.identifier d.property) v] ∧
              s' = s₁ ∨
            s₁.visible d.property = false ∧ out = [.bind (Script.identifier d.property) v] ∧
              s' = s₁.declare d.property)) := by
  unfold declaration at h
  by_cases ht : d.property = "times"
  · rw [if_pos ht] at h
    dsimp only at h
    by_cases hd : depth = 0
    · rw [if_pos hd] at h
      obtain ⟨u, s₁, h₁, h₂⟩ := bind_ok h
      simp only [exec_warn, exec_pure, Prod.mk.injEq, Except.ok.injEq] at h₁ h₂
      exact .inl ⟨ht, h₂.1.symm, by rw [if_pos hd, ← h₂.2, ← h₁.2]⟩
    · rw [if_neg hd] at h
      simp only [exec_pure, Prod.mk.injEq, Except.ok.injEq] at h
      exact .inl ⟨ht, h.1.symm, by rw [if_neg hd, h.2]⟩
  rw [if_neg ht] at h
  by_cases hs : d.property = "say"
  · rw [if_pos hs] at h
    obtain ⟨v, s₁, h₁, h₂⟩ := bind_ok h
    simp only [exec_pure, Prod.mk.injEq, Except.ok.injEq] at h₂
    exact .inr (.inl ⟨ht, hs, v, by rw [h₁, h₂.2], h₂.1.symm⟩)
  rw [if_neg hs] at h
  obtain ⟨x, s₁, h₁, h₂⟩ := bind_ok h
  simp only [exec_lift, Prod.mk.injEq] at h₁
  obtain ⟨hx, rfl⟩ := h₁
  obtain ⟨rfl, hk, hf⟩ := bindingName_ok hx
  obtain ⟨v, s₂, h₃, h₄⟩ := bind_ok h₂
  obtain ⟨y, s₃, h₅, h₆⟩ := bind_ok h₄
  simp only [exec_get, Prod.mk.injEq, Except.ok.injEq] at h₅
  obtain ⟨rfl, rfl⟩ := h₅
  refine .inr (.inr ⟨ht, hs, hk, hf, v, s₂, h₃, ?_⟩)
  by_cases hv : s₂.visible d.property = true
  · rw [if_pos hv] at h₆
    simp only [exec_pure, Prod.mk.injEq, Except.ok.injEq] at h₆
    exact .inl ⟨hv, h₆.1.symm, h₆.2.symm⟩
  · rw [if_neg hv] at h₆
    obtain ⟨u, s₄, h₇, h₈⟩ := bind_ok h₆
    simp only [exec_set, exec_pure, Prod.mk.injEq, Except.ok.injEq] at h₇ h₈
    exact .inr ⟨by simpa using hv, h₈.1.symm, by rw [← h₈.2, ← h₇.2]⟩

theorem node_declaration (depth : Nat) (d : Declaration) :
    node depth (.declaration d) = declaration depth d := by
  rw [node]

/-- A written loop: its count was settled first, and its body was written in a new
innermost scope, which is dropped again. -/
theorem node_loop_ok {depth : Nat} {form : LoopForm} {body : List Node} {s s' : Emitter}
    {out : List Script.Stmt} (h : exec (node depth (.loop form body)) s = (.ok out, s')) :
    ∃ count inner s₁, loopCount body = .ok count ∧
      exec (nodes (depth + 1) body) { s with scopes := [] :: s.scopes } = (.ok inner, s₁) ∧
      out = [.loop count inner] ∧ s' = { s₁ with scopes := s₁.scopes.tail } := by
  rw [node] at h
  obtain ⟨count, s₁, h₁, h₂⟩ := bind_ok h
  simp only [exec_lift, Prod.mk.injEq] at h₁
  obtain ⟨hc, rfl⟩ := h₁
  obtain ⟨u, s₂, h₃, h₄⟩ := bind_ok h₂
  simp only [exec_modify, Prod.mk.injEq] at h₃
  obtain ⟨-, rfl⟩ := h₃
  obtain ⟨inner, s₃, h₅, h₆⟩ := bind_ok h₄
  obtain ⟨u', s₄, h₇, h₈⟩ := bind_ok h₆
  simp only [exec_modify, exec_pure, Prod.mk.injEq, Except.ok.injEq] at h₇ h₈
  exact ⟨count, inner, s₃, hc, h₅, h₈.1.symm, by rw [← h₈.2, ← h₇.2]⟩

theorem nodes_nil_ok {depth : Nat} {s s' : Emitter} {out : List Script.Stmt}
    (h : exec (nodes depth []) s = (.ok out, s')) : out = [] ∧ s' = s := by
  rw [nodes] at h
  simp only [exec_pure, Prod.mk.injEq, Except.ok.injEq] at h
  exact ⟨h.1.symm, h.2.symm⟩

theorem nodes_cons_ok {depth : Nat} {n : Node} {ns : List Node} {s s' : Emitter}
    {out : List Script.Stmt} (h : exec (nodes depth (n :: ns)) s = (.ok out, s')) :
    ∃ a b s₁, exec (node depth n) s = (.ok a, s₁) ∧ exec (nodes depth ns) s₁ = (.ok b, s') ∧
      out = a ++ b := by
  rw [nodes] at h
  obtain ⟨a, s₁, h₁, h₂⟩ := bind_ok h
  obtain ⟨b, s₂, h₃, h₄⟩ := bind_ok h₂
  simp only [exec_pure, Prod.mk.injEq, Except.ok.injEq] at h₄
  exact ⟨a, b, s₁, h₁, by rw [h₃, h₄.2], h₄.1.symm⟩

theorem rules_nil_ok {s s' : Emitter} {out : List Script.Stmt}
    (h : exec (rules []) s = (.ok out, s')) : out = [] ∧ s' = s := by
  rw [rules] at h
  simp only [exec_pure, Prod.mk.injEq, Except.ok.injEq] at h
  exact ⟨h.1.symm, h.2.symm⟩

theorem rules_cons_ok {r : Rule} {rs : List Rule} {s s' : Emitter} {out : List Script.Stmt}
    (h : exec (rules (r :: rs)) s = (.ok out, s')) :
    ∃ a b s₁, exec (nodes 0 r.body) (s.note (.rule r.selector r.body.length)) = (.ok a, s₁) ∧
      exec (rules rs) s₁ = (.ok b, s') ∧ out = a ++ b := by
  rw [rules] at h
  obtain ⟨u, s₁, h₁, h₂⟩ := bind_ok h
  simp only [exec_modify, Prod.mk.injEq] at h₁
  obtain ⟨-, rfl⟩ := h₁
  obtain ⟨a, s₂, h₃, h₄⟩ := bind_ok h₂
  obtain ⟨b, s₃, h₅, h₆⟩ := bind_ok h₄
  simp only [exec_pure, Prod.mk.injEq, Except.ok.injEq] at h₆
  exact ⟨a, b, s₂, h₃, by rw [h₅, h₆.2], h₆.1.symm⟩

theorem readNote_scopes (s : Emitter) (n : String) (d : Declaration) :
    (readNote s n d).scopes = s.scopes := by
  unfold readNote
  split <;> rfl

theorem readNote_events (s : Emitter) (n : String) (d : Declaration) :
    s.events <+: (readNote s n d).events := by
  unfold readNote
  split
  · exact List.prefix_append _ _
  · exact List.prefix_refl _

theorem readNote_warns {s : Emitter} {n : String} {d : Declaration} :
    s.visible n = true ∨ n ∈ Script.fixedNames ∨
      .warning (.undeclared n d.span.line d.span.column) ∈ (readNote s n d).events := by
  unfold readNote
  by_cases hv : s.visible n = true
  · exact .inl hv
  by_cases hf : n ∈ Script.fixedNames
  · exact .inr (.inl hf)
  rw [if_pos (by simpa [hv] using hf)]
  exact .inr (.inr (by simp))

theorem value_scopes {d : Declaration} {s s' : Emitter} {e : Script.Expr}
    (h : exec (value d) s = (.ok e, s')) : s'.scopes = s.scopes := by
  obtain ⟨-, ⟨-, rfl⟩ | ⟨n, -, -, rfl⟩⟩ := value_cases h
  · rfl
  · exact readNote_scopes s n d

theorem value_events {d : Declaration} {s s' : Emitter} {e : Script.Expr}
    (h : exec (value d) s = (.ok e, s')) : s.events <+: s'.events := by
  obtain ⟨-, ⟨-, rfl⟩ | ⟨n, -, -, rfl⟩⟩ := value_cases h
  · exact List.prefix_refl _
  · exact readNote_events s n d

theorem declaration_events {depth : Nat} {d : Declaration} {s s' : Emitter}
    {out : List Script.Stmt} (h : exec (declaration depth d) s = (.ok out, s')) :
    s.events <+: s'.events := by
  rcases declaration_cases h with ⟨-, -, rfl⟩ | ⟨-, -, v, hv, -⟩ | ⟨-, -, -, -, v, s₁, hv, hw⟩
  · split
    · exact List.prefix_append _ _
    · exact List.prefix_refl _
  · exact value_events hv
  · rcases hw with ⟨-, -, rfl⟩ | ⟨-, -, rfl⟩
    · exact value_events hv
    · simpa using value_events hv

mutual

theorem node_events : ∀ {depth : Nat} {n : Node} {s s' : Emitter} {out : List Script.Stmt},
    exec (node depth n) s = (.ok out, s') → s.events <+: s'.events
  | depth, .declaration d, s, s', out, h => by
    rw [node_declaration] at h
    exact declaration_events h
  | depth, .loop form body, s, s', out, h => by
    obtain ⟨count, inner, s₁, -, h₁, -, rfl⟩ := node_loop_ok h
    have grown := nodes_events h₁
    exact grown

theorem nodes_events : ∀ {depth : Nat} {ns : List Node} {s s' : Emitter}
    {out : List Script.Stmt}, exec (nodes depth ns) s = (.ok out, s') → s.events <+: s'.events
  | depth, [], s, s', out, h => by
    obtain ⟨-, rfl⟩ := nodes_nil_ok h
    exact List.prefix_refl _
  | depth, n :: ns, s, s', out, h => by
    obtain ⟨a, b, s₁, h₁, h₂, -⟩ := nodes_cons_ok h
    exact (node_events h₁).trans (nodes_events h₂)

end

theorem declaration_scopes {depth : Nat} {d : Declaration} {s s' : Emitter}
    {out : List Script.Stmt} (h : exec (declaration depth d) s = (.ok out, s'))
    {hd : List String} {tl : List (List String)} (hs : s.scopes = hd :: tl) :
    ∃ new, s'.scopes = (new ++ hd) :: tl ∧
      Script.bound out = (new.map Script.identifier).reverse ∧ new.Nodup ∧
      ∀ m ∈ new, s.visible m = false ∧ m = d.property := by
  rcases declaration_cases h with ⟨-, rfl, rfl⟩ | ⟨-, -, v, hv, rfl⟩ |
      ⟨-, -, -, -, v, s₁, hv, ⟨-, rfl, rfl⟩ | ⟨hn, rfl, rfl⟩⟩
  · refine ⟨[], ?_, rfl, List.nodup_nil, by simp⟩
    split <;> simpa using hs
  · exact ⟨[], by rw [value_scopes hv, hs]; rfl, rfl, List.nodup_nil, by simp⟩
  · exact ⟨[], by rw [value_scopes hv, hs]; rfl, rfl, List.nodup_nil, by simp⟩
  · have hs₁ : s₁.scopes = hd :: tl := by rw [value_scopes hv, hs]
    refine ⟨[d.property], Emitter.declare_scopes _ hs₁, rfl, by simp, ?_⟩
    intro m hm
    rw [List.mem_singleton] at hm
    subst hm
    exact ⟨by rw [Emitter.visible_congr (value_scopes hv).symm, hn], rfl⟩

mutual

/-- Writing an item binds its new names in the innermost scope only, each one not
visible before; they are the names its statements bind with `let`, latest first. -/
theorem node_scopes : ∀ {depth : Nat} {n : Node} {s s' : Emitter} {out : List Script.Stmt},
    exec (node depth n) s = (.ok out, s') → ∀ {hd : List String} {tl : List (List String)},
    s.scopes = hd :: tl → ∃ new, s'.scopes = (new ++ hd) :: tl ∧
      Script.bound out = (new.map Script.identifier).reverse ∧ new.Nodup ∧
      ∀ m ∈ new, s.visible m = false ∧ m ∈ n.declarations.map (·.property)
  | depth, .declaration d, s, s', out, h, hd, tl, hs => by
    rw [node_declaration] at h
    obtain ⟨new, h₁, h₂, h₃, h₄⟩ := declaration_scopes h hs
    refine ⟨new, h₁, h₂, h₃, fun m hm => ⟨(h₄ m hm).1, ?_⟩⟩
    simp [Node.declarations, (h₄ m hm).2]
  | depth, .loop form body, s, s', out, h, hd, tl, hs => by
    obtain ⟨count, inner, s₁, -, h₁, rfl, rfl⟩ := node_loop_ok h
    obtain ⟨new, h₂, -⟩ := nodes_scopes h₁ (show ([] :: s.scopes) = [] :: hd :: tl by rw [hs])
    exact ⟨[], by simp [h₂], rfl, List.nodup_nil, by simp⟩

theorem nodes_scopes : ∀ {depth : Nat} {ns : List Node} {s s' : Emitter}
    {out : List Script.Stmt}, exec (nodes depth ns) s = (.ok out, s') →
    ∀ {hd : List String} {tl : List (List String)}, s.scopes = hd :: tl →
    ∃ new, s'.scopes = (new ++ hd) :: tl ∧
      Script.bound out = (new.map Script.identifier).reverse ∧ new.Nodup ∧
      ∀ m ∈ new, s.visible m = false ∧ m ∈ (Node.declarationsOf ns).map (·.property)
  | depth, [], s, s', out, h, hd, tl, hs => by
    obtain ⟨rfl, rfl⟩ := nodes_nil_ok h
    exact ⟨[], hs, rfl, List.nodup_nil, by simp⟩
  | depth, n :: ns, s, s', out, h, hd, tl, hs => by
    obtain ⟨a, b, s₁, h₁, h₂, rfl⟩ := nodes_cons_ok h
    obtain ⟨new₁, hs₁, hb₁, hn₁, hf₁⟩ := node_scopes h₁ hs
    obtain ⟨new₂, hs₂, hb₂, hn₂, hf₂⟩ := nodes_scopes h₂ hs₁
    -- a name bound later was not visible after the earlier ones were bound
    have later : ∀ m ∈ new₂, s.visible m = false ∧ m ∉ new₁ := fun m hm =>
      Emitter.fresh_of_extend hs hs₁ (hf₂ m hm).1
    refine ⟨new₂ ++ new₁, by simp [hs₂], by simp [hb₁, hb₂], ?_, ?_⟩
    · exact List.nodup_append.2 ⟨hn₂, hn₁, fun m hm m' hm' he => (later m hm).2 (he ▸ hm')⟩
    · intro m hm
      rcases List.mem_append.1 hm with hm | hm
      · exact ⟨(later m hm).1, by simp [Node.declarationsOf]; exact .inr (by simpa using (hf₂ m hm).2)⟩
      · exact ⟨(hf₁ m hm).1, by simp [Node.declarationsOf]; exact .inl (by simpa using (hf₁ m hm).2)⟩

end

theorem rules_scopes : ∀ {rs : List Rule} {s s' : Emitter} {out : List Script.Stmt},
    exec (rules rs) s = (.ok out, s') → ∀ {hd : List String} {tl : List (List String)},
    s.scopes = hd :: tl → ∃ new, s'.scopes = (new ++ hd) :: tl ∧
      Script.bound out = (new.map Script.identifier).reverse ∧ new.Nodup ∧
      ∀ m ∈ new, s.visible m = false
  | [], s, s', out, h, hd, tl, hs => by
    obtain ⟨rfl, rfl⟩ := rules_nil_ok h
    exact ⟨[], hs, rfl, List.nodup_nil, by simp⟩
  | r :: rs, s, s', out, h, hd, tl, hs => by
    obtain ⟨a, b, s₁, h₁, h₂, rfl⟩ := rules_cons_ok h
    obtain ⟨new₁, hs₁, hb₁, hn₁, hf₁⟩ := nodes_scopes h₁ (by simpa using hs)
    obtain ⟨new₂, hs₂, hb₂, hn₂, hf₂⟩ := rules_scopes h₂ hs₁
    have hv : ∀ m, s.visible m = (s.note (.rule r.selector r.body.length)).visible m :=
      Emitter.visible_congr rfl
    have later : ∀ m ∈ new₂, s.visible m = false ∧ m ∉ new₁ := fun m hm => by
      rw [hv]
      exact Emitter.fresh_of_extend (by simpa using hs) hs₁ (hf₂ m hm)
    refine ⟨new₂ ++ new₁, by simp [hs₂], by simp [hb₁, hb₂], ?_, ?_⟩
    · exact List.nodup_append.2 ⟨hn₂, hn₁, fun m hm m' hm' he => (later m hm).2 (he ▸ hm')⟩
    · intro m hm
      rcases List.mem_append.1 hm with hm | hm
      · exact (later m hm).1
      · rw [hv]
        exact (hf₁ m hm).1

theorem rules_events : ∀ {rs : List Rule} {s s' : Emitter} {out : List Script.Stmt},
    exec (rules rs) s = (.ok out, s') → s.events <+: s'.events
  | [], s, s', out, h => by
    obtain ⟨-, rfl⟩ := rules_nil_ok h
    exact List.prefix_refl _
  | r :: rs, s, s', out, h => by
    obtain ⟨a, b, s₁, h₁, h₂, -⟩ := rules_cons_ok h
    exact ((List.prefix_append _ _).trans (nodes_events h₁)).trans (rules_events h₂)

end Emit

deriving instance DecidableEq for Compiled

namespace Program

/-- A program written as a script: the indent was allowed, and the text, the bound names
and the warnings come from one successful run of writing its rules. -/
theorem compile_ok {p : Program} {o : Options} {out : Compiled} (h : p.compile o = .ok out) :
    o.indent ≤ Options.maxIndent ∧ ∃ body s, Emit.exec (Emit.rules p.rules) {} = (.ok body, s) ∧
      out = ⟨Script.render o.indent body, s.declared, s.warnings⟩ := by
  unfold compile emit at h
  split at h
  · cases h
  rename_i hi
  refine ⟨by omega, ?_⟩
  rcases he : Emit.exec (Emit.rules p.rules) {} with ⟨e | body, s⟩
  · simp only [Emit.exec] at he
    rw [he] at h
    cases h
  · simp only [Emit.exec] at he
    rw [he] at h
    exact ⟨body, s, rfl, by simpa using h.symm⟩

end Program

end RuleScript
