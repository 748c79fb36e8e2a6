import RuleScript.Proofs.Writing
import Mathlib.Control.Monad.Basic
/-! # The scope stack computes lexical visibility

Writing chooses between `let x = v;` and `x = v;`, and decides whether reading a variable
warns, by a stack of scopes. Here the same questions are answered from the text of the
program alone. Its declarations are listed in document order, each with the block it
stands in (`Program.sites`): the top-level block, which all rules share, or the body of a
loop. A name is visible at a declaration when an earlier declaration binds it in a block
that encloses that declaration (`Site.Visible`).

Main statement: `compile_visibility`. When a program is written as a script, the statements
other than loops are, in order, what its declarations are written as, each after those
before it (`Site.statements`): nothing for `times`, a print for `say`, and for any other
property an assignment where the property is visible and a new binding where it is not.
The warnings are, in order, those its declarations give (`Site.warningsOf`): a `times`
directly in a rule body warns, one in a loop body gives none, and a read of a variable that
is neither visible nor a fixed value's name warns.

The proof follows writing item by item. Its invariant is that the stack shows exactly the
names visible in the block being written (`Tracks`), and that no declaration written so far
stands in a loop still to come (`Fresh`).
-/

namespace RuleScript

namespace Script

mutual

/-- The statements a statement amounts to other than loops: itself, or those of a loop's
body in the order they are written. -/
def Stmt.leaves : Stmt → List Stmt
  | .bind x v => [.bind x v]
  | .assign x v => [.assign x v]
  | .print v => [.print v]
  | .loop _ body => Stmt.leavesOf body

/-- The statements of a script other than loops, in the order they are written, those of
loop bodies in place. -/
def Stmt.leavesOf : List Stmt → List Stmt
  | [] => []
  | s :: ss => s.leaves ++ Stmt.leavesOf ss

end

attribute [simp] Stmt.leaves

@[simp] theorem Stmt.leavesOf_nil : Stmt.leavesOf [] = [] := rfl

@[simp] theorem Stmt.leavesOf_cons (s : Stmt) (ss : List Stmt) :
    Stmt.leavesOf (s :: ss) = s.leaves ++ Stmt.leavesOf ss := rfl

@[simp] theorem Stmt.leavesOf_append (a b : List Stmt) :
    Stmt.leavesOf (a ++ b) = Stmt.leavesOf a ++ Stmt.leavesOf b := by
  induction a with
  | nil => rfl
  | cons s ss ih => simp [ih]

end Script

/-! ## Declarations in document order -/

/-- A declaration of a program and the block it stands in. A block is named by a path: the
top-level block, which all rules share, is `[]`, and the body of the loop at place `i` of
the block `P` is `P ++ [i]`. -/
structure Site where
  decl : Declaration
  block : List Nat

namespace Node

mutual

def sitesAt (P : List Nat) (i : Nat) : Node → List Site
  | .declaration d => [⟨d, P⟩]
  | .loop _ body => sitesFrom (P ++ [i]) 0 body

def sitesFrom (P : List Nat) (i : Nat) : List Node → List Site
  | [] => []
  | n :: ns => sitesAt P i n ++ sitesFrom P (i + 1) ns

end

theorem sitesFrom_append (P : List Nat) (i : Nat) (ns ms : List Node) :
    sitesFrom P i (ns ++ ms) = sitesFrom P i ns ++ sitesFrom P (i + ns.length) ms := by
  induction ns generalizing i with
  | nil => simp [sitesFrom]
  | cons n ns ih => simp [sitesFrom, ih, Nat.add_assoc, Nat.add_comm 1]

mutual

theorem sitesAt_block : ∀ (P : List Nat) (i : Nat) (n : Node), ∀ b ∈ sitesAt P i n,
    (n = .declaration b.decl ∧ b.block = P) ∨ P ++ [i] <+: b.block
  | P, i, .declaration d, b, hb => by
    simp only [sitesAt, List.mem_singleton] at hb
    exact .inl (by rw [hb]; exact ⟨rfl, rfl⟩)
  | P, i, .loop _ body, b, hb => by
    rw [sitesAt] at hb
    rcases sitesFrom_block (P ++ [i]) 0 body b hb with h | ⟨j, -, h⟩
    · exact .inr (h ▸ List.prefix_refl _)
    · exact .inr ((List.prefix_append _ _).trans h)

/-- A declaration of the items from place `i` of `P` on stands in `P` itself or in the body
of a loop at a place from `i` on. -/
theorem sitesFrom_block : ∀ (P : List Nat) (i : Nat) (ns : List Node), ∀ b ∈ sitesFrom P i ns,
    b.block = P ∨ ∃ j, i ≤ j ∧ P ++ [j] <+: b.block
  | P, i, [], b, hb => by simp [sitesFrom] at hb
  | P, i, n :: ns, b, hb => by
    rw [sitesFrom, List.mem_append] at hb
    rcases hb with hb | hb
    · rcases sitesAt_block P i n b hb with ⟨-, h⟩ | h
      · exact .inl h
      · exact .inr ⟨i, Nat.le_refl _, h⟩
    · rcases sitesFrom_block P (i + 1) ns b hb with h | ⟨j, hj, h⟩
      · exact .inl h
      · exact .inr ⟨j, by omega, h⟩

end

theorem sitesAt_loop_block (P : List Nat) (i : Nat) (form : LoopForm) (body : List Node) :
    ∀ b ∈ sitesAt P i (.loop form body), P ++ [i] <+: b.block := fun b hb => by
  rcases sitesAt_block P i _ b hb with ⟨h, -⟩ | h
  · cases h
  · exact h

end Node

/-- The declarations of a program in document order, each with its block. All rules share
the top-level block, so the places of their items count on from one rule to the next. -/
def Program.sites (p : Program) : List Site := Node.sitesFrom [] 0 (p.rules.flatMap (·.body))

namespace Site

/-- The declaration `a` binds the name `x`: its property is `x`, which is neither `say` nor
`times`. -/
def Binds (a : Site) (x : String) : Prop := a.decl.property = x ∧ x ≠ "say" ∧ x ≠ "times"

instance (a : Site) (x : String) : Decidable (a.Binds x) :=
  inferInstanceAs (Decidable (_ ∧ _ ∧ _))

/-- The name `x` is visible at the declaration `b` after the declarations `pre`: one of them
binds `x` in a block that encloses the block of `b`. -/
def Visible (pre : List Site) (b : Site) (x : String) : Prop :=
  ∃ a ∈ pre, a.Binds x ∧ a.block <+: b.block

instance (pre : List Site) (b : Site) (x : String) : Decidable (Visible pre b x) :=
  inferInstanceAs (Decidable (∃ a ∈ pre, _))

/-- What the declaration `b` is written as after the declarations `pre`: nothing for
`times`, a print for `say`, and for any other property an assignment where it is visible
and a new binding where it is not. -/
def statement (pre : List Site) (b : Site) : Option Script.Stmt :=
  if b.decl.property = "times" then none
  else if b.decl.property = "say" then some (.print b.decl.value.expr)
  else if Visible pre b b.decl.property then
    some (.assign (Script.identifier b.decl.property) b.decl.value.expr)
  else some (.bind (Script.identifier b.decl.property) b.decl.value.expr)

/-- The warning for the value of `b` after the declarations `pre`: a variable that is
neither visible nor a fixed value's name. -/
def readWarnings (pre : List Site) (b : Site) : List Warning :=
  match b.decl.value with
  | .ref v =>
    if ¬ Visible pre b v ∧ v ∉ Script.fixedNames then
      [.undeclared v b.decl.span.line b.decl.span.column]
    else []
  | .literal _ => []

/-- The warnings the declaration `b` gives after the declarations `pre`. A `times` directly
in a rule body stands outside every loop; one in a loop body gives none; any other
declaration warns about a variable it reads that is not visible. -/
def warnings (pre : List Site) (b : Site) : List Warning :=
  if b.decl.property = "times" then
    if b.block = [] then [.timesOutsideLoop b.decl.span.line b.decl.span.column] else []
  else readWarnings pre b

/-- What the declarations `bs` are written as, each after `pre` and those of `bs` before it. -/
def statements (pre : List Site) : List Site → List Script.Stmt
  | [] => []
  | b :: bs => (b.statement pre).toList ++ statements (pre ++ [b]) bs

def warningsOf (pre : List Site) : List Site → List Warning
  | [] => []
  | b :: bs => b.warnings pre ++ warningsOf (pre ++ [b]) bs

theorem statements_append (pre bs cs : List Site) :
    statements pre (bs ++ cs) = statements pre bs ++ statements (pre ++ bs) cs := by
  induction bs generalizing pre with
  | nil => simp [statements]
  | cons b bs ih => simp [statements, ih]

theorem warningsOf_append (pre bs cs : List Site) :
    warningsOf pre (bs ++ cs) = warningsOf pre bs ++ warningsOf (pre ++ bs) cs := by
  induction bs generalizing pre with
  | nil => simp [warningsOf]
  | cons b bs ih => simp [warningsOf, ih]

end Site

/-! ## What the stack shows -/

namespace Emitter

@[simp] theorem warnings_note_warning (s : Emitter) (w : Warning) :
    (s.note (.warning w)).warnings = s.warnings ++ [w] := by
  simp [warnings, note]

@[simp] theorem warnings_note_rule (s : Emitter) (sel : String) (n : Nat) :
    (s.note (.rule sel n)).warnings = s.warnings := by
  simp [warnings, note]

@[simp] theorem warnings_declare (s : Emitter) (n : String) : (s.declare n).warnings = s.warnings :=
  rfl

@[simp] theorem warnings_scopes (s : Emitter) (c : List (List String)) :
    ({ s with scopes := c } : Emitter).warnings = s.warnings := rfl

@[simp] theorem visible_push (s : Emitter) (x : String) :
    ({ s with scopes := [] :: s.scopes } : Emitter).visible x = s.visible x := by
  simp [visible]

theorem visible_declare {s : Emitter} (h : s.scopes ≠ []) (n x : String) :
    (s.declare n).visible x = true ↔ x = n ∨ s.visible x = true := by
  obtain ⟨c, cs, hs⟩ := List.exists_cons_of_ne_nil h
  simp only [visible_iff, declare_scopes n hs, hs, List.mem_cons, exists_eq_or_imp, or_assoc]

end Emitter

/-- The stack of `s` shows exactly the names visible in the block `P` after the
declarations `pre`. -/
structure Tracks (s : Emitter) (pre : List Site) (P : List Nat) : Prop where
  nonempty : s.scopes ≠ []
  visible : ∀ x, s.visible x = true ↔ ∃ a ∈ pre, a.Binds x ∧ a.block <+: P

/-- No declaration of `pre` stands in the body of a loop at place `i` of the block `P` or
later. -/
def Fresh (pre : List Site) (P : List Nat) (i : Nat) : Prop :=
  ∀ a ∈ pre, ∀ j, i ≤ j → ¬ P ++ [j] <+: a.block

namespace Tracks

variable {s t : Emitter} {pre : List Site} {P : List Nat}

theorem congr (h : Tracks s pre P) (he : t.scopes = s.scopes) : Tracks t pre P :=
  ⟨he ▸ h.nonempty, fun x => by rw [Emitter.visible_congr he]; exact h.visible x⟩

theorem snoc_silent (h : Tracks s pre P) {b : Site} (hb : ∀ x, ¬ b.Binds x) :
    Tracks s (pre ++ [b]) P :=
  ⟨h.nonempty, fun x => by simp [h.visible x, hb x]⟩

theorem snoc_visible (h : Tracks s pre P) {d : Declaration} (hv : s.visible d.property = true) :
    Tracks s (pre ++ [⟨d, P⟩]) P := by
  refine ⟨h.nonempty, fun x => ?_⟩
  rw [h.visible x]
  constructor
  · rintro ⟨a, ha, hx⟩
    exact ⟨a, List.mem_append_left _ ha, hx⟩
  · rintro ⟨a, ha, hx⟩
    rcases List.mem_append.1 ha with ha | ha
    · exact ⟨a, ha, hx⟩
    · rw [List.mem_singleton] at ha
      subst ha
      obtain ⟨⟨hp, -⟩, -⟩ := hx
      exact (h.visible x).1 (hp ▸ hv)

theorem snoc_declare (h : Tracks s pre P) (d : Declaration) (hs : d.property ≠ "say")
    (ht : d.property ≠ "times") : Tracks (s.declare d.property) (pre ++ [⟨d, P⟩]) P := by
  have hne : (s.declare d.property).scopes ≠ [] := by
    obtain ⟨c, cs, hsc⟩ := List.exists_cons_of_ne_nil h.nonempty
    simp [Emitter.declare_scopes _ hsc]
  refine ⟨hne, fun x => ?_⟩
  rw [Emitter.visible_declare h.nonempty, h.visible x]
  constructor
  · rintro (rfl | ⟨a, ha, hx⟩)
    · exact ⟨⟨d, P⟩, by simp, ⟨rfl, hs, ht⟩, List.prefix_refl _⟩
    · exact ⟨a, List.mem_append_left _ ha, hx⟩
  · rintro ⟨a, ha, hx⟩
    rcases List.mem_append.1 ha with ha | ha
    · exact .inr ⟨a, ha, hx⟩
    · rw [List.mem_singleton] at ha
      subst ha
      exact .inl hx.1.1.symm

end Tracks

theorem Site.statement_of {pre : List Site} {b : Site} (ht : b.decl.property ≠ "times")
    (hs : b.decl.property ≠ "say") :
    b.statement pre = some (if Site.Visible pre b b.decl.property then
      .assign (Script.identifier b.decl.property) b.decl.value.expr
      else .bind (Script.identifier b.decl.property) b.decl.value.expr) := by
  simp only [Site.statement, ht, hs, if_false]
  split <;> rfl

/-! ## Writing follows the sites -/

namespace Emit

theorem readNote_warnings {s : Emitter} {pre : List Site} {P : List Nat} (ht : Tracks s pre P)
    {d : Declaration} {n : String} (hv : d.value = .ref n) :
    (readNote s n d).warnings = s.warnings ++ Site.readWarnings pre ⟨d, P⟩ := by
  have hvis : s.visible n = true ↔ Site.Visible pre ⟨d, P⟩ n := ht.visible n
  unfold readNote Site.readWarnings
  simp only [hv]
  by_cases hn : Site.Visible pre ⟨d, P⟩ n
  · simp [hvis.2 hn, hn]
  · have hf : s.visible n = false := by
      cases hc : s.visible n
      · rfl
      · exact absurd (hvis.1 hc) hn
    by_cases hfix : n ∈ Script.fixedNames <;> simp [hf, hn, hfix]

theorem value_sites {d : Declaration} {s s' : Emitter} {e : Script.Expr}
    (h : exec (value d) s = (.ok e, s')) {pre : List Site} {P : List Nat} (ht : Tracks s pre P) :
    e = d.value.expr ∧ s'.scopes = s.scopes ∧
      s'.warnings = s.warnings ++ Site.readWarnings pre ⟨d, P⟩ := by
  obtain ⟨he, ⟨hlit, rfl⟩ | ⟨n, hv, -, rfl⟩⟩ := value_cases h
  · refine ⟨he, rfl, ?_⟩
    unfold Site.readWarnings
    split
    · next v hv => exact absurd hv (hlit v)
    · simp
  · exact ⟨he, readNote_scopes s n d, readNote_warnings ht hv⟩

/-- Writing a declaration does what its site says, and the stack keeps showing the visible
names. -/
theorem declaration_sites {depth : Nat} {d : Declaration} {s s' : Emitter}
    {out : List Script.Stmt} (h : exec (declaration depth d) s = (.ok out, s'))
    {pre : List Site} {P : List Nat} (hd : depth = P.length) (ht : Tracks s pre P) :
    Script.Stmt.leavesOf out = (Site.statement pre ⟨d, P⟩).toList ∧
      s'.warnings = s.warnings ++ Site.warnings pre ⟨d, P⟩ ∧
      Tracks s' (pre ++ [⟨d, P⟩]) P := by
  have silent : d.property = "times" ∨ d.property = "say" → ∀ x, ¬ Site.Binds ⟨d, P⟩ x := by
    rintro (hp | hp) x ⟨rfl, hs, ht⟩ <;> simp_all
  rcases declaration_cases h with ⟨htimes, rfl, rfl⟩ | ⟨htimes, hsay, v, hv, rfl⟩ |
      ⟨htimes, hsay, -, -, v, s₁, hv, hw⟩
  · -- `times` writes nothing; at the top level it warns
    have hP : depth = 0 ↔ P = [] := by rw [hd, List.length_eq_zero_iff]
    refine ⟨by simp [Site.statement, htimes], ?_, ?_⟩
    · by_cases h0 : depth = 0
      · simp [Site.warnings, htimes, h0, hP.1 h0]
      · simp [Site.warnings, htimes, h0, mt hP.2 h0]
    · split
      · exact (ht.snoc_silent (silent (.inl htimes))).congr rfl
      · exact ht.snoc_silent (silent (.inl htimes))
  · obtain ⟨rfl, hs, hw⟩ := value_sites hv ht
    refine ⟨by simp [Site.statement, hsay], by simp [Site.warnings, htimes, hw], ?_⟩
    exact (ht.snoc_silent (silent (.inr hsay))).congr hs
  · obtain ⟨rfl, hs, hwarn⟩ := value_sites hv ht
    have ht₁ : Tracks s₁ pre P := ht.congr hs
    have hvis : s₁.visible d.property = true ↔ Site.Visible pre ⟨d, P⟩ d.property :=
      ht₁.visible d.property
    rw [Site.statement_of htimes hsay]
    rcases hw with ⟨hv₁, rfl, rfl⟩ | ⟨hv₁, rfl, rfl⟩
    · refine ⟨by simp [hvis.1 hv₁], by simp [Site.warnings, htimes, hwarn], ?_⟩
      exact ht₁.snoc_visible hv₁
    · have hn : ¬ Site.Visible pre ⟨d, P⟩ d.property := by rw [← hvis, hv₁]; simp
      refine ⟨by simp [hn], by simp [Site.warnings, htimes, hwarn], ?_⟩
      exact ht₁.snoc_declare d hsay htimes

theorem tracks_push {s : Emitter} {pre : List Site} {P : List Nat} {i : Nat}
    (ht : Tracks s pre P) (hf : Fresh pre P i) :
    Tracks { s with scopes := [] :: s.scopes } pre (P ++ [i]) := by
  refine ⟨by simp, fun x => ?_⟩
  rw [Emitter.visible_push, ht.visible x]
  constructor
  · rintro ⟨a, ha, hx, hp⟩
    exact ⟨a, ha, hx, hp.trans (List.prefix_append _ _)⟩
  · rintro ⟨a, ha, hx, hp⟩
    rcases List.prefix_concat_iff.1 hp with he | hp
    · exact absurd (he ▸ List.prefix_refl _) (hf a ha i (Nat.le_refl _))
    · exact ⟨a, ha, hx, hp⟩

theorem fresh_body {pre : List Site} {P : List Nat} {i : Nat} (hf : Fresh pre P i) :
    Fresh pre (P ++ [i]) 0 := fun a ha _ _ hp =>
  hf a ha i (Nat.le_refl _) ((List.prefix_append _ _).trans hp)

theorem fresh_sitesAt (P : List Nat) (i : Nat) (n : Node) : Fresh (Node.sitesAt P i n) P (i + 1) := by
  intro b hb j hj hp
  have hlen := hp.length_le
  rcases Node.sitesAt_block P i n b hb with ⟨-, he⟩ | hq
  · rw [he, List.length_append, List.length_singleton] at hlen
    omega
  · -- two prefixes of one length are equal
    have e := List.prefix_of_prefix_length_le hq hp (by simp)
    have := List.IsPrefix.eq_of_length e (by simp)
    simp at this
    omega

theorem Fresh.mono {pre : List Site} {P : List Nat} {i k : Nat} (h : Fresh pre P i) (hk : i ≤ k) :
    Fresh pre P k := fun a ha j hj => h a ha j (by omega)

theorem Fresh.append {pre new : List Site} {P : List Nat} {i : Nat} (h : Fresh pre P i)
    (h' : Fresh new P i) : Fresh (pre ++ new) P i := by
  intro a ha
  rcases List.mem_append.1 ha with ha | ha
  · exact h a ha
  · exact h' a ha

mutual

/-- Writing an item at place `i` of the block `P` does what its declarations say, each
after those before it, and the stack keeps showing the names visible in `P`. -/
theorem node_sites : ∀ {depth : Nat} {n : Node} {s s' : Emitter} {out : List Script.Stmt},
    exec (node depth n) s = (.ok out, s') → ∀ {pre : List Site} {P : List Nat} {i : Nat},
    depth = P.length → Tracks s pre P → Fresh pre P i →
    Script.Stmt.leavesOf out = Site.statements pre (Node.sitesAt P i n) ∧
      s'.warnings = s.warnings ++ Site.warningsOf pre (Node.sitesAt P i n) ∧
      Tracks s' (pre ++ Node.sitesAt P i n) P
  | depth, .declaration d, s, s', out, h, pre, P, i, hd, ht, _ => by
    rw [node_declaration] at h
    obtain ⟨hl, hw, ht'⟩ := declaration_sites h hd ht
    refine ⟨?_, ?_, ht'⟩
    · simpa [Node.sitesAt, Site.statements] using hl
    · simpa [Node.sitesAt, Site.warningsOf] using hw
  | depth, .loop form body, s, s', out, h, pre, P, i, hd, ht, hf => by
    obtain ⟨count, inner, s₁, -, h₁, rfl, rfl⟩ := node_loop_ok h
    -- the body is written one level deeper, in the block of this loop
    obtain ⟨hl, hw, ht₁, -⟩ := nodes_sites h₁ (by simp [hd]) (tracks_push ht hf) (fresh_body hf)
    obtain ⟨new, hs₁, -⟩ := nodes_scopes h₁ (rfl : ([] :: s.scopes) = [] :: s.scopes)
    refine ⟨by simpa [Node.sitesAt] using hl, by simpa [Node.sitesAt] using hw, ?_⟩
    -- leaving the loop drops its scope, and its declarations enclose nothing after it
    refine ⟨by simpa [hs₁] using ht.nonempty, fun x => ?_⟩
    rw [Emitter.visible_congr (t := s) (by simp [hs₁]), ht.visible x]
    constructor
    · rintro ⟨a, ha, hx⟩
      exact ⟨a, List.mem_append_left _ ha, hx⟩
    · rintro ⟨a, ha, hx, hp⟩
      rcases List.mem_append.1 ha with ha | ha
      · exact ⟨a, ha, hx, hp⟩
      · have := ((Node.sitesAt_loop_block P i form body a ha).trans hp).length_le
        simp only [List.length_append, List.length_singleton] at this
        omega

theorem nodes_sites : ∀ {depth : Nat} {ns : List Node} {s s' : Emitter} {out : List Script.Stmt},
    exec (nodes depth ns) s = (.ok out, s') → ∀ {pre : List Site} {P : List Nat} {i : Nat},
    depth = P.length → Tracks s pre P → Fresh pre P i →
    Script.Stmt.leavesOf out = Site.statements pre (Node.sitesFrom P i ns) ∧
      s'.warnings = s.warnings ++ Site.warningsOf pre (Node.sitesFrom P i ns) ∧
      Tracks s' (pre ++ Node.sitesFrom P i ns) P ∧
      Fresh (pre ++ Node.sitesFrom P i ns) P (i + ns.length)
  | depth, [], s, s', out, h, pre, P, i, _, ht, hf => by
    obtain ⟨rfl, rfl⟩ := nodes_nil_ok h
    simpa [Node.sitesFrom, Site.statements, Site.warningsOf] using And.intro ht hf
  | depth, n :: ns, s, s', out, h, pre, P, i, hd, ht, hf => by
    obtain ⟨a, b, s₁, h₁, h₂, rfl⟩ := nodes_cons_ok h
    obtain ⟨hl₁, hw₁, ht₁⟩ := node_sites h₁ hd ht hf
    have hf₁ : Fresh (pre ++ Node.sitesAt P i n) P (i + 1) :=
      Fresh.append (Fresh.mono hf (Nat.le_succ i)) (fresh_sitesAt P i n)
    obtain ⟨hl₂, hw₂, ht₂, hf₂⟩ := nodes_sites h₂ hd ht₁ hf₁
    refine ⟨?_, ?_, ?_, ?_⟩
    · rw [Node.sitesFrom, Site.statements_append, Script.Stmt.leavesOf_append, hl₁, hl₂]
    · rw [Node.sitesFrom, Site.warningsOf_append, hw₂, hw₁, List.append_assoc]
    · simpa [Node.sitesFrom] using ht₂
    · simpa [Node.sitesFrom, Nat.add_assoc, Nat.add_comm 1] using hf₂

end

theorem rules_sites : ∀ {rs : List Rule} {s s' : Emitter} {out : List Script.Stmt},
    exec (rules rs) s = (.ok out, s') → ∀ {pre : List Site} {i : Nat},
    Tracks s pre [] → Fresh pre [] i →
    Script.Stmt.leavesOf out = Site.statements pre (Node.sitesFrom [] i (rs.flatMap (·.body))) ∧
      s'.warnings = s.warnings ++ Site.warningsOf pre (Node.sitesFrom [] i (rs.flatMap (·.body)))
  | [], s, s', out, h, pre, i, _, _ => by
    obtain ⟨rfl, rfl⟩ := rules_nil_ok h
    simp [Node.sitesFrom, Site.statements, Site.warningsOf]
  | r :: rs, s, s', out, h, pre, i, ht, hf => by
    obtain ⟨a, b, s₁, h₁, h₂, rfl⟩ := rules_cons_ok h
    obtain ⟨hl₁, hw₁, ht₁, hf₁⟩ := nodes_sites h₁ rfl (ht.congr rfl) hf
    obtain ⟨hl₂, hw₂⟩ := rules_sites h₂ ht₁ hf₁
    rw [List.flatMap_cons, Node.sitesFrom_append]
    refine ⟨?_, ?_⟩
    · rw [Site.statements_append, Script.Stmt.leavesOf_append, hl₁, hl₂]
    · rw [Site.warningsOf_append, hw₂, hw₁, Emitter.warnings_note_rule, List.append_assoc]

end Emit

/-- Writing computes lexical visibility. When a program is written as a script, its
statements other than loops are, in order, what its declarations are written as, each after
those before it: a `times` writes nothing, a `say` prints, and any other declaration
assigns its property where an earlier declaration binds it in an enclosing block and binds
it with `let` where none does. The warnings are, in order, those its declarations give: a
`times` directly in a rule body warns, a `times` in a loop body gives none, and a read of a
variable that no earlier declaration binds in an enclosing block, and that names no fixed
value, warns. -/
theorem compile_visibility (p : Program) (k : Nat) (out : Compiled)
    (h : p.compile { indent := k } = .ok out) :
    ∃ body, out.js = Script.render k body ∧
      Script.Stmt.leavesOf body = Site.statements [] p.sites ∧
      out.warnings = Site.warningsOf [] p.sites := by
  obtain ⟨-, body, s, hrun, rfl⟩ := Program.compile_ok h
  have start : Tracks {} [] [] := ⟨by simp, by simp [Emitter.visible]⟩
  obtain ⟨hl, hw⟩ := Emit.rules_sites hrun start (by simp [Fresh]) (i := 0)
  have none : ({} : Emitter).warnings = [] := rfl
  rw [none, List.nil_append] at hw
  exact ⟨body, rfl, hl, hw⟩

/-- A name bound in a loop body is out of sight after the loop, and a declaration does not
see itself: the read of `y` after the loop and the read in `a: a` both warn, while the
assignment of `x` in the loop reaches the binding before it and the loop's own `times` is
silent. -/
theorem compile_visibility_loop :
    let p : Program := ⟨[⟨"r", [.declaration ⟨"x", .integer 1, ⟨0, 0, 2, 3⟩⟩,
      .declaration ⟨"times", .integer 2, ⟨0, 0, 3, 3⟩⟩,
      .loop .plain [.declaration ⟨"times", .integer 2, ⟨0, 0, 4, 10⟩⟩,
        .declaration ⟨"x", .integer 2, ⟨0, 0, 4, 20⟩⟩, .declaration ⟨"y", .ref "x", ⟨0, 0, 4, 26⟩⟩],
      .declaration ⟨"say", .ref "y", ⟨0, 0, 5, 3⟩⟩,
      .declaration ⟨"a", .ref "a", ⟨0, 0, 6, 3⟩⟩]⟩]⟩
    let out : Compiled := ⟨"let x = 1;\nfor (let _i0 = 0; _i0 < 2; _i0++) \x7b\n  x = 2;\n" ++
      "  let y = x;\n\x7d\nconsole.log(y);\nlet a = a;\n", ["x", "y", "a"],
      [.timesOutsideLoop 3 3, .undeclared "y" 5 3, .undeclared "a" 6 3]⟩
    p.compile ⟨2⟩ = .ok out ∧
      ∃ body, out.js = Script.render 2 body ∧
        Script.Stmt.leavesOf body = Site.statements [] p.sites ∧
        out.warnings = Site.warningsOf [] p.sites := by
  dsimp only
  refine ⟨?compiled, compile_visibility _ 2 _ ?compiled⟩
  decide +kernel

end RuleScript
