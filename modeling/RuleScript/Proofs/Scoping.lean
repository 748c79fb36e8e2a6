import RuleScript.Proofs.Names
/-! # Written scripts are well scoped

A `let` of a script is scoped to its block and hoisted: its name is bound from the start
of the block, and using the name before the `let` has run is an error (the name's dead
zone). The head of a loop is a scope of its own, which holds the counter. Here the names
of a script are seen statically: each use of a name comes with the chain of scopes
around it, innermost first (`Frame`), and resolves to the innermost frame whose block
binds the name anywhere (`resolve`).

Main statement: `compile_wellScoped`. When a program whose names are names as the
scanner reads them is written as a script, no block binds a name twice; every
assignment resolves to a `let` that has already run; every name bound is an identifier
that is no reserved word and no fixed name, every name read is one or is fixed, and no
statement uses a loop counter; and if writing warned about no read, every read resolves
to a `let` that has already run, or to a fixed name that no block binds.

The proof goes through the discipline that written scripts keep (`Disciplined`): a `let`
binds a name not bound so far in any enclosing block, an assignment one that is. So no
block ever shadows a name in use, and hoisting cannot capture a use
(`Disciplined.occurrences_good`).
-/

namespace RuleScript

namespace Script

/-- Whether a text is an identifier name of the script language that uses only ASCII:
letters, digits, `_` and `$`, not starting with a digit. -/
def isIdentifierName (x : String) : Bool :=
  match x.toList with
  | [] => false
  | c :: cs => (c.isAlpha || c == '_' || c == '$') &&
      cs.all fun d => d.isAlphanum || d == '_' || d == '$'

def reservedWords : List String :=
  ["await", "break", "case", "catch", "class", "const", "continue", "debugger", "default",
    "delete", "do", "else", "enum", "export", "extends", "false", "finally", "for",
    "function", "if", "import", "in", "instanceof", "new", "null", "return", "super",
    "switch", "this", "throw", "true", "try", "typeof", "var", "void", "while", "with",
    "yield", "implements", "interface", "let", "package", "private", "protected", "public",
    "static"]

def IsBindingIdentifier (x : String) : Prop := isIdentifierName x = true ∧ x ∉ reservedWords

theorem reserved_refused : ∀ w ∈ reservedWords, w ∈ keywords ∨ w ∈ fixedNames := by decide

theorem isIdentifierName_of_user {x : String} (h : isUserName x = true) :
    isIdentifierName x = true := by
  unfold isUserName at h
  unfold isIdentifierName
  cases hx : x.toList with
  | nil => simp [hx] at h
  | cons c cs =>
    simp only [hx, Bool.and_eq_true, List.all_eq_true, Bool.or_eq_true, beq_iff_eq] at h ⊢
    exact ⟨.inl (.inl h.1), fun d hd => (h.2 d hd).elim (fun a => .inl (.inl a))
      (fun b => .inl (.inr b))⟩

theorem bindingIdentifier_of_user {x : String} (hu : isUserName x = true) (hk : x ∉ keywords)
    (hf : x ∉ fixedNames) : IsBindingIdentifier x :=
  ⟨isIdentifierName_of_user hu, fun hr => (reserved_refused x hr).elim hk hf⟩

mutual

def Stmt.blocks : Stmt → List (List Stmt)
  | .loop _ body => body :: blocksIn body
  | .bind _ _ => []
  | .assign _ _ => []
  | .print _ => []

def blocksIn : List Stmt → List (List Stmt)
  | [] => []
  | s :: ss => s.blocks ++ blocksIn ss

end

def blocks (body : List Stmt) : List (List Stmt) := body :: blocksIn body

structure Frame where
  before : List String
  hoisted : List String

/-- The frame a name resolves to in a chain of scopes, innermost first: the innermost one
whose block binds it. `none` leaves the name to the global scope. -/
def resolve : List Frame → String → Option Frame
  | [], _ => none
  | f :: fs, x => if x ∈ f.hoisted then some f else resolve fs x

/-- A name resolves to a `let` that has already run: it is neither global nor in its dead
zone. -/
def Initialized (chain : List Frame) (x : String) : Prop :=
  ∃ f, resolve chain x = some f ∧ x ∈ f.before

inductive Role where
  | binding
  | assignment
  | reading
deriving DecidableEq

/-- A use of a name, with the chain of scopes around it. -/
structure Occurrence where
  role : Role
  name : String
  chain : List Frame

def Expr.occurrences (chain : List Frame) : Expr → List Occurrence
  | .name x => [⟨.reading, x, chain⟩]
  | .number _ => []
  | .text _ => []

mutual

/-- The uses of names in a statement at nesting depth `depth` under `chain`. A print
reads `console`; a loop body is a block inside the head's scope of the counter. -/
def Stmt.occurrences (depth : Nat) (chain : List Frame) : Stmt → List Occurrence
  | .bind x v => v.occurrences chain ++ [⟨.binding, x, chain⟩]
  | .assign x v => v.occurrences chain ++ [⟨.assignment, x, chain⟩]
  | .print v => ⟨.reading, "console", chain⟩ :: v.occurrences chain
  | .loop _ body =>
    occurrencesIn (depth + 1) (⟨[counter depth], [counter depth]⟩ :: chain) (bound body) []
      body

/-- The uses of names in the statements `ss` of a block that binds `hoisted`, under the
scopes `outer`, where `before` have been bound so far. -/
def occurrencesIn (depth : Nat) (outer : List Frame) (hoisted : List String) :
    List String → List Stmt → List Occurrence
  | _, [] => []
  | before, s :: ss =>
    s.occurrences depth (⟨before, hoisted⟩ :: outer) ++
      occurrencesIn depth outer hoisted (bound [s] ++ before) ss

end

def occurrences (body : List Stmt) : List Occurrence := occurrencesIn 0 [] (bound body) [] body

/-! ## The discipline of written scripts -/

/-- A name bound so far in some enclosing block; `env` lists the blocks innermost first. -/
def Visible (env : List (List String)) (x : String) : Prop := ∃ c ∈ env, x ∈ c

def IsBinder (x : String) : Prop := isUserName x = true ∧ x ∉ keywords ∧ x ∉ fixedNames

/-- The name an expression reads, if any, is a user name that is no keyword and, when
`quiet` holds, visible or fixed. -/
def ReadsFrom (quiet : Prop) (env : List (List String)) (v : Expr) : Prop :=
  ∀ y, v = .name y → (isUserName y = true ∧ y ∉ keywords) ∧ (quiet → Visible env y ∨ y ∈ fixedNames)

/-- Statements as they are written. `env` lists the names bound so far in each enclosing
block, innermost first. A `let` binds a name visible in no enclosing block, an assignment
a visible one, and a read is visible or fixed when `quiet` holds. -/
inductive Disciplined (quiet : Prop) : List (List String) → List Stmt → Prop
  | nil {env : List (List String)} : Disciplined quiet env []
  | bind {c : List String} {env : List (List String)} {x : String} {v : Expr}
      {ss : List Stmt} : IsBinder x → ¬ Visible (c :: env) x → ReadsFrom quiet (c :: env) v →
      Disciplined quiet ((x :: c) :: env) ss → Disciplined quiet (c :: env) (.bind x v :: ss)
  | assign {env : List (List String)} {x : String} {v : Expr} {ss : List Stmt} :
      IsBinder x → Visible env x → ReadsFrom quiet env v → Disciplined quiet env ss →
      Disciplined quiet env (.assign x v :: ss)
  | print {env : List (List String)} {v : Expr} {ss : List Stmt} :
      ReadsFrom quiet env v → Disciplined quiet env ss → Disciplined quiet env (.print v :: ss)
  | loop {env : List (List String)} {count : String} {body ss : List Stmt} :
      Disciplined quiet ([] :: env) body → Disciplined quiet env ss →
      Disciplined quiet env (.loop count body :: ss)

namespace Disciplined

variable {quiet quiet' : Prop}

theorem mono (hq : quiet' → quiet) {env : List (List String)} {ss : List Stmt}
    (h : Disciplined quiet env ss) : Disciplined quiet' env ss := by
  have reads : ∀ {env v}, ReadsFrom quiet env v → ReadsFrom quiet' env v :=
    fun hr y hy => ⟨(hr y hy).1, fun q => (hr y hy).2 (hq q)⟩
  induction h with
  | nil => exact .nil
  | bind hb hv hr _ ih => exact .bind hb hv (reads hr) ih
  | assign hb hv hr _ ih => exact .assign hb hv (reads hr) ih
  | print hr _ ih => exact .print (reads hr) ih
  | loop _ _ ihb ih => exact .loop ihb ih

theorem append {c : List String} {env : List (List String)} {a b : List Stmt}
    (ha : Disciplined quiet (c :: env) a)
    (hb : Disciplined quiet (((bound a).reverse ++ c) :: env) b) :
    Disciplined quiet (c :: env) (a ++ b) := by
  generalize he : c :: env = e at ha
  induction ha generalizing c with
  | nil =>
    subst he
    simpa using hb
  | @bind c' env' x v ss hx hv hr _ ih =>
    obtain ⟨rfl, rfl⟩ := List.cons.inj he
    exact .bind hx hv hr (ih (by simpa [bound] using hb) rfl)
  | assign hx hv hr _ ih =>
    subst he
    exact .assign hx hv hr (ih (by simpa [bound] using hb) rfl)
  | print hr _ ih =>
    subst he
    exact .print hr (ih (by simpa [bound] using hb) rfl)
  | loop hbody _ _ ih =>
    subst he
    exact .loop hbody (ih (by simpa [bound] using hb) rfl)

/-- The names a disciplined block binds are binders, distinct, and not visible where
the block starts. -/
theorem bound_fresh {c : List String} {env : List (List String)} {ss : List Stmt}
    (h : Disciplined quiet (c :: env) ss) :
    (bound ss).Nodup ∧ ∀ x ∈ bound ss, IsBinder x ∧ ¬ Visible (c :: env) x := by
  generalize he : c :: env = e at h
  induction h generalizing c with
  | nil => simp [bound]
  | @bind c' env' x v ss hx hv hr _ ih =>
    obtain ⟨rfl, rfl⟩ := List.cons.inj he
    obtain ⟨hn, hf⟩ := ih rfl
    -- a later `let` binds a name not visible once `x` is bound, so neither `x` nor before
    have later : ∀ y ∈ bound ss, IsBinder y ∧ ¬ Visible (c :: env) y ∧ y ≠ x := by
      intro y hy
      obtain ⟨hyb, hyv⟩ := hf y hy
      refine ⟨hyb, fun hvis => hyv ?_, fun hyx => hyv ⟨x :: c, List.mem_cons_self, ?_⟩⟩
      · obtain ⟨d, hd, hyd⟩ := hvis
        rcases List.mem_cons.1 hd with rfl | hd
        · exact ⟨x :: d, List.mem_cons_self, List.mem_cons_of_mem _ hyd⟩
        · exact ⟨d, List.mem_cons_of_mem _ hd, hyd⟩
      · simp [hyx]
    refine ⟨List.nodup_cons.2 ⟨fun hx' => (later x hx').2.2 rfl, hn⟩, ?_⟩
    intro y hy
    rcases List.mem_cons.1 hy with rfl | hy
    · exact ⟨hx, hv⟩
    · exact ⟨(later y hy).1, (later y hy).2.1⟩
  | assign _ _ _ _ ih => exact ih he
  | print _ _ ih => exact ih he
  | loop _ _ _ ih => exact ih he

theorem blocks_nodup {env : List (List String)} {ss : List Stmt}
    (h : Disciplined quiet env ss) : ∀ b ∈ blocksIn ss, (bound b).Nodup := by
  induction h with
  | nil => simp [blocksIn]
  | bind _ _ _ _ ih => simpa [blocksIn, Stmt.blocks] using ih
  | assign _ _ _ _ ih => simpa [blocksIn, Stmt.blocks] using ih
  | print _ _ ih => simpa [blocksIn, Stmt.blocks] using ih
  | loop hbody _ ihb ih =>
    intro b hb
    simp only [blocksIn, Stmt.blocks, List.cons_append, List.mem_cons, List.mem_append] at hb
    rcases hb with rfl | hb | hb
    · exact hbody.bound_fresh.1
    · exact ihb b hb
    · exact ih b hb

end Disciplined

/-! ## Hoisting cannot capture a use -/

/-- A chain of scopes in which no frame hoists a user name that an enclosing frame has
already bound, each frame has bound only names it hoists, and no frame hoists a fixed
name. -/
def Coherent (chain : List Frame) : Prop :=
  chain.Pairwise (fun inner outer => ∀ x ∈ outer.before, isUserName x = true → x ∉ inner.hoisted) ∧
    ∀ f ∈ chain, (∀ x ∈ f.before, x ∈ f.hoisted) ∧ ∀ x ∈ f.hoisted, x ∉ fixedNames

/-- In a coherent chain a user name bound by some frame resolves to a `let` that has run:
no inner frame hoists it. -/
theorem Coherent.initialized {chain : List Frame} (hc : Coherent chain) {x : String}
    (hu : isUserName x = true) (hx : ∃ f ∈ chain, x ∈ f.before) : Initialized chain x := by
  induction chain with
  | nil =>
    obtain ⟨f, hf, -⟩ := hx
    cases hf
  | cons f fs ih =>
    obtain ⟨hp, hfr⟩ := hc
    rw [List.pairwise_cons] at hp
    by_cases hh : x ∈ f.hoisted
    · refine ⟨f, by simp [resolve, hh], ?_⟩
      obtain ⟨g, hg, hxg⟩ := hx
      rcases List.mem_cons.1 hg with rfl | hg
      · exact hxg
      · exact absurd hh (hp.1 g hg x hxg hu)
    · have hr : resolve (f :: fs) x = resolve fs x := by simp [resolve, hh]
      rw [Initialized, hr]
      refine ih ⟨hp.2, fun g hg => hfr g (List.mem_cons_of_mem _ hg)⟩ ?_
      obtain ⟨g, hg, hxg⟩ := hx
      rcases List.mem_cons.1 hg with rfl | hg
      · exact absurd ((hfr g List.mem_cons_self).1 x hxg) hh
      · exact ⟨g, hg, hxg⟩

theorem Coherent.resolve_fixed {chain : List Frame} (hc : Coherent chain) {x : String}
    (hx : x ∈ fixedNames) : resolve chain x = none := by
  induction chain with
  | nil => rfl
  | cons f fs ih =>
    have hf := hc.2 f List.mem_cons_self
    have hh : x ∉ f.hoisted := fun hh => hf.2 x hh hx
    rw [resolve, if_neg hh]
    exact ih ⟨(List.pairwise_cons.1 hc.1).2, fun g hg => hc.2 g (List.mem_cons_of_mem _ hg)⟩

/-- What a use of a name in a written script satisfies: bound and assigned names are
binding identifiers and not fixed, read names are binding identifiers or fixed, no use
names a loop counter; an assignment resolves to a `let` that has run, and so does a read
when `quiet` holds, unless it is a fixed name left to the global scope. -/
def Occurrence.Good (quiet : Prop) (o : Occurrence) : Prop :=
  (o.role = .reading → IsBindingIdentifier o.name ∨ o.name ∈ fixedNames) ∧
    (o.role ≠ .reading → IsBindingIdentifier o.name ∧ o.name ∉ fixedNames) ∧
    (∀ d, o.name ≠ counter d) ∧
    (o.role = .assignment → Initialized o.chain o.name) ∧
    (o.role = .reading → quiet →
      Initialized o.chain o.name ∨ (o.name ∈ fixedNames ∧ resolve o.chain o.name = none))

def Mirrors (env : List (List String)) (chain : List Frame) : Prop :=
  ∀ x, isUserName x = true → (Visible env x ↔ ∃ f ∈ chain, x ∈ f.before)

theorem Mirrors.frame_of_visible {envOuter : List (List String)} {outer : List Frame}
    (hm : Mirrors envOuter outer) (before hoisted : List String) {y : String}
    (hu : isUserName y = true) (hv : Visible (before :: envOuter) y) :
    ∃ f ∈ (⟨before, hoisted⟩ :: outer : List Frame), y ∈ f.before := by
  obtain ⟨d, hd, hyd⟩ := hv
  rcases List.mem_cons.1 hd with rfl | hd
  · exact ⟨_, List.mem_cons_self, hyd⟩
  · obtain ⟨f, hf, hyf⟩ := (hm y hu).1 ⟨d, hd, hyd⟩
    exact ⟨f, List.mem_cons_of_mem _ hf, hyf⟩

theorem counter_not_fixed (d : Nat) : counter d ∉ fixedNames := by
  intro h
  have := identifier_fixed h
  simp only [fixedNames, List.mem_cons, List.not_mem_nil, or_false] at h
  rcases h with h | h | h | h | h | h | h | h | h <;>
    exact absurd (congrArg (fun s => s.toList.head?) h) (by simp [counter])

section Uses

variable {quiet : Prop} {chain : List Frame} {env : List (List String)}

theorem binder_good {x : String} {role : Role} (hx : IsBinder x) (hr : role ≠ .reading)
    (ha : role = .assignment → Initialized chain x) : Occurrence.Good quiet ⟨role, x, chain⟩ :=
  ⟨fun h => absurd h hr, fun _ => ⟨bindingIdentifier_of_user hx.1 hx.2.1 hx.2.2, hx.2.2⟩,
    ne_counter hx.1, ha, fun h => absurd h hr⟩

theorem reads_good {v : Expr} (hv : ReadsFrom quiet env v) (hc : Coherent chain)
    (hm : ∀ x, isUserName x = true → Visible env x → ∃ f ∈ chain, x ∈ f.before) :
    ∀ o ∈ v.occurrences chain, o.Good quiet := by
  cases v with
  | number _ => simp [Expr.occurrences]
  | text _ => simp [Expr.occurrences]
  | name y =>
    intro o ho
    simp only [Expr.occurrences, List.mem_singleton] at ho
    subst ho
    obtain ⟨⟨hu, hk⟩, hq⟩ := hv y rfl
    refine ⟨fun _ => ?_, fun h => absurd rfl h, ne_counter hu, (fun h => by cases h),
      fun _ q => ?_⟩
    · by_cases hf : y ∈ fixedNames
      · exact .inr hf
      · exact .inl (bindingIdentifier_of_user hu hk hf)
    · rcases hq q with hy | hy
      · exact .inl (hc.initialized hu (hm y hu hy))
      · exact .inr ⟨hy, hc.resolve_fixed hy⟩

end Uses

/-- Every use of a name in a disciplined block is good, when the chain around the block
agrees with the discipline's view of it and is coherent, and the block's frame hoists
everything the block binds. -/
theorem Disciplined.occurrences_good {quiet : Prop} {env : List (List String)} {ss : List Stmt}
    (h : Disciplined quiet env ss) :
    ∀ {depth : Nat} {outer : List Frame} {hoisted before : List String}
      {envOuter : List (List String)}, env = before :: envOuter → Mirrors envOuter outer →
      Coherent (⟨before, hoisted⟩ :: outer) → (∀ x ∈ bound ss, x ∈ hoisted) →
      ∀ o ∈ occurrencesIn depth outer hoisted before ss, o.Good quiet := by
  induction h with
  | nil => intros; simp [occurrencesIn] at *
  | @bind c env x v ss hx hnv hr _ ih =>
    intro depth outer hoisted before envOuter he hm hc hb o ho
    obtain ⟨h₁, h₂⟩ := List.cons.inj he
    subst h₁ h₂
    simp only [occurrencesIn, Stmt.occurrences, List.mem_append, List.mem_singleton,
      bound_bind, List.singleton_append] at ho
    rcases ho with (ho | rfl) | ho
    · exact reads_good hr hc (fun y hu hv => hm.frame_of_visible c hoisted hu hv) o ho
    · exact binder_good hx (by decide) (fun h => by cases h)
    · -- the rest of the block sees `x` bound in the block's frame
      have hxh : x ∈ hoisted := hb x (by simp [bound])
      refine ih rfl hm ⟨?_, ?_⟩ (fun y hy => hb y (by simp [bound, hy])) o ho
      · exact List.pairwise_cons.2 ⟨(List.pairwise_cons.1 hc.1).1, (List.pairwise_cons.1 hc.1).2⟩
      · intro f hf
        rcases List.mem_cons.1 hf with rfl | hf
        · refine ⟨fun y hy => ?_, (hc.2 _ List.mem_cons_self).2⟩
          rcases List.mem_cons.1 hy with rfl | hy
          · exact hxh
          · exact (hc.2 _ List.mem_cons_self).1 y hy
        · exact hc.2 f (List.mem_cons_of_mem _ hf)
  | @assign env x v ss hx hv hr _ ih =>
    intro depth outer hoisted before envOuter he hm hc hb o ho
    subst he
    have hvis := fun y (hu : isUserName y = true) hv => hm.frame_of_visible before hoisted hu hv
    simp only [occurrencesIn, Stmt.occurrences, List.mem_append, List.mem_singleton,
      bound_assign, List.nil_append] at ho
    rcases ho with (ho | rfl) | ho
    · exact reads_good hr hc hvis o ho
    · exact binder_good hx (by decide) (fun _ => hc.initialized hx.1 (hvis x hx.1 hv))
    · exact ih rfl hm hc (fun y hy => hb y (by simp [bound, hy])) o ho
  | @print env v ss hr _ ih =>
    intro depth outer hoisted before envOuter he hm hc hb o ho
    subst he
    simp only [occurrencesIn, Stmt.occurrences, List.mem_append, List.mem_cons,
      bound_print, List.nil_append] at ho
    rcases ho with (rfl | ho) | ho
    · have hf : "console" ∈ fixedNames := by decide
      exact ⟨fun _ => .inr hf, fun h => absurd rfl h, fun d he => counter_not_fixed d (he ▸ hf),
        (fun h => by cases h), fun _ _ => .inr ⟨hf, hc.resolve_fixed hf⟩⟩
    · exact reads_good hr hc (fun y hu hv => hm.frame_of_visible before hoisted hu hv) o ho
    · exact ih rfl hm hc (fun y hy => hb y (by simp [bound, hy])) o ho
  | @loop env count body ss hbody _ ihb ih =>
    intro depth outer hoisted before envOuter he hm hc hb o ho
    subst he
    simp only [occurrencesIn, Stmt.occurrences, List.mem_append, bound_loop,
      List.nil_append] at ho
    rcases ho with ho | ho
    · -- the body's frame, inside the head's frame of the counter
      obtain ⟨hn, hfresh⟩ := hbody.bound_fresh
      refine ihb rfl ?_ ⟨?_, ?_⟩ (fun y hy => hy) o ho
      · intro x hu
        constructor
        · rintro ⟨d, hd, hxd⟩
          rcases List.mem_cons.1 hd with rfl | hd
          · exact ⟨_, List.mem_cons_of_mem _ List.mem_cons_self, hxd⟩
          · obtain ⟨f, hf, hxf⟩ := (hm x hu).1 ⟨d, hd, hxd⟩
            exact ⟨f, List.mem_cons_of_mem _ (List.mem_cons_of_mem _ hf), hxf⟩
        · rintro ⟨f, hf, hxf⟩
          rcases List.mem_cons.1 hf with rfl | hf
          · exact absurd (List.mem_singleton.1 hxf) (ne_counter hu depth)
          rcases List.mem_cons.1 hf with rfl | hf
          · exact ⟨_, List.mem_cons_self, hxf⟩
          · obtain ⟨d, hd, hxd⟩ := (hm x hu).2 ⟨f, hf, hxf⟩
            exact ⟨d, List.mem_cons_of_mem _ hd, hxd⟩
      · -- no name the body binds is bound so far in an enclosing frame
        have outerFresh : ∀ f ∈ (⟨before, hoisted⟩ :: outer : List Frame), ∀ x ∈ f.before,
            isUserName x = true → x ∉ bound body := by
          intro f hf x hxf hu hxb
          apply (hfresh x hxb).2
          rcases List.mem_cons.1 hf with rfl | hf
          · exact ⟨_, List.mem_cons_of_mem _ List.mem_cons_self, hxf⟩
          · obtain ⟨d, hd, hxd⟩ := (hm x hu).2 ⟨f, hf, hxf⟩
            exact ⟨d, List.mem_cons_of_mem _ (List.mem_cons_of_mem _ hd), hxd⟩
        refine List.Pairwise.cons ?_ (List.Pairwise.cons ?_ hc.1)
        · intro f hf x hxf hu
          rcases List.mem_cons.1 hf with rfl | hf
          · exact absurd (List.mem_singleton.1 hxf) (ne_counter hu depth)
          · exact outerFresh f hf x hxf hu
        · intro f _ x _ hu hxk
          exact ne_counter hu depth (List.mem_singleton.1 hxk)
      · intro f hf
        rcases List.mem_cons.1 hf with rfl | hf
        · exact ⟨by simp, fun x hx => (hfresh x hx).1.2.2⟩
        rcases List.mem_cons.1 hf with rfl | hf
        · exact ⟨fun x hx => hx, fun x hx => by
            rw [List.mem_singleton.1 hx]
            exact counter_not_fixed depth⟩
        · exact hc.2 f hf
    · exact ih rfl hm hc (fun y hy => hb y (by simp [bound, hy])) o ho

end Script

/-! ## Written scripts keep the discipline -/

namespace Warning

def isUndeclared : Warning → Bool
  | .undeclared _ _ _ => true
  | .timesOutsideLoop _ _ => false

end Warning

def Quiet (events : List Event) : Prop := ∀ n line column, .warning (.undeclared n line column) ∉ events

theorem Quiet.of_prefix {l₁ l₂ : List Event} (h : l₁ <+: l₂) (hq : Quiet l₂) : Quiet l₁ :=
  fun n line column hm => hq n line column (h.subset hm)

theorem quiet_iff_warnings (s : Emitter) :
    Quiet s.events ↔ ∀ w ∈ s.warnings, w.isUndeclared = false := by
  constructor
  · intro hq w hw
    simp only [Emitter.warnings, List.mem_filterMap] at hw
    obtain ⟨e, he, hew⟩ := hw
    cases e with
    | rule _ _ => cases hew
    | warning w' =>
      cases hew
      cases w with
      | undeclared n line column => exact absurd he (hq n line column)
      | timesOutsideLoop _ _ => rfl
  · intro hw n line column he
    have := hw (.undeclared n line column) (List.mem_filterMap.2 ⟨_, he, rfl⟩)
    cases this

theorem Declaration.named_property {d : Declaration} (h : d.named = true) :
    Scan.isName d.property = true := by
  simp only [Declaration.named, Bool.and_eq_true] at h
  exact h.1

theorem Declaration.named_ref {d : Declaration} (h : d.named = true) {n : String}
    (hv : d.value = .ref n) : Scan.isName n = true := by
  simp only [Declaration.named, hv, Bool.and_eq_true] at h
  exact h.2

namespace Emitter

def env (s : Emitter) : List (List String) := s.scopes.map (·.map Script.identifier)

def Named (s : Emitter) : Prop := ∀ c ∈ s.scopes, ∀ m ∈ c, Scan.isName m = true

/-- Spelled for the script, a program name is visible exactly when the scope stack holds
it. -/
theorem visible_env {s : Emitter} (hs : s.Named) {n : String} (hn : Scan.isName n = true) :
    Script.Visible s.env (Script.identifier n) ↔ s.visible n = true := by
  rw [visible_iff]
  constructor
  · rintro ⟨c, hc, hnc⟩
    simp only [env, List.mem_map] at hc
    obtain ⟨c', hc', rfl⟩ := hc
    obtain ⟨m, hm, he⟩ := List.mem_map.1 hnc
    rw [← Script.identifier_inj (hs c' hc' m hm) hn he]
    exact ⟨c', hc', hm⟩
  · rintro ⟨c, hc, hnc⟩
    exact ⟨c.map Script.identifier, List.mem_map_of_mem hc, List.mem_map_of_mem hnc⟩

end Emitter

namespace Emit

open Script

/-- The value a declaration reads is a user name that is no keyword, and visible or fixed
unless writing warned about it. -/
theorem value_reads {d : Declaration} {s s' : Emitter} {e : Expr}
    (h : exec (value d) s = (.ok e, s')) (hd : d.named = true) (hs : s.Named) :
    ReadsFrom (Quiet s'.events) s.env e := by
  obtain ⟨rfl, ⟨hl, -⟩ | ⟨n, hv, hk, rfl⟩⟩ := value_cases h
  · intro y hy
    cases hv : d.value with
    | ref n => exact absurd hv (hl n)
    | literal l => cases l <;> simp [hv, Value.expr] at hy
  · intro y hy
    simp only [hv, Value.expr, Expr.name.injEq] at hy
    subst hy
    have hn := d.named_ref hd hv
    refine ⟨⟨isUserName_identifier hn, hk⟩, fun hq => ?_⟩
    rcases readNote_warns (s := s) (n := n) (d := d) with hvis | hf | hw
    · exact .inl ((Emitter.visible_env hs hn).2 hvis)
    · exact .inr (by rw [identifier_fixed hf]; exact hf)
    · exact absurd hw (hq _ _ _)

theorem declaration_disciplined {depth : Nat} {d : Declaration} {s s' : Emitter}
    {out : List Stmt} (h : exec (declaration depth d) s = (.ok out, s'))
    (hd : d.named = true) (hs : s.Named) (hne : s.scopes ≠ []) :
    Disciplined (Quiet s'.events) s.env out := by
  have hp := d.named_property hd
  rcases declaration_cases h with ⟨-, rfl, -⟩ | ⟨-, -, v, hv, rfl⟩ |
      ⟨-, -, hk, hf, v, s₁, hv, hw⟩
  · exact .nil
  · exact .print (value_reads hv hd hs) .nil
  · have hb : IsBinder (identifier d.property) := ⟨isUserName_identifier hp, hk, hf⟩
    have hvis : ∀ b, s₁.visible d.property = b → s.visible d.property = b := by
      intro b hb
      rw [Emitter.visible_congr (value_scopes hv).symm, hb]
    rcases hw with ⟨hvs, rfl, rfl⟩ | ⟨hvs, rfl, rfl⟩
    · exact .assign hb ((Emitter.visible_env hs hp).2 (hvis _ hvs)) (value_reads hv hd hs) .nil
    · obtain ⟨c, cs, hc⟩ := List.exists_cons_of_ne_nil hne
      have he : s.env = c.map identifier :: cs.map (·.map identifier) := by
        simp [Emitter.env, hc]
      have hnv : ¬ Visible s.env (identifier d.property) := by
        rw [Emitter.visible_env hs hp, hvis _ hvs]
        simp
      rw [he] at hnv ⊢
      exact .bind hb hnv (by simpa [he] using value_reads hv hd hs) .nil

theorem named_push {s : Emitter} (hs : s.Named) : Emitter.Named { s with scopes := [] :: s.scopes } := by
  intro c hc m hm
  rcases List.mem_cons.1 hc with rfl | hc
  · cases hm
  · exact hs c hc m hm

theorem named_extend {s t : Emitter} {hd new : List String} {tl : List (List String)}
    (hs : s.Named) (h₀ : s.scopes = hd :: tl) (h₁ : t.scopes = (new ++ hd) :: tl)
    (hnew : ∀ m ∈ new, Scan.isName m = true) : t.Named := by
  intro c hc m hm
  rw [h₁] at hc
  rcases List.mem_cons.1 hc with rfl | hc
  · rcases List.mem_append.1 hm with hm | hm
    · exact hnew m hm
    · exact hs _ (by simp [h₀]) m hm
  · exact hs c (by simp [h₀, hc]) m hm

theorem env_extend {s t : Emitter} {hd new : List String} {tl : List (List String)}
    {out : List Stmt} (h₀ : s.scopes = hd :: tl) (h₁ : t.scopes = (new ++ hd) :: tl)
    (hb : bound out = (new.map identifier).reverse) :
    s.env = hd.map identifier :: tl.map (·.map identifier) ∧
      t.env = ((bound out).reverse ++ hd.map identifier) :: tl.map (·.map identifier) := by
  simp [Emitter.env, h₀, h₁, hb]

mutual

theorem node_disciplined : ∀ {depth : Nat} {n : Node} {s s' : Emitter} {out : List Stmt},
    exec (node depth n) s = (.ok out, s') → (∀ d ∈ n.declarations, d.named = true) →
    s.Named → s.scopes ≠ [] → Disciplined (Quiet s'.events) s.env out
  | depth, .declaration d, s, s', out, h, hn, hs, hne => by
    rw [node_declaration] at h
    exact declaration_disciplined h (hn d (by simp [Node.declarations])) hs hne
  | depth, .loop form body, s, s', out, h, hn, hs, hne => by
    obtain ⟨count, inner, s₁, -, h₁, rfl, rfl⟩ := node_loop_ok h
    have hbody := nodes_disciplined h₁ (by simpa [Node.declarations] using hn) (named_push hs)
      (by simp)
    exact .loop (by simpa [Emitter.env] using hbody) .nil

theorem nodes_disciplined : ∀ {depth : Nat} {ns : List Node} {s s' : Emitter} {out : List Stmt},
    exec (nodes depth ns) s = (.ok out, s') → (∀ d ∈ Node.declarationsOf ns, d.named = true) →
    s.Named → s.scopes ≠ [] → Disciplined (Quiet s'.events) s.env out
  | depth, [], s, s', out, h, _, _, _ => by
    obtain ⟨rfl, rfl⟩ := nodes_nil_ok h
    exact .nil
  | depth, n :: ns, s, s', out, h, hn, hs, hne => by
    obtain ⟨a, b, s₁, h₁, h₂, rfl⟩ := nodes_cons_ok h
    obtain ⟨c, cs, hc⟩ := List.exists_cons_of_ne_nil hne
    obtain ⟨new, hs₁, hb, -, hf⟩ := node_scopes h₁ hc
    have hnamed : s₁.Named := named_extend hs hc hs₁ fun m hm => by
      obtain ⟨d, hd, rfl⟩ := List.mem_map.1 (hf m hm).2
      exact Declaration.named_property (hn d (by simp [Node.declarationsOf, hd]))
    have ha := node_disciplined h₁ (fun d hd => hn d (by simp [Node.declarationsOf, hd])) hs hne
    have hb' := nodes_disciplined h₂ (fun d hd => hn d (by simp [Node.declarationsOf, hd]))
      hnamed (by simp [hs₁])
    obtain ⟨he, he₁⟩ := env_extend hc hs₁ hb
    rw [he] at ha ⊢
    rw [he₁] at hb'
    exact Disciplined.append (ha.mono (Quiet.of_prefix (nodes_events h₂))) hb'

end

theorem rules_disciplined : ∀ {rs : List Rule} {s s' : Emitter} {out : List Stmt},
    exec (rules rs) s = (.ok out, s') →
    (∀ r ∈ rs, ∀ d ∈ Node.declarationsOf r.body, d.named = true) →
    s.Named → s.scopes ≠ [] → Disciplined (Quiet s'.events) s.env out
  | [], s, s', out, h, _, _, _ => by
    obtain ⟨rfl, rfl⟩ := rules_nil_ok h
    exact .nil
  | r :: rs, s, s', out, h, hn, hs, hne => by
    obtain ⟨a, b, s₁, h₁, h₂, rfl⟩ := rules_cons_ok h
    obtain ⟨c, cs, hc⟩ := List.exists_cons_of_ne_nil hne
    obtain ⟨new, hs₁, hb, -, hf⟩ := nodes_scopes h₁ (by simpa using hc)
    have hnamed : s₁.Named := named_extend hs hc hs₁ fun m hm => by
      obtain ⟨d, hd, rfl⟩ := List.mem_map.1 (hf m hm).2
      exact Declaration.named_property (hn r List.mem_cons_self d hd)
    have ha := nodes_disciplined h₁ (hn r List.mem_cons_self) hs (by simpa using hne)
    have hb' := rules_disciplined h₂ (fun r' hr' => hn r' (List.mem_cons_of_mem _ hr')) hnamed
      (by simp [hs₁])
    obtain ⟨he, he₁⟩ := env_extend (s := s) hc hs₁ hb
    have hnote : (s.note (.rule r.selector r.body.length)).env = s.env := rfl
    rw [hnote, he] at ha
    rw [he]
    rw [he₁] at hb'
    exact Disciplined.append (ha.mono (Quiet.of_prefix (rules_events h₂))) hb'

end Emit

namespace Script

/-- A well scoped script. `quiet` says that writing it warned about no read. -/
structure WellScoped (quiet : Prop) (body : List Stmt) : Prop where
  nodup : ∀ b ∈ blocks body, (bound b).Nodup
  assigned : ∀ o ∈ occurrences body, o.role = .assignment → Initialized o.chain o.name
  readNames : ∀ o ∈ occurrences body, o.role = .reading →
    IsBindingIdentifier o.name ∨ o.name ∈ fixedNames
  boundNames : ∀ o ∈ occurrences body, o.role ≠ .reading →
    IsBindingIdentifier o.name ∧ o.name ∉ fixedNames
  noCounter : ∀ o ∈ occurrences body, ∀ d, o.name ≠ counter d
  read : quiet → ∀ o ∈ occurrences body, o.role = .reading →
    Initialized o.chain o.name ∨ (o.name ∈ fixedNames ∧ resolve o.chain o.name = none)

end Script

open Script in
/-- A program whose names are names as the scanner reads them is written as a well scoped
script, where reads are resolved whenever writing warned about none. -/
theorem compile_wellScoped (p : Program) (k : Nat) (out : Compiled) (hp : p.Named)
    (h : p.compile ⟨k⟩ = .ok out) :
    ∃ body, out.js = render k body ∧
      WellScoped (∀ w ∈ out.warnings, w.isUndeclared = false) body := by
  obtain ⟨-, body, s, hrun, rfl⟩ := Program.compile_ok h
  have hn : ∀ r ∈ p.rules, ∀ d ∈ Node.declarationsOf r.body, d.named = true := fun r hr d hd =>
    hp d (List.mem_flatMap.2 ⟨r, hr, hd⟩)
  have hD : Disciplined (Quiet s.events) [[]] body :=
    Emit.rules_disciplined hrun hn (by simp [Emitter.Named]) (by simp)
  -- the top level: no scope around it, and its frame hoists all it binds
  have hgood : ∀ o ∈ occurrences body, o.Good (Quiet s.events) := by
    obtain ⟨-, hfresh⟩ := hD.bound_fresh
    refine hD.occurrences_good rfl (fun x _ => by simp [Visible]) ⟨?_, ?_⟩ (fun x hx => hx)
    · simp
    · intro f hf
      rw [List.mem_singleton] at hf
      subst hf
      exact ⟨by simp, fun x hx => (hfresh x hx).1.2.2⟩
  refine ⟨body, rfl, ⟨?_, fun o ho => (hgood o ho).2.2.2.1, fun o ho => (hgood o ho).1,
    fun o ho => (hgood o ho).2.1, fun o ho => (hgood o ho).2.2.1, ?_⟩⟩
  · intro b hb
    rcases List.mem_cons.1 hb with rfl | hb
    · exact hD.bound_fresh.1
    · exact hD.blocks_nodup b hb
  · intro hw o ho hr
    exact (hgood o ho).2.2.2.2 hr ((quiet_iff_warnings s).2 hw)

open Script in
/-- A rule that binds `x`, reassigns it in a loop whose body binds a hyphenated name
read from `x`, and prints `x` is written as a well scoped script. -/
theorem compile_wellScoped_loop :
    let p : Program := ⟨[⟨"a", [.declaration (.new "x" (.integer 1)),
      .loop .plain [.declaration (.new "x" (.integer 2)), .declaration (.new "y-z" (.ref "x"))],
      .declaration (.new "say" (.ref "x"))]⟩]⟩
    let out : Compiled := ⟨"let x = 1;\nfor (let _i0 = 0; _i0 < 1; _i0++) \x7b\n  x = 2;\n" ++
      "  let y_z = x;\n\x7d\nconsole.log(x);\n", ["x", "y-z"], []⟩
    p.Named ∧ p.compile ⟨2⟩ = .ok out ∧
      ∃ body, out.js = render 2 body ∧
        WellScoped (∀ w ∈ out.warnings, w.isUndeclared = false) body := by
  dsimp only
  refine ⟨?named, ?compiled, compile_wellScoped _ 2 _ ?named ?compiled⟩
  case named => decide +kernel
  case compiled => decide +kernel

end RuleScript
