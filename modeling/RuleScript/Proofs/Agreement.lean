import RuleScript.Proofs.Parsed
/-! # A running program and its running script

While a written script runs, its scopes mirror the program's level by level, innermost
first (`Agree`). A level of the program's scopes binds the names writing had bound there;
the script's scope of that level holds them, spelled for the script, with the same values,
and may hold more: the names its block binds later, still in their dead zone. Between two
levels stands a loop counter's scope, which holds no name of the program, and no script
scope holds a name that writing had bound at an enclosing level, so a name is always found
at the level where it is bound.

Every scope operation of a running program has a counterpart on the script that keeps
the agreement: reading a visible name (`Agree.find`), storing into one (`Agree.assign`),
binding a name that is not visible (`Agree.define`), and entering and leaving a loop body
(`Agree.push`, `Agree.pop`). `Agrees` says that a step of a program and a piece of script
run alike from agreeing scopes; pieces compose (`Agrees.append`), and when one iteration
of a loop and one run of its body's block agree, the iterations and the script's counted
loop do (`repeat_agrees`).
-/

namespace RuleScript

open Script

/-- How a script prints a program value: a number as the same number, a text as its UTF-16
code units. -/
def Val.toScript : Val → Script.Value
  | .number n => .number (.finite n)
  | .text s => .string (units s)

namespace Script

abbrev Scope := List (String × Option Value)

def Env.shape (E : Env) : List (List String) := E.map (·.map Prod.fst)

theorem isUserName_counter (d : Nat) : isUserName (counter d) = false := by
  cases h : isUserName (counter d)
  · rfl
  · exact absurd rfl (ne_counter h d)

end Script

theorem mem_keys_of_lookup {β : Type} {F : List (String × β)} {x : String} {b : β}
    (h : F.lookup x = some b) : x ∈ F.map Prod.fst := by
  by_contra hx
  rw [lookup_eq_none_iff_keys.2 hx] at h
  cases h

/-- One level of the scopes: the names writing has bound there (`N`), the program's scope
(`S`) and the script's scope (`F`). -/
structure LevelAgrees (N : List String) (S : List (String × Val)) (F : Scope) : Prop where
  keys : S.map Prod.fst = N
  named : ∀ n ∈ N, Scan.isName n = true
  spelled : ∀ n v, S.lookup n = some v → F.lookup (identifier n) = some (some v.toScript)

namespace LevelAgrees

variable {N : List String} {S : List (String × Val)} {F : Scope} {n : String}

theorem empty (F : Scope) : LevelAgrees [] [] F := ⟨rfl, by simp, by simp⟩

theorem lookup_of_mem (h : LevelAgrees N S F) (hn : n ∈ N) : ∃ v, S.lookup n = some v := by
  rw [← h.keys] at hn
  cases hs : S.lookup n with
  | none => exact absurd hn (lookup_eq_none_iff_keys.1 hs)
  | some v => exact ⟨v, rfl⟩

theorem lookup_of_not_mem (h : LevelAgrees N S F) (hn : n ∉ N) : S.lookup n = none :=
  lookup_eq_none_iff_keys.2 (h.keys ▸ hn)

theorem mem_of_lookup (h : LevelAgrees N S F) {v : Val} (hv : S.lookup n = some v) : n ∈ N :=
  h.keys ▸ mem_keys_of_lookup hv

theorem set (h : LevelAgrees N S F) (hn : n ∈ N) (v : Val) :
    LevelAgrees N (rebind S n v) (rebind F (identifier n) (some v.toScript)) := by
  refine ⟨by rw [keys_rebind, h.keys], h.named, fun m w hm => ?_⟩
  by_cases hmn : m = n
  · subst hmn
    rw [lookup_rebind_self (h.keys ▸ hn), Option.some.injEq] at hm
    subst hm
    obtain ⟨v₀, h₀⟩ := h.lookup_of_mem hn
    exact lookup_rebind_self (mem_keys_of_lookup (h.spelled m v₀ h₀))
  · rw [lookup_rebind_ne hmn] at hm
    have hne : identifier m ≠ identifier n := fun he =>
      hmn (identifier_inj (h.named m (h.mem_of_lookup hm)) (h.named n hn) he)
    rw [lookup_rebind_ne hne]
    exact h.spelled m w hm

theorem bind (h : LevelAgrees N S F) (hname : Scan.isName n = true)
    (hF : identifier n ∈ F.map Prod.fst) (v : Val) :
    LevelAgrees (n :: N) ((n, v) :: S) (rebind F (identifier n) (some v.toScript)) := by
  refine ⟨by simp [h.keys], ?_, fun m w hm => ?_⟩
  · intro m hm
    rcases List.mem_cons.1 hm with rfl | hm
    · exact hname
    · exact h.named m hm
  by_cases hmn : m = n
  · subst hmn
    simp only [List.lookup_cons_self, Option.some.injEq] at hm
    subst hm
    exact lookup_rebind_self hF
  · have hm' : S.lookup m = some w := by
      simpa [List.lookup_cons, (by simpa using hmn : (m == n) = false)] using hm
    have hne : identifier m ≠ identifier n := fun he =>
      hmn (identifier_inj (h.named m (h.mem_of_lookup hm')) hname he)
    rw [lookup_rebind_ne hne]
    exact h.spelled m w hm'

end LevelAgrees

/-- The scopes of a running program (`R`) and of its running script (`E`) agree with the
scope stack of writing (`Ns`), level by level, innermost first; `cs` are the scopes of
the loop counters between the levels. -/
inductive Agree : List (List String) → Scopes → List Scope → Env → Prop
  | top {N : List String} {S : List (String × Val)} {F : Scope} :
      LevelAgrees N S F → Agree [N] [S] [] [F]
  | loop {N : List String} {S : List (String × Val)} {F C : Scope} {Ns : List (List String)}
      {R : Scopes} {cs : List Scope} {E : Env} :
      LevelAgrees N S F → Agree Ns R cs E → (∀ p ∈ C, isUserName p.1 = false) →
      (∀ n, Visible Ns n → identifier n ∉ F.map Prod.fst) →
      Agree (N :: Ns) (S :: R) (C :: cs) (F :: C :: E)

namespace Agree

variable {Ns : List (List String)} {R : Scopes} {cs : List Scope} {E : Env} {n : String}

theorem keys (h : Agree Ns R cs E) : R.map (·.map Prod.fst) = Ns := by
  induction h with
  | top hl => simp [hl.keys]
  | loop hl _ _ _ ih => simp [hl.keys, ih]

theorem named (h : Agree Ns R cs E) : ∀ N ∈ Ns, ∀ n ∈ N, Scan.isName n = true := by
  induction h with
  | top hl => simpa using hl.named
  | loop hl _ _ _ ih =>
    intro N hN n hn
    rcases List.mem_cons.1 hN with rfl | hN
    · exact hl.named n hn
    · exact ih N hN n hn

theorem visible_tail {N : List String} (hv : Visible (N :: Ns) n) (hn : n ∉ N) : Visible Ns n := by
  obtain ⟨c, hc, hnc⟩ := hv
  rcases List.mem_cons.1 hc with rfl | hc
  · exact absurd hnc hn
  · exact ⟨c, hc, hnc⟩

theorem visible_named (h : Agree Ns R cs E) (hn : Visible Ns n) : Scan.isName n = true := by
  obtain ⟨c, hc, hnc⟩ := hn
  exact h.named c hc n hnc

theorem lookup_counter {C : Scope} (hC : ∀ p ∈ C, isUserName p.1 = false)
    (hn : Scan.isName n = true) : C.lookup (identifier n) = none := by
  rw [lookup_eq_none_iff_keys]
  intro hm
  obtain ⟨p, hp, he⟩ := List.mem_map.1 hm
  have hu := hC p hp
  rw [he, isUserName_identifier hn] at hu
  cases hu

theorem find (h : Agree Ns R cs E) (hn : Visible Ns n) :
    ∃ v, R.lookup n = some v ∧ E.find (identifier n) = some (some v.toScript) := by
  induction h with
  | @top N S F hl =>
    obtain ⟨c, hc, hnc⟩ := hn
    rw [List.mem_singleton] at hc
    subst hc
    obtain ⟨v, hv⟩ := hl.lookup_of_mem hnc
    exact ⟨v, by simp [hv, Scopes.lookup], by simp [hl.spelled n v hv, Env.find]⟩
  | @loop N S F C Ns R cs E hl ha hC hfresh ih =>
    by_cases hN : n ∈ N
    · obtain ⟨v, hv⟩ := hl.lookup_of_mem hN
      exact ⟨v, by simp [Scopes.lookup_cons, hv], by simp [Env.find_cons, hl.spelled n v hv]⟩
    · have hv' := visible_tail hn hN
      obtain ⟨v, hv, hE⟩ := ih hv'
      refine ⟨v, by simp [Scopes.lookup_cons, hl.lookup_of_not_mem hN, hv], ?_⟩
      rw [Env.find_cons, Env.find_cons, lookup_eq_none_iff_keys.2 (hfresh n hv'),
        lookup_counter hC (ha.visible_named hv'), hE]
      rfl

/-- Storing into a visible name sets it, in both runs, at the level where writing bound
it. -/
theorem assign (h : Agree Ns R cs E) (hn : Visible Ns n) (v : Val) :
    ∃ R' E', R.update n v = some R' ∧ E.assign (identifier n) v.toScript = .ok E' ∧
      Agree Ns R' cs E' ∧ E'.shape = E.shape := by
  induction h with
  | @top N S F hl =>
    obtain ⟨c, hc, hnc⟩ := hn
    rw [List.mem_singleton] at hc
    subst hc
    obtain ⟨v₀, h₀⟩ := hl.lookup_of_mem hnc
    refine ⟨[rebind S n v], [rebind F (identifier n) (some v.toScript)], ?_, ?_,
      .top (hl.set hnc v), by simp [Env.shape]⟩
    · simp [Scopes.update, hl.keys, hnc]
    · simp [Env.assign, hl.spelled n v₀ h₀]
  | @loop N S F C Ns R cs E hl ha hC hfresh ih =>
    by_cases hN : n ∈ N
    · obtain ⟨v₀, h₀⟩ := hl.lookup_of_mem hN
      refine ⟨rebind S n v :: R, rebind F (identifier n) (some v.toScript) :: C :: E, ?_, ?_,
        .loop (hl.set hN v) ha hC (by simpa using hfresh), by simp [Env.shape]⟩
      · simp [Scopes.update, hl.keys, hN]
      · simp [Env.assign, hl.spelled n v₀ h₀]
    · have hv' := visible_tail hn hN
      obtain ⟨R', E', hR, hE, ha', hs⟩ := ih hv'
      refine ⟨S :: R', F :: C :: E', ?_, ?_, .loop hl ha' hC hfresh, ?_⟩
      · simp [Scopes.update, hl.keys, hN, hR]
      · simp only [Env.assign, lookup_eq_none_iff_keys.2 (hfresh n hv'),
          lookup_counter hC (ha.visible_named hv'), hE]
        rfl
      · simp only [Env.shape, List.map_cons] at hs ⊢
        rw [hs]

/-- Binding a name that no level holds, when the innermost script scope holds it in its
dead zone: the program binds it in its innermost scope, and the script runs its `let`. -/
theorem define {N : List String} (h : Agree (N :: Ns) R cs E) (hname : Scan.isName n = true)
    (hn : ¬ Visible (N :: Ns) n) (hF : identifier n ∈ E.shape.headD []) (v : Val) :
    R.update n v = none ∧
      Agree ((n :: N) :: Ns) (R.store n v) cs (E.define (identifier n) v.toScript) ∧
      (E.define (identifier n) v.toScript).shape = E.shape := by
  have hnone : R.update n v = none := by
    refine Scopes.update_eq_none (fun S hS hk => hn ?_) v
    exact ⟨S.map Prod.fst, by rw [← h.keys]; exact List.mem_map_of_mem hS, hk⟩
  refine ⟨hnone, ?_⟩
  cases h with
  | top hl =>
    rw [Scopes.store_of_update_none hnone]
    exact ⟨.top (hl.bind hname (by simpa [Env.shape] using hF) v), by simp [Env.shape, Env.define]⟩
  | loop hl ha hC hfresh =>
    rw [Scopes.store_of_update_none hnone]
    exact ⟨.loop (hl.bind hname (by simpa [Env.shape] using hF) v) ha hC (by simpa using hfresh),
      by simp [Env.shape, Env.define]⟩

/-- Entering a loop body: a fresh level, inside the counter's scope, whose script scope holds
the names the body binds, none of which an enclosing level holds. -/
theorem push (h : Agree Ns R cs E) {names : List String}
    (hfresh : ∀ n, Visible Ns n → identifier n ∉ names) {C : Scope}
    (hC : ∀ p ∈ C, isUserName p.1 = false) :
    Agree ([] :: Ns) ([] :: R) (C :: cs) ((names.map fun x => (x, none)) :: C :: E) :=
  .loop (LevelAgrees.empty _) h hC (by simpa [List.map_map] using hfresh)

theorem ne_nil (h : Agree Ns R cs E) : ∃ N Ns', Ns = N :: Ns' := by
  cases h with
  | top _ => exact ⟨_, _, rfl⟩
  | loop _ _ _ _ => exact ⟨_, _, rfl⟩

theorem pop {N : List String} {C : Scope} (h : Agree (N :: Ns) R (C :: cs) E) :
    ∃ S R' F E', R = S :: R' ∧ E = F :: C :: E' ∧ Agree Ns R' cs E' := by
  cases h with
  | loop _ ha _ _ => exact ⟨_, _, _, _, rfl, rfl, ha⟩

end Agree

/-- A step of a program, `run`, and statements of its script at nesting depth `depth`,
`out`, agree from writing's scope stack `before` to `after`: from agreeing scopes whose
innermost script scope holds the names `out` binds, both run, the script with any fuel
from some amount on, printing the same values, to agreeing scopes of the same shape. -/
def Agrees (run : Scopes → Option (Scopes × List Val)) (depth : Nat) (out : List Stmt)
    (before after : List (List String)) : Prop :=
  ∀ ⦃R cs E⦄, Agree before R cs E → (∀ x ∈ bound out, x ∈ E.shape.headD []) →
    ∃ R' o E', run R = some (R', o) ∧ Agree after R' cs E' ∧ E'.shape = E.shape ∧
      ∃ F, ∀ f ≥ F, seq (exec f depth) E out = .ok (E', o.map Val.toScript)

theorem Agrees.append {run₁ run₂ run : Scopes → Option (Scopes × List Val)} {depth : Nat}
    {a b : List Stmt} {s₀ s₁ s₂ : List (List String)} (h₁ : Agrees run₁ depth a s₀ s₁)
    (h₂ : Agrees run₂ depth b s₁ s₂)
    (hrun : ∀ R R₁ R₂ o₁ o₂, run₁ R = some (R₁, o₁) → run₂ R₁ = some (R₂, o₂) →
      run R = some (R₂, o₁ ++ o₂)) :
    Agrees run depth (a ++ b) s₀ s₂ := by
  intro R cs E ha hk
  obtain ⟨R₁, o₁, E₁, hr₁, ha₁, hs₁, F₁, hF₁⟩ := h₁ ha fun x hx => hk x (by simp [hx])
  -- the first part keeps the shape, so the innermost scope still holds what `b` binds
  obtain ⟨R₂, o₂, E₂, hr₂, ha₂, hs₂, F₂, hF₂⟩ := h₂ ha₁ fun x hx => hs₁ ▸ hk x (by simp [hx])
  refine ⟨R₂, o₁ ++ o₂, E₂, hrun _ _ _ _ _ hr₁ hr₂, ha₂, hs₂.trans hs₁, max F₁ F₂, ?_⟩
  intro f hf
  rw [List.map_append]
  exact seq_append_of (hF₁ f (by omega)) (hF₂ f (by omega))

/-! ## Counted loops -/

/-- The scope of the counter of a loop at nesting depth `depth` that holds `k`. -/
def counterScope (depth k : Nat) : Scope := [(counter depth, some (.number (.finite k)))]

theorem counterScope_user (depth k : Nat) : ∀ p ∈ counterScope depth k, isUserName p.1 = false := by
  simp [counterScope, isUserName_counter]

theorem number_counterScope (depth k : Nat) (E : Env) :
    Env.number (counterScope depth k :: E) (counter depth) = .ok (.finite k) := by
  simp [Env.number, Env.find_cons, counterScope]

theorem assign_counterScope (depth k : Nat) (E : Env) (a : Script.Value) :
    Env.assign (counterScope depth k :: E) (counter depth) a =
      .ok ([(counter depth, some a)] :: E) := by
  simp [Env.assign, counterScope, rebind]

/-- A loop runs as its program does: if one iteration of the program and one run of the
body's block agree, then `m` more iterations agree with the script's loop from a counter
at `k`, where `k + m` is the count. -/
theorem repeat_agrees {body : List Node} {inner : List Stmt} {Ns : List (List String)}
    {N' : List String} {depth limit : Nat}
    (hb : Agrees (Node.runAll body) (depth + 1) inner ([] :: Ns) (N' :: Ns))
    (hfresh : ∀ n, Visible Ns n → identifier n ∉ bound inner) (hlim : limit ≤ Number.exactBound)
    (m : Nat) : ∀ k, k + m = limit → ∀ ⦃R cs E⦄, Agree Ns R cs E →
      ∃ R' o E', iterate (Node.iteration body) m R = some (R', o) ∧ Agree Ns R' cs E' ∧
        E'.shape = E.shape ∧ ∃ F, ∀ f ≥ F, ∀ g > m,
          repeatWhile (counter depth) (.finite limit) (block (exec f (depth + 1)) inner) g
            (counterScope depth k :: E) =
          .ok (counterScope depth limit :: E', o.map Val.toScript) := by
  induction m with
  | zero =>
    intro k hk R cs E ha
    refine ⟨R, [], E, rfl, ha, rfl, 0, fun f _ g hg => ?_⟩
    obtain ⟨g, rfl⟩ : ∃ g', g = g' + 1 := ⟨g - 1, by omega⟩
    rw [Nat.add_zero] at hk
    subst hk
    exact repeatWhile_stop (number_counterScope depth k E) (by simp [Number.lt])
  | succ m ih =>
    intro k hk R cs E ha
    -- one run of the body's block in a fresh scope inside the counter's
    obtain ⟨R₀, o₁, E₀, hr, ha₀, hs₀, F₁, hF₁⟩ :=
      hb (ha.push hfresh (counterScope_user depth k)) (by simp [Env.shape])
    obtain ⟨S, R₁, F', E₁, rfl, rfl, ha₁⟩ := ha₀.pop
    have hs₁ : Env.shape E₁ = E.shape := by
      simp only [Env.shape, List.map_cons, List.cons.injEq] at hs₀
      exact hs₀.2.2
    obtain ⟨R', o₂, E', hr', ha', hs', F₂, hF₂⟩ := ih (k + 1) (by omega) ha₁
    refine ⟨R', o₁ ++ o₂, E', iterate_succ_of (iteration_of hr) hr', ha', hs'.trans hs₁,
      max F₁ F₂, fun f hf g hg => ?_⟩
    obtain ⟨g, rfl⟩ : ∃ g', g = g' + 1 := ⟨g - 1, by omega⟩
    have hblock := block_of (hF₁ f (by omega))
    have hinc : Env.assign (counterScope depth k :: E₁) (counter depth)
        (.number (Number.finite k).succ) = .ok (counterScope depth (k + 1) :: E₁) := by
      rw [Number.succ_finite (by omega), assign_counterScope]
      rfl
    rw [List.map_append]
    exact repeatWhile_step (number_counterScope depth k E) (by simp [Number.lt]; omega) hblock
      (number_counterScope depth k E₁) hinc (hF₂ f (by omega) g (by omega))

end RuleScript
