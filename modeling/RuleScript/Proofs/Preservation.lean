import RuleScript.Proofs.Agreement
/-! # Written scripts run as their programs

A program read from a text and written as a script, where writing warned about no read,
no variable names a fixed value and no integer passes 2^53, is written as a script that the
language reads, that runs without fault, and that prints what the program prints.

Writing an item and running it go together (`node_agrees`): a declaration's statement does
to the script's scopes what the declaration does to the program's, and a loop becomes a
counted loop with the same count, whose body, written once, runs in a fresh scope on each
iteration. Apart from running, every written script is one the language reads
(`rules_wellFormed`).

Main statement: `compile_preserves_meaning`.
-/

namespace RuleScript

open Script

/-- A declaration the script runs as the program does: it is as reading makes it, it reads
no fixed value, and its integer is at most 2^53, which a double holds exactly. -/
structure Declaration.Runnable (d : Declaration) : Prop where
  read : d.Read
  notFixed : ∀ n, d.value = .ref n → n ∉ fixedNames
  exact : ∀ ds, d.value = .literal (.integer ds) → decimalValue ds ≤ Number.exactBound

/-! ## Names and counts -/

theorem mem_fixed_of_identifier {n : String} (hn : Scan.isName n = true)
    (h : identifier n ∈ fixedNames) : n ∈ fixedNames := by
  have hf : ∀ f ∈ fixedNames, Scan.isName f = true := by decide +kernel
  rwa [identifier_inj hn (hf _ h) (identifier_fixed h).symm]

theorem not_reserved {x : String} (hk : x ∉ keywords) (hf : x ∉ fixedNames) :
    x ∉ reservedWords := fun hr => (reserved_refused x hr).elim hk hf

/-- Spelling is injective on program names, so distinct names stay distinct, in either
order. -/
theorem nodup_spelled {l : List String} (hl : ∀ m ∈ l, Scan.isName m = true) (hn : l.Nodup) :
    ((l.map identifier).reverse).Nodup := by
  unfold List.Nodup at hn ⊢
  rw [List.pairwise_reverse, List.pairwise_map]
  exact hn.imp_of_mem fun ha hb hab he => hab (identifier_inj (hl _ ha) (hl _ hb) he.symm)

theorem mem_declarationsOf {ns : List Node} {n : Node} {d : Declaration} (hn : n ∈ ns)
    (hd : d ∈ n.declarations) : d ∈ Node.declarationsOf ns := by
  induction ns with
  | nil => cases hn
  | cons m ns ih =>
    simp only [Node.declarationsOf, List.mem_append]
    rcases List.mem_cons.1 hn with rfl | hn
    · exact .inl hd
    · exact .inr (ih hn)

theorem findSome_timesValue (body : List Node) :
    body.findSome? Node.timesValue = (Emit.timesItems body).head?.map (·.value) := by
  rw [Emit.timesItems, List.head?_filterMap, List.map_findSome?]
  congr 1
  funext n
  cases n with
  | declaration d => by_cases h : d.property = "times" <;> simp [Node.timesValue, h]
  | loop _ _ => rfl

theorem mem_declarationsOf_of_times {body : List Node} {d : Declaration}
    (h : d ∈ Emit.timesItems body) : d ∈ Node.declarationsOf body := by
  obtain ⟨n, hn, hnd⟩ := List.mem_filterMap.1 h
  cases n with
  | declaration d' =>
    by_cases ht : d'.property = "times"
    · simp only [ht, if_true, Option.some.injEq] at hnd
      subst hnd
      exact mem_declarationsOf hn (by simp [Node.declarations])
    · simp [ht] at hnd
  | loop _ _ => cases hnd

/-- A loop's count, as writing settles it, is how many times the program runs the loop: a
decimal integer literal that a double holds exactly. -/
theorem loopCount_ok {body : List Node} {count : String} (h : Emit.loopCount body = .ok count)
    (hr : ∀ d ∈ Node.declarationsOf body, d.Runnable) :
    Node.repeats body = some (decimalValue count) ∧ isDecimalLiteral count = true ∧
      decimalValue count ≤ Number.exactBound := by
  unfold Emit.loopCount at h
  unfold Node.repeats
  rw [findSome_timesValue]
  split at h
  · next he =>
    cases h
    simp only [he, List.head?_nil, Option.map_none]
    decide
  · next first more he =>
    have hd := hr first (mem_declarationsOf_of_times (by simp [he]))
    split at h
    · cases h
    · cases h
    · next digits hv =>
      split at h
      · cases h
        simp only [he, List.head?_cons, Option.map_some, hv]
        exact ⟨trivial, hd.read.2 _ hv, hd.exact _ hv⟩
      · cases h

/-- What a written loop body binds: no name twice, and no name visible around the loop,
since writing binds only names not yet visible. -/
theorem body_bound {depth : Nat} {body : List Node} {s s₁ : Emitter} {inner : List Stmt}
    (h : Emit.exec (Emit.nodes depth body) { s with scopes := [] :: s.scopes } = (.ok inner, s₁))
    (hbody : ∀ d ∈ Node.declarationsOf body, d.Runnable) :
    (bound inner).Nodup ∧
      ∀ n, Scan.isName n = true → Visible s.scopes n → identifier n ∉ bound inner := by
  obtain ⟨new, -, hbound, hnd, hnew⟩ := Emit.nodes_scopes h rfl
  have hname : ∀ m ∈ new, Scan.isName m = true := fun m hm => by
    obtain ⟨d, hdm, rfl⟩ := List.mem_map.1 (hnew m hm).2
    exact Declaration.named_property (hbody d hdm).read.1
  refine ⟨by rw [hbound]; exact nodup_spelled hname hnd, fun n hn hvis hin => ?_⟩
  rw [hbound, List.mem_reverse] at hin
  obtain ⟨m, hm, he⟩ := List.mem_map.1 hin
  obtain rfl := identifier_inj (hname m hm) hn he
  obtain ⟨c, hc, hmc⟩ := hvis
  have hv : Emitter.visible { s with scopes := [] :: s.scopes } m = true :=
    Emitter.visible_iff.2 ⟨c, List.mem_cons_of_mem _ hc, hmc⟩
  rw [(hnew m hm).1] at hv
  cases hv

/-! ## Running what is written -/

/-- A written value: its expression, scopes unchanged, and a variable it reads is visible
when writing did not warn and the variable is no fixed value. -/
theorem value_visible {d : Declaration} {s s' : Emitter} {e : Expr}
    (h : Emit.exec (Emit.value d) s = (.ok e, s')) (hq : Quiet s'.events) (hd : d.Runnable) :
    e = d.value.expr ∧ s'.scopes = s.scopes ∧ ∀ n, d.value = .ref n → Visible s.scopes n := by
  obtain ⟨rfl, hcase⟩ := Emit.value_cases h
  refine ⟨rfl, Emit.value_scopes h, fun n hn => ?_⟩
  rcases hcase with ⟨hl, -⟩ | ⟨m, hm, -, rfl⟩
  · exact absurd hn (hl n)
  · rw [hn, Value.ref.injEq] at hm
    subst hm
    rcases Emit.readNote_warns (s := s) (n := n) (d := d) with hvis | hf | hw
    · exact Emitter.visible_iff.1 hvis
    · exact absurd hf (hd.notFixed n hn)
    · exact absurd hw (hq _ _ _)

theorem value_agree {d : Declaration} (hd : d.Runnable) {Ns : List (List String)} {R : Scopes}
    {cs : List Scope} {E : Env} (ha : Agree Ns R cs E)
    (hvis : ∀ n, d.value = .ref n → Visible Ns n) :
    ∃ w, d.value.eval R = some w ∧ d.value.expr.eval E = .ok w.toScript := by
  cases hv : d.value with
  | literal l =>
    cases l with
    | integer ds =>
      refine ⟨.number (decimalValue ds), rfl, ?_⟩
      simp [Value.expr, Expr.eval, Val.toScript, Number.ofNat_of_le (hd.exact ds hv)]
    | string t => exact ⟨.text t, rfl, by simp [Value.expr, eval_text, Val.toScript]⟩
  | ref n =>
    obtain ⟨w, hw, hE⟩ := ha.find (hvis n hv)
    exact ⟨w, hw, eval_name_of hE⟩

theorem value_runs {d : Declaration} {s s' : Emitter} {e : Expr}
    (h : Emit.exec (Emit.value d) s = (.ok e, s')) (hq : Quiet s'.events) (hd : d.Runnable)
    {R : Scopes} {cs : List Scope} {E : Env} (ha : Agree s.scopes R cs E) :
    s'.scopes = s.scopes ∧ ∃ w, d.value.eval R = some w ∧ e.eval E = .ok w.toScript := by
  obtain ⟨rfl, hsc, hread⟩ := value_visible h hq hd
  exact ⟨hsc, value_agree hd ha hread⟩

theorem declaration_agrees {depth : Nat} {d : Declaration} {s s' : Emitter} {out : List Stmt}
    (h : Emit.exec (Emit.declaration depth d) s = (.ok out, s')) (hd : d.Runnable)
    (hq : Quiet s'.events) : Agrees (Node.run (.declaration d)) depth out s.scopes s'.scopes := by
  intro R cs E ha hk
  rcases Emit.declaration_cases h with ⟨ht, rfl, rfl⟩ | ⟨-, hs, v, hv, rfl⟩ |
      ⟨ht, hs, -, -, v, s₁, hv, ⟨hvis, rfl, rfl⟩ | ⟨hvis, rfl, rfl⟩⟩
  · -- `times` does nothing where it stands
    refine ⟨R, [], E, run_times ht, ?_, rfl, 0, fun f _ => rfl⟩
    split <;> exact ha
  · -- `say` prints its value
    obtain ⟨hsc, w, hw, he⟩ := value_runs hv hq hd ha
    exact ⟨R, [w], E, run_say hs hw, hsc ▸ ha, rfl, 1, seq_exec_of fun _ => exec_print_of he⟩
  · -- a visible property is stored where it is bound
    obtain ⟨hsc, w, hw, he⟩ := value_runs hv hq hd ha
    have hbound : Visible s.scopes d.property := by
      rw [← hsc]
      exact Emitter.visible_iff.1 hvis
    obtain ⟨R', E', hR, hE, ha', hs'⟩ := ha.assign hbound w
    refine ⟨R', [], E', ?_, hsc ▸ ha', hs', 1, seq_exec_of fun _ => exec_assign_of he hE⟩
    rw [run_store ht hs hw, Scopes.store_of_update_some hR]
  · -- any other property is bound in the innermost scope
    obtain ⟨hsc, w, hw, he⟩ := value_runs hv (by simpa using hq) hd ha
    obtain ⟨N, Ns, hN⟩ := ha.ne_nil
    have hname := Declaration.named_property hd.read.1
    have hfresh : ¬ Visible (N :: Ns) d.property := by
      rw [← hN, ← hsc]
      intro hv'
      have := Emitter.visible_iff.2 hv'
      rw [hvis] at this
      cases this
    obtain ⟨-, ha', hs'⟩ := (hN ▸ ha).define hname hfresh (hk _ (by simp)) w
    refine ⟨R.store d.property w, [], E.define (identifier d.property) w.toScript,
      run_store ht hs hw, ?_, hs', 1, seq_exec_of fun _ => exec_bind_of he⟩
    rw [Emitter.declare_scopes _ (hsc.trans hN)]
    exact ha'

mutual

theorem node_agrees : ∀ {depth : Nat} {n : Node} {s s' : Emitter} {out : List Stmt},
    Emit.exec (Emit.node depth n) s = (.ok out, s') → (∀ d ∈ n.declarations, d.Runnable) →
    Quiet s'.events → Agrees n.run depth out s.scopes s'.scopes
  | depth, .declaration d, s, s', out, h, hd, hq => by
    rw [Emit.node_declaration] at h
    exact declaration_agrees h (hd d (by simp [Node.declarations])) hq
  | depth, .loop form body, s, s', out, h, hd, hq => by
    obtain ⟨count, inner, s₁, hc, h₁, rfl, rfl⟩ := Emit.node_loop_ok h
    have hbody : ∀ d ∈ Node.declarationsOf body, d.Runnable := by
      simpa [Node.declarations] using hd
    have hb := nodes_agrees h₁ hbody hq
    obtain ⟨new, hs₁, -⟩ := Emit.nodes_scopes h₁ rfl
    rw [List.append_nil] at hs₁
    rw [hs₁] at hb
    obtain ⟨hrep, -, hlim⟩ := loopCount_ok hc hbody
    intro R cs E ha hk
    -- the names the body binds are bound at no enclosing level
    have hfresh : ∀ n, Visible s.scopes n → identifier n ∉ bound inner := fun n hn =>
      (body_bound h₁ hbody).2 n (ha.visible_named hn) hn
    obtain ⟨R', o, E', hit, ha', hs', F, hF⟩ :=
      repeat_agrees hb hfresh hlim (decimalValue count) 0 (Nat.zero_add _) ha
    refine ⟨R', o, E', by rw [run_loop, hrep]; exact hit, by simpa [hs₁] using ha', hs',
      F + decimalValue count + 2, fun f hf => ?_⟩
    obtain ⟨f, rfl⟩ : ∃ f', f = f' + 1 := ⟨f - 1, by omega⟩
    apply seq_singleton_of
    have hrun := hF f (by omega) f (by omega)
    rw [← Number.ofNat_of_le hlim] at hrun
    exact exec_loop_of hrun

theorem nodes_agrees : ∀ {depth : Nat} {ns : List Node} {s s' : Emitter} {out : List Stmt},
    Emit.exec (Emit.nodes depth ns) s = (.ok out, s') →
    (∀ d ∈ Node.declarationsOf ns, d.Runnable) → Quiet s'.events →
    Agrees (Node.runAll ns) depth out s.scopes s'.scopes
  | depth, [], s, s', out, h, _, _ => by
    obtain ⟨rfl, rfl⟩ := Emit.nodes_nil_ok h
    intro R cs E ha _
    exact ⟨R, [], E, rfl, ha, rfl, 0, fun f _ => rfl⟩
  | depth, n :: ns, s, s', out, h, hd, hq => by
    obtain ⟨a, b, s₁, h₁, h₂, rfl⟩ := Emit.nodes_cons_ok h
    have hq₁ : Quiet s₁.events := Quiet.of_prefix (Emit.nodes_events h₂) hq
    exact Agrees.append
      (node_agrees h₁ (fun d hm => hd d (by simp [Node.declarationsOf, hm])) hq₁)
      (nodes_agrees h₂ (fun d hm => hd d (by simp [Node.declarationsOf, hm])) hq)
      fun _ _ _ _ _ h₁ h₂ => runAll_cons_of h₁ h₂

end

/-- Written rules run as the program runs their items, in order, in one top-level scope. -/
theorem rules_agrees : ∀ {rs : List Rule} {s s' : Emitter} {out : List Stmt},
    Emit.exec (Emit.rules rs) s = (.ok out, s') →
    (∀ r ∈ rs, ∀ d ∈ Node.declarationsOf r.body, d.Runnable) → Quiet s'.events →
    Agrees (Node.runAll (rs.flatMap (·.body))) 0 out s.scopes s'.scopes
  | [], s, s', out, h, _, _ => by
    obtain ⟨rfl, rfl⟩ := Emit.rules_nil_ok h
    intro R cs E ha _
    exact ⟨R, [], E, rfl, ha, rfl, 0, fun f _ => rfl⟩
  | r :: rs, s, s', out, h, hd, hq => by
    obtain ⟨a, b, s₁, h₁, h₂, rfl⟩ := Emit.rules_cons_ok h
    have hq₁ : Quiet s₁.events := Quiet.of_prefix (Emit.rules_events h₂) hq
    have ha := nodes_agrees h₁ (hd r List.mem_cons_self) hq₁
    rw [Emitter.note_scopes] at ha
    rw [List.flatMap_cons]
    exact Agrees.append ha (rules_agrees h₂ (fun r' hr' => hd r' (List.mem_cons_of_mem _ hr')) hq)
      fun _ _ _ _ _ h₁ h₂ => runAll_append_of h₁ h₂

/-! ## Written scripts are ones the language reads -/

theorem bindable_identifier {n : String} (hn : Scan.isName n = true) (hk : identifier n ∉ keywords)
    (hf : identifier n ∉ fixedNames) : isBindable (identifier n) = true := by
  simp [isBindable, isIdentifierName_of_user (isUserName_identifier hn),
    not_reserved hk hf, hf]

theorem value_wellFormed {d : Declaration} {s s' : Emitter} {e : Expr}
    (h : Emit.exec (Emit.value d) s = (.ok e, s')) (hd : d.Runnable) : e.wellFormed = true := by
  obtain ⟨rfl, hcase⟩ := Emit.value_cases h
  cases hv : d.value with
  | literal l =>
    cases l with
    | integer ds => simpa [Value.expr, Expr.wellFormed] using hd.read.2 ds hv
    | string t => simp [Value.expr, Expr.wellFormed, literalValue_quote]
  | ref n =>
    have hk : identifier n ∉ keywords := by
      rcases hcase with ⟨hl, -⟩ | ⟨m, hm, hk, -⟩
      · exact absurd hv (hl n)
      · rw [hv, Value.ref.injEq] at hm
        subst hm
        exact hk
    have hn := Declaration.named_ref hd.read.1 hv
    have hf : identifier n ∉ fixedNames := fun hf =>
      hd.notFixed n hv (mem_fixed_of_identifier hn hf)
    simp [Value.expr, Expr.wellFormed, isIdentifierName_of_user (isUserName_identifier hn),
      not_reserved hk hf]

theorem declaration_wellFormed {depth : Nat} {d : Declaration} {s s' : Emitter}
    {out : List Stmt} (h : Emit.exec (Emit.declaration depth d) s = (.ok out, s'))
    (hd : d.Runnable) : Stmt.allWellFormed out = true := by
  have hname := Declaration.named_property hd.read.1
  rcases Emit.declaration_cases h with ⟨-, rfl, -⟩ | ⟨-, -, v, hv, rfl⟩ |
      ⟨-, -, hk, hf, v, s₁, hv, ⟨-, rfl, -⟩ | ⟨-, rfl, -⟩⟩
  · rfl
  · simp [Stmt.allWellFormed, Stmt.wellFormed, value_wellFormed hv hd]
  -- an assignment and a `let` check their name alike
  all_goals simp [Stmt.allWellFormed, Stmt.wellFormed, value_wellFormed hv hd,
    bindable_identifier hname hk hf]

mutual

theorem node_wellFormed : ∀ {depth : Nat} {n : Node} {s s' : Emitter} {out : List Stmt},
    Emit.exec (Emit.node depth n) s = (.ok out, s') → (∀ d ∈ n.declarations, d.Runnable) →
    Stmt.allWellFormed out = true
  | depth, .declaration d, s, s', out, h, hd => by
    rw [Emit.node_declaration] at h
    exact declaration_wellFormed h (hd d (by simp [Node.declarations]))
  | depth, .loop form body, s, s', out, h, hd => by
    obtain ⟨count, inner, s₁, hc, h₁, rfl, -⟩ := Emit.node_loop_ok h
    have hbody : ∀ d ∈ Node.declarationsOf body, d.Runnable := by
      simpa [Node.declarations] using hd
    have hinner := nodes_wellFormed h₁ hbody
    obtain ⟨-, hdec, -⟩ := loopCount_ok hc hbody
    simp [Stmt.allWellFormed, Stmt.wellFormed, hdec, (body_bound h₁ hbody).1, hinner]

theorem nodes_wellFormed : ∀ {depth : Nat} {ns : List Node} {s s' : Emitter} {out : List Stmt},
    Emit.exec (Emit.nodes depth ns) s = (.ok out, s') →
    (∀ d ∈ Node.declarationsOf ns, d.Runnable) → Stmt.allWellFormed out = true
  | depth, [], s, s', out, h, _ => by
    obtain ⟨rfl, -⟩ := Emit.nodes_nil_ok h
    rfl
  | depth, n :: ns, s, s', out, h, hd => by
    obtain ⟨a, b, s₁, h₁, h₂, rfl⟩ := Emit.nodes_cons_ok h
    exact allWellFormed_append
      (node_wellFormed h₁ fun d hm => hd d (by simp [Node.declarationsOf, hm]))
      (nodes_wellFormed h₂ fun d hm => hd d (by simp [Node.declarationsOf, hm]))

end

theorem rules_wellFormed : ∀ {rs : List Rule} {s s' : Emitter} {out : List Stmt},
    Emit.exec (Emit.rules rs) s = (.ok out, s') →
    (∀ r ∈ rs, ∀ d ∈ Node.declarationsOf r.body, d.Runnable) → Stmt.allWellFormed out = true
  | [], s, s', out, h, _ => by
    obtain ⟨rfl, -⟩ := Emit.rules_nil_ok h
    rfl
  | r :: rs, s, s', out, h, hd => by
    obtain ⟨a, b, s₁, h₁, h₂, rfl⟩ := Emit.rules_cons_ok h
    exact allWellFormed_append (nodes_wellFormed h₁ (hd r List.mem_cons_self))
      (rules_wellFormed h₂ fun r' hr' => hd r' (List.mem_cons_of_mem _ hr'))

/-! ## The whole program -/

/-- Compilation keeps the meaning of a program. Take a program read from a text and written
as a script with any indent, where writing warned about no read, no variable names a fixed
value and every integer, loop counts included, is at most 2^53. Then the program has an
output, and the script is one the language reads which, with enough fuel, runs without
fault and prints exactly that output. -/
theorem compile_preserves_meaning (s : String) (p : Program) (k : Nat) (out : Compiled)
    (hp : Program.read s = .ok p) (h : p.compile ⟨k⟩ = .ok out)
    (hw : ∀ w ∈ out.warnings, w.isUndeclared = false)
    (hfix : ∀ d ∈ p.declarations, ∀ n, d.value = .ref n → n ∉ fixedNames)
    (hnum : ∀ d ∈ p.declarations, ∀ ds, d.value = .literal (.integer ds) →
      decimalValue ds ≤ Number.exactBound) :
    ∃ trace, p.output = some trace ∧ ∃ body, out.js = render k body ∧
      ∃ F, ∀ fuel ≥ F, run fuel body = .ok (trace.map Val.toScript) := by
  obtain ⟨-, body, st, hrun, rfl⟩ := Program.compile_ok h
  have hr : ∀ r ∈ p.rules, ∀ d ∈ Node.declarationsOf r.body, d.Runnable := fun r hr d hd =>
    have hm : d ∈ p.declarations := List.mem_flatMap.2 ⟨r, hr, hd⟩
    ⟨read_declarations hp d hm, hfix d hm, hnum d hm⟩
  have hq : Quiet st.events := (quiet_iff_warnings st).2 hw
  have hnodup : (bound body).Nodup :=
    (Emit.rules_disciplined hrun (fun r hr' d hd => (hr r hr' d hd).read.1)
      (by simp [Emitter.Named]) (by simp)).bound_fresh.1
  have hwf : wellFormed body = true := by
    simp [wellFormed, hnodup, rules_wellFormed hrun hr]
  -- the top level: one scope holding every name the script binds, each in its dead zone
  obtain ⟨R', o, E', hR, -, -, F, hF⟩ := rules_agrees hrun hr hq
    (.top (LevelAgrees.empty ((bound body).map fun x => (x, none)))) (by simp [Env.shape])
  exact ⟨o, by simp [Program.output, hR], body, rfl, F,
    fun fuel hf => run_of hwf (block_of (hF fuel hf))⟩

/-- A rule that binds `x` and prints it from a loop run twice meets every assumption: it is
read from its text, written without a warning, reads no fixed value and counts below 2^53. -/
theorem compile_preserves_meaning_loop :
    let s := "a\x7bx:1;loop\x7btimes:2;say:x;\x7d\x7d"
    let p : Program := ⟨[⟨"a", [.declaration ⟨"x", .literal (.integer "1"), ⟨2, 3, 1, 3⟩⟩,
      .loop .plain [.declaration ⟨"times", .literal (.integer "2"), ⟨11, 16, 1, 12⟩⟩,
        .declaration ⟨"say", .ref "x", ⟨19, 22, 1, 20⟩⟩]]⟩]⟩
    let out : Compiled :=
      ⟨"let x = 1;\nfor (let _i0 = 0; _i0 < 2; _i0++) \x7b\n  console.log(x);\n\x7d\n", ["x"], []⟩
    Program.read s = .ok p ∧ p.compile ⟨2⟩ = .ok out ∧
      (∀ w ∈ out.warnings, w.isUndeclared = false) ∧
      (∀ d ∈ p.declarations, ∀ n, d.value = .ref n → n ∉ fixedNames) ∧
      (∀ d ∈ p.declarations, ∀ ds, d.value = .literal (.integer ds) →
        decimalValue ds ≤ Number.exactBound) ∧
      ∃ trace, p.output = some trace ∧ ∃ body, out.js = render 2 body ∧
        ∃ F, ∀ fuel ≥ F, run fuel body = .ok (trace.map Val.toScript) := by
  dsimp only
  refine ⟨?read, ?compiled, ?quiet, ?fixed, ?exact,
    compile_preserves_meaning _ _ 2 _ ?read ?compiled ?quiet ?fixed ?exact⟩
  case read =>
    -- scanning reduces in the kernel; reading is unfolded one equation at a time
    have ht : tokenize "a\x7bx:1;loop\x7btimes:2;say:x;\x7d\x7d" = .ok
        [⟨.identifier, "a", ⟨0, 1, 1, 1⟩⟩, ⟨.lbrace, "\x7b", ⟨1, 2, 1, 2⟩⟩,
          ⟨.identifier, "x", ⟨2, 3, 1, 3⟩⟩, ⟨.colon, ":", ⟨3, 4, 1, 4⟩⟩,
          ⟨.number, "1", ⟨4, 5, 1, 5⟩⟩, ⟨.semicolon, ";", ⟨5, 6, 1, 6⟩⟩,
          ⟨.identifier, "loop", ⟨6, 10, 1, 7⟩⟩, ⟨.lbrace, "\x7b", ⟨10, 11, 1, 11⟩⟩,
          ⟨.identifier, "times", ⟨11, 16, 1, 12⟩⟩, ⟨.colon, ":", ⟨16, 17, 1, 17⟩⟩,
          ⟨.number, "2", ⟨17, 18, 1, 18⟩⟩, ⟨.semicolon, ";", ⟨18, 19, 1, 19⟩⟩,
          ⟨.identifier, "say", ⟨19, 22, 1, 20⟩⟩, ⟨.colon, ":", ⟨22, 23, 1, 23⟩⟩,
          ⟨.identifier, "x", ⟨23, 24, 1, 24⟩⟩, ⟨.semicolon, ";", ⟨24, 25, 1, 25⟩⟩,
          ⟨.rbrace, "\x7d", ⟨25, 26, 1, 26⟩⟩, ⟨.rbrace, "\x7d", ⟨26, 27, 1, 27⟩⟩] := by
      decide +kernel
    rw [Program.read, ht]
    simp [Program.ofTokens, Reading.ofTokens, Reading.go, Reader.block, Reader.items,
      Reader.item, Reader.declaration, Reader.expect, Reader.valueOf, Reader.opensLoop,
      Expected.accepts, Keyword.classify, maxNesting, canonicalDigits]
  case compiled => decide +kernel
  case quiet => simp
  case fixed | exact =>
    intro d hd v hv
    simp only [Program.declarations, Node.declarationsOf, Node.declarations, List.flatMap_cons,
      List.flatMap_nil, List.mem_append, List.mem_singleton, List.not_mem_nil, or_false] at hd
    rcases hd with rfl | rfl | rfl <;> cases hv
    all_goals decide
end RuleScript
