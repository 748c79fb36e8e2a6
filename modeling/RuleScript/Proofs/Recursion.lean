import RuleScript.Proofs.FirstFault
/-! # Reading ends, and its recursion stays within the nesting bound

Reading is recursive descent. The loop over rules calls the reader of a rule's block; a
block, once it has read its brace and passed the depth check, calls the loop over its
items; that loop calls the reader of one item; and an item that is a loop calls the reader
of its block again. `Reader.Call` names these calls with what each is given, `Reader.Makes`
says which call makes which, and `Reader.Reaches` follows calls made one inside the other,
or one round of a loop after the other, counting the depth checks passed on the way.

Every item and every rule that is read takes at least three tokens, so each round of the
two loops leaves fewer tokens, and every call makes calls only of a lower weight, so no
chain of calls goes on for ever (`makes_wellFounded`). Along the calls of a whole reading,
the depth a call is given is the number of depth checks passed before it, and the number
of blocks that the tokens read so far have opened and not closed; it never exceeds
`maxNesting`. A run of loops that opens one block too many fails at its last brace.

Main statement: `reading_terminates_within_nesting`.
-/

namespace RuleScript

namespace Reader

/-- A call of a reader, with what it is given: the loop over rules (`Reading.go`), a block,
the loop over the items of a block, or one item. -/
inductive Call where
  | rules (ts : List Token) (acc : Array Rule)
  | block (depth : Nat) (ts : List Token)
  | items (depth : Nat) (ts : List Token) (acc : Array Node)
  | item (depth : Nat) (ts : List Token)

namespace Call

def tokens : Call → List Token
  | .rules ts _ | .block _ ts | .items _ ts _ | .item _ ts => ts

def depth : Call → Nat
  | .rules _ _ => 0
  | .block d _ | .items d _ _ | .item d _ => d

def weight : Call → Nat
  | .rules ts _ => 3 * ts.length
  | .block _ ts => 3 * ts.length + 2
  | .items _ ts _ => 3 * ts.length + 1
  | .item _ ts => 3 * ts.length

end Call

/-- `Makes c j c'`: the call `c` makes the call `c'`, where `j` is one when `c` is a block
that has read its brace and passed the depth check, and zero otherwise. The next round of
a loop is a call made by the round before it, once that round's rule or item is read. -/
inductive Makes : Call → Nat → Call → Prop
  | rule {t : Token} {r : List Token} {acc : Array Rule} :
      t.kind = .identifier → Makes (.rules (t :: r) acc) 0 (.block 0 r)
  | nextRule {t : Token} {r r' : List Token} {hr' : r'.length < r.length} {acc : Array Rule}
      {body : List Node} : t.kind = .identifier → block 0 r = .ok (body, ⟨r', hr'⟩) →
      Makes (.rules (t :: r) acc) 0 (.rules r' (acc.push ⟨t.text, body⟩))
  | body {d : Nat} {ts r : List Token} {hr : r.length < ts.length} {brace : Token} :
      expect (.token .lbrace) ts = .ok (brace, ⟨r, hr⟩) → d < maxNesting →
      Makes (.block d ts) 1 (.items (d + 1) r #[])
  | item {d : Nat} {t : Token} {r : List Token} {acc : Array Node} :
      t.kind ≠ .rbrace → Makes (.items d (t :: r) acc) 0 (.item d (t :: r))
  | nextItem {d : Nat} {t : Token} {r r' : List Token} {hr' : r'.length < (t :: r).length}
      {acc : Array Node} {n : Node} : t.kind ≠ .rbrace → item d (t :: r) = .ok (n, ⟨r', hr'⟩) →
      Makes (.items d (t :: r) acc) 0 (.items d r' (acc.push n))
  | loop {d : Nat} {t : Token} {r : List Token} :
      opensLoop t = true → Makes (.item d (t :: r)) 0 (.block d r)
  | nested {d : Nat} {a w : Token} {r r' : List Token} {hr' : r'.length < r.length} :
      opensLoop a = false → a.kind = .ampersand → expect (.keyword .loop) r = .ok (w, ⟨r', hr'⟩) →
      Makes (.item d (a :: r)) 0 (.block d r')

/-- `Reaches c k c'`: from the call `c`, calls each made by the one before lead to the call
`c'`, passing `k` depth checks on the way. -/
inductive Reaches : Call → Nat → Call → Prop
  | refl (c : Call) : Reaches c 0 c
  | step {c c' c'' : Call} {j k : Nat} : Makes c j c' → Reaches c' k c'' → Reaches c (j + k) c''

/-! ## Progress -/

theorem block_progress {d : Nat} {ts r : List Token} {body : List Node} {hr : r.length < ts.length}
    (h : block d ts = .ok (body, ⟨r, hr⟩)) : r.length + 2 ≤ ts.length := by
  rw [block.eq_1] at h
  split at h
  · cases h
  · next brace r₁ hr₁ _ =>
    split at h
    · cases h
    · split at h
      · cases h
      · next body' r₂ hr₂ _ =>
        split at h
        · cases h
        · next c r₃ hr₃ _ =>
          simp only [Except.ok.injEq, Prod.mk.injEq, Subtype.mk.injEq] at h
          obtain ⟨-, rfl⟩ := h
          omega

/-- An item that is read takes three tokens at least: a loop's word and its block's two
braces, or the four tokens of a declaration. -/
theorem item_progress {d : Nat} {ts r : List Token} {n : Node} {hr : r.length < ts.length}
    (h : item d ts = .ok (n, ⟨r, hr⟩)) : r.length + 3 ≤ ts.length := by
  cases ts with
  | nil =>
    rw [item.eq_2, declaration.eq_1] at h
    simp [expect] at h
  | cons t rest =>
    rw [item.eq_1] at h
    split at h
    · -- a loop: its word, then its block
      split at h
      · cases h
      · next body r₁ hr₁ hb =>
        simp only [Except.ok.injEq, Prod.mk.injEq, Subtype.mk.injEq] at h
        obtain ⟨-, rfl⟩ := h
        have := block_progress hb
        simp only [List.length_cons]
        omega
    · split at h
      · -- a nested loop: the ampersand, the word, then its block
        split at h
        · cases h
        · next w r₁ hr₁ hw =>
          split at h
          · cases h
          · next body r₂ hr₂ hb =>
            simp only [Except.ok.injEq, Prod.mk.injEq, Subtype.mk.injEq] at h
            obtain ⟨-, rfl⟩ := h
            have := block_progress hb
            simp only [List.length_cons]
            omega
      · -- a declaration: an identifier, a colon, a value and a semicolon
        obtain ⟨p, c, v, s, value, e, -⟩ := Grammar.declaration_of_read h
        rw [e]
        simp

theorem Makes.rules_progress {ts ts' : List Token} {acc acc' : Array Rule} {j : Nat}
    (h : Makes (.rules ts acc) j (.rules ts' acc')) : ts'.length + 3 ≤ ts.length := by
  cases h with
  | nextRule _ hb =>
    have := block_progress hb
    simp only [List.length_cons]
    omega

theorem Makes.items_progress {d d' : Nat} {ts ts' : List Token} {acc acc' : Array Node} {j : Nat}
    (h : Makes (.items d ts acc) j (.items d' ts' acc')) : ts'.length + 3 ≤ ts.length := by
  cases h with
  | nextItem _ hi => exact item_progress hi

/-! ## Termination -/

/-- A call makes calls only of a lower weight: on fewer tokens, or on the same tokens from
the loop over items to the reader of one item. -/
theorem Makes.weight_lt {c c' : Call} {j : Nat} (h : Makes c j c') : c'.weight < c.weight := by
  cases h with
  | @nextRule t r r' hr' =>
    simp only [Call.weight, List.length_cons]
    omega
  | @nextItem d t r r' hr' =>
    simp only [Call.weight, List.length_cons] at hr' ⊢
    omega
  | @body d ts r hr =>
    simp only [Call.weight]
    omega
  | @nested d a w r r' hr' =>
    simp only [Call.weight, List.length_cons]
    omega
  | rule _ | item _ | loop _ =>
    simp only [Call.weight, List.length_cons]
    omega

theorem makes_wellFounded : WellFounded (fun c' c => ∃ j, Makes c j c') :=
  Subrelation.wf (fun ⟨_, h⟩ => h.weight_lt) (InvImage.wf Call.weight Nat.lt_wfRel.wf)

/-! ## Depth -/

theorem Makes.depth_eq {c c' : Call} {j : Nat} (h : Makes c j c') : c'.depth = c.depth + j := by
  cases h <;> rfl

theorem Makes.depth_le {c c' : Call} {j : Nat} (h : Makes c j c') (hc : c.depth ≤ maxNesting) :
    c'.depth ≤ maxNesting := by
  cases h with
  | body _ hd =>
    -- the only call one deeper, made once the depth check has passed
    simp only [Call.depth]
    omega
  | _ => exact hc

theorem Reaches.depth_eq {c c' : Call} {k : Nat} (h : Reaches c k c') :
    c'.depth = c.depth + k := by
  induction h with
  | refl => rfl
  | step hm _ ih => rw [ih, hm.depth_eq, Nat.add_assoc]

theorem Reaches.depth_le {c c' : Call} {k : Nat} (h : Reaches c k c') (hc : c.depth ≤ maxNesting) :
    c'.depth ≤ maxNesting := by
  induction h with
  | refl => exact hc
  | step hm _ ih => exact ih (hm.depth_le hc)

end Reader

namespace Grammar

theorem Reads.opened {σ σ' : List Goal} {d : Int} {ts r : List Token} (h : Reads σ σ' d ts r) :
    ∃ pre, ts = pre ++ r ∧ openBlocks pre = (σ'.count .body : Int) - σ.count .body := by
  obtain ⟨pre, rfl, hrun, -⟩ := h
  exact ⟨pre, rfl, openBlocks_run hrun⟩

end Grammar

namespace Reader

open Grammar

/-- What a call reads before the call it makes opens as many blocks as depth checks are
passed on the way: a rule or an item that is read closes every block it opens. -/
theorem Makes.opened {c c' : Call} {j : Nat} (h : Makes c j c') (hc : c.depth ≤ maxNesting) :
    ∃ pre, c.tokens = pre ++ c'.tokens ∧ openBlocks pre = j := by
  cases h with
  | @rule t r acc hk => exact ⟨[t], rfl, by simp [Token.depthChange, hk]⟩
  | @nextRule t r r' hr' acc body hk hb =>
    have hread := (read_answers r).2.1 0 (by decide)
    rw [hb] at hread
    obtain ⟨pre, e, hpre⟩ := Reads.opened hread
    exact ⟨t :: pre, by simp [Call.tokens, e], by simp [Token.depthChange, hk, hpre]⟩
  | @body d ts r hr brace he _ =>
    obtain ⟨rfl, hk⟩ := expect_token_eq_ok he
    exact ⟨[brace], rfl, by simp [Token.depthChange, hk]⟩
  | item _ => exact ⟨[], rfl, rfl⟩
  | @nextItem d t r r' hr' acc n hk hi =>
    have hread := (read_answers (t :: r)).1 d hc (by simpa using hk)
    rw [hi] at hread
    obtain ⟨pre, e, hpre⟩ := Reads.opened hread
    exact ⟨pre, e, by simp [hpre]⟩
  | @loop d t r ho =>
    exact ⟨[t], rfl, by simp [Token.depthChange, (opensLoop_iff.1 ho).1]⟩
  | @nested d a w r r' hr' _ ha hw =>
    obtain ⟨rfl, hk⟩ := expect_eq_ok hw
    have hk' : w.kind = .identifier := by
      simp only [Expected.accepts, Bool.and_eq_true, beq_iff_eq] at hk
      exact hk.1
    exact ⟨[a, w], rfl, by simp [Token.depthChange, ha, hk']⟩

/-- Along calls from a depth within the bound, the tokens read open as many blocks as
depth checks are passed, and close the rest. -/
theorem Reaches.opened {c c' : Call} {k : Nat} (h : Reaches c k c') (hc : c.depth ≤ maxNesting) :
    ∃ pre, c.tokens = pre ++ c'.tokens ∧ openBlocks pre = k := by
  induction h with
  | refl => exact ⟨[], rfl, rfl⟩
  | @step c₀ c₁ c₂ j k hm _ ih =>
    obtain ⟨pre₁, e₁, h₁⟩ := hm.opened hc
    obtain ⟨pre₂, e₂, h₂⟩ := ih (hm.depth_le hc)
    refine ⟨pre₁ ++ pre₂, by rw [e₁, e₂, List.append_assoc], ?_⟩
    rw [openBlocks_append, h₁, h₂]
    omega

/-! ## Too deep -/

/-- A block whose brace is followed by loops, each the word `loop` and a brace, as many as
the depth checks left before the bound, fails at the last brace. -/
theorem block_loops_tooDeep (ps : List (Token × Token)) (rest : List Token)
    (hp : ∀ p ∈ ps, p.1.kind = .identifier ∧ p.1.text = "loop" ∧ p.2.kind = .lbrace) :
    ∀ (d : Nat) (o : Token), o.kind = .lbrace → d + ps.length = maxNesting →
      block d (o :: ((ps.flatMap fun p => [p.1, p.2]) ++ rest)) =
        .error (.tooDeep ((ps.map Prod.snd).getLastD o).span.line
          ((ps.map Prod.snd).getLastD o).span.column) := by
  induction ps with
  | nil =>
    intro d o ho hd
    rw [block.eq_1, expect_cons (by simp [Expected.accepts, ho])]
    simp only []
    rw [if_pos (by simp only [List.length_nil, Nat.add_zero] at hd; omega)]
    rfl
  | cons p ps ih =>
    intro d o ho hd
    obtain ⟨hw, hloop, hb⟩ := hp p List.mem_cons_self
    have hd' : d + 1 + ps.length = maxNesting := by
      simp only [List.length_cons] at hd
      omega
    -- the brace passes its check; the loop after it opens the next block one deeper
    have hinner := ih (fun q hq => hp q (List.mem_cons_of_mem _ hq)) (d + 1) p.2 hb hd'
    have ho' : opensLoop p.1 = true := opensLoop_iff.2 ⟨hw, hloop⟩
    rw [List.flatMap_cons, block.eq_1, expect_cons (by simp [Expected.accepts, ho])]
    simp only [List.cons_append, List.nil_append]
    rw [if_neg (by simp only [List.length_cons] at hd; omega), items.eq_2,
      if_neg (by simp [hw]), item.eq_1, if_pos ho', hinner]
    simp only [List.map_cons, List.getLastD_cons]

end Reader

/-- Tokens that open blocks with the word `loop` and a brace, one more time than
`maxNesting`, fail at the last brace, whatever follows: the first pair is a rule, each
other pair a loop one block deeper. -/
theorem ofTokens_loops_tooDeep (ps : List (Token × Token)) (ℓ b : Token) (rest : List Token)
    (hn : ps.length = maxNesting)
    (hp : ∀ p ∈ ps ++ [(ℓ, b)], p.1.kind = .identifier ∧ p.1.text = "loop" ∧ p.2.kind = .lbrace) :
    Program.ofTokens ((ps ++ [(ℓ, b)]).flatMap (fun p => [p.1, p.2]) ++ rest) =
      .error (.tooDeep b.span.line b.span.column) := by
  cases ps with
  | nil => simp [maxNesting] at hn
  | cons p ps =>
    obtain ⟨hw, -, ho⟩ := hp p List.mem_cons_self
    have hblock := Reader.block_loops_tooDeep (ps ++ [(ℓ, b)]) rest
      (fun q hq => hp q (List.mem_cons_of_mem _ hq)) 0 p.2 ho
      (by simp only [List.length_cons] at hn; simp [hn])
    have hlast : ((ps ++ [(ℓ, b)]).map Prod.snd).getLastD p.2 = b := by simp
    rw [hlast] at hblock
    have e : (p :: ps ++ [(ℓ, b)]).flatMap (fun p => [p.1, p.2]) ++ rest =
        p.1 :: p.2 :: ((ps ++ [(ℓ, b)]).flatMap (fun p => [p.1, p.2]) ++ rest) := by
      simp
    -- the first pair is the rule, whose block fails
    rw [e, Program.ofTokens, Reading.ofTokens, Reading.go.eq_2, if_pos (by simp [hw]), hblock]

/-- Reading ends, and its recursion stays within the nesting bound. No chain of calls of
the readers goes on for ever. An item that is read takes three tokens at least, and so
does each round of the loop over rules and of the loop over a block's items. Along the
calls of reading a token list, the depth each call is given is the number of depth checks
passed before it, which is the number of blocks that the tokens read so far open and do
not close, and never more than `maxNesting`. Tokens that open blocks with the word `loop`
and a brace one time more than that fail at the last brace. -/
theorem reading_terminates_within_nesting :
    WellFounded (fun c' c => ∃ j, Reader.Makes c j c') ∧
    (∀ (d : Nat) (ts r : List Token) (hr : r.length < ts.length) (n : Node),
      Reader.item d ts = .ok (n, ⟨r, hr⟩) → r.length + 3 ≤ ts.length) ∧
    (∀ (ts ts' : List Token) (acc acc' : Array Rule) (j : Nat),
      Reader.Makes (.rules ts acc) j (.rules ts' acc') → ts'.length + 3 ≤ ts.length) ∧
    (∀ (d d' j : Nat) (ts ts' : List Token) (acc acc' : Array Node),
      Reader.Makes (.items d ts acc) j (.items d' ts' acc') → ts'.length + 3 ≤ ts.length) ∧
    (∀ (ts : List Token) (k : Nat) (c : Reader.Call), Reader.Reaches (.rules ts #[]) k c →
      c.depth = k ∧ k ≤ maxNesting ∧ ∃ pre, ts = pre ++ c.tokens ∧ openBlocks pre = k) ∧
    (∀ (ps : List (Token × Token)) (ℓ b : Token) (rest : List Token), ps.length = maxNesting →
      (∀ p ∈ ps ++ [(ℓ, b)], p.1.kind = .identifier ∧ p.1.text = "loop" ∧ p.2.kind = .lbrace) →
      Program.ofTokens ((ps ++ [(ℓ, b)]).flatMap (fun p => [p.1, p.2]) ++ rest) =
        .error (.tooDeep b.span.line b.span.column)) := by
  refine ⟨Reader.makes_wellFounded, fun _ _ _ _ _ h => Reader.item_progress h,
    fun _ _ _ _ _ h => h.rules_progress, fun _ _ _ _ _ _ _ h => h.items_progress,
    fun ts k c h => ?_, ofTokens_loops_tooDeep⟩
  have hdepth : c.depth = k := by simpa [Reader.Call.depth] using h.depth_eq
  have hle := h.depth_le (Nat.zero_le _)
  obtain ⟨pre, e, hpre⟩ := h.opened (Nat.zero_le _)
  exact ⟨hdepth, hdepth ▸ hle, pre, e, hpre⟩

/-- Two hundred and fifty-seven times `loop {` fail at the last brace. -/
theorem reading_terminates_within_nesting_deep_loops :
    let ℓ : Token := ⟨.identifier, "loop", ⟨0, 4, 1, 1⟩⟩
    let b : Token := ⟨.lbrace, "\x7b", ⟨5, 6, 1, 6⟩⟩
    (List.replicate maxNesting (ℓ, b)).length = maxNesting ∧
      (∀ p ∈ List.replicate maxNesting (ℓ, b) ++ [(ℓ, b)],
        p.1.kind = .identifier ∧ p.1.text = "loop" ∧ p.2.kind = .lbrace) ∧
      Program.ofTokens ((List.replicate maxNesting (ℓ, b) ++ [(ℓ, b)]).flatMap
        (fun p => [p.1, p.2]) ++ []) = .error (.tooDeep 1 6) := by
  intro ℓ b
  have hn : (List.replicate maxNesting (ℓ, b)).length = maxNesting := List.length_replicate
  have hp : ∀ p ∈ List.replicate maxNesting (ℓ, b) ++ [(ℓ, b)],
      p.1.kind = .identifier ∧ p.1.text = "loop" ∧ p.2.kind = .lbrace := by
    intro p hp
    simp only [List.mem_append, List.mem_replicate, List.mem_singleton] at hp
    rcases hp with ⟨-, rfl⟩ | rfl <;> exact ⟨rfl, rfl, rfl⟩
  exact ⟨hn, hp, (reading_terminates_within_nesting).2.2.2.2.2 _ ℓ b [] hn hp⟩

end RuleScript
