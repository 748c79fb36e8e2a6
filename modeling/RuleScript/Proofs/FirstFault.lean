import RuleScript.Proofs.Prefixes
/-! # Reading stops at the first fault

Scan the tokens from the left for the first place where reading cannot go on: a token
that no sentence of the grammar continues with (`BreaksAt`), or an opening brace that
would nest a block one deeper than `maxNesting` (`TooDeepAt`). Reading fails there, with
that token and an expectation that some token would have met; where no such place comes,
reading succeeds exactly on a sentence and otherwise runs out of tokens where the
expectation would have gone on (`ofTokens_first_fault`).

The readers are compared with the machine of `Proofs.Prefixes`. A reader started on a
goal either reads a phrase that takes the machine from it to its next goals (`Reads`),
or stops where the machine refuses a token, where the tokens run out, or at a brace that
opens a block too deep (`Refuses`). One lemma per reader proves this for it, given that
the readers it calls do so on fewer tokens, and `read_answers` ties them as `read_sound`
does for the grammar.
-/

namespace RuleScript

theorem Expected.exists_accepts (x : Expected) : ∃ t, x.accepts t = true := by
  cases x with
  | token k => exact ⟨⟨k, "", default⟩, by simp [Expected.accepts]⟩
  | keyword w =>
    cases w
    exact ⟨⟨.identifier, "loop", default⟩, by simp [Expected.accepts, Keyword.spelling]⟩
  | value => exact ⟨⟨.number, "0", default⟩, by simp [Expected.accepts]⟩

namespace Grammar

open Reader

/-- Read `depth` blocks deep, the tokens open no block deeper than `maxNesting`. -/
def Shallow : Int → List Token → Prop
  | _, [] => True
  | depth, t :: ts => (t.kind = .lbrace → depth < maxNesting) ∧ Shallow (depth + t.depthChange) ts

@[simp] theorem shallow_nil (depth : Int) : Shallow depth [] := trivial

@[simp] theorem shallow_cons (depth : Int) (t : Token) (ts : List Token) :
    Shallow depth (t :: ts) ↔
      (t.kind = .lbrace → depth < maxNesting) ∧ Shallow (depth + t.depthChange) ts := Iff.rfl

theorem shallow_append (depth : Int) (a b : List Token) :
    Shallow depth (a ++ b) ↔ Shallow depth a ∧ Shallow (depth + openBlocks a) b := by
  induction a generalizing depth with
  | nil => simp
  | cons t a ih => simp [ih, and_assoc, Int.add_assoc]

theorem Shallow.lt {depth : Int} {ts : List Token} (h : Shallow depth ts) {j : Nat} {t : Token}
    (hj : ts[j]? = some t) (hk : t.kind = .lbrace) :
    depth + openBlocks (ts.take j) < maxNesting := by
  induction ts generalizing depth j with
  | nil => simp at hj
  | cons t' ts ih =>
    cases j with
    | zero =>
      simp only [List.getElem?_cons_zero, Option.some.injEq] at hj
      subst hj
      simpa using h.1 hk
    | succ j =>
      simp only [List.getElem?_cons_succ] at hj
      have := ih h.2 hj
      simp only [List.take_succ_cons, openBlocks_cons]
      omega

def Offers (σ : List Goal) (x : Expected) : Prop := ∃ t, x.accepts t ∧ (feed σ t).isSome

theorem Offers.ne_nil {σ : List Goal} {x : Expected} (h : Offers σ x) : σ ≠ [] := by
  rintro rfl
  obtain ⟨t, -, ht⟩ := h
  simp at ht

theorem Offers.frame {σ : List Goal} {x : Expected} (h : Offers σ x) (ctx : List Goal) :
    Offers (σ ++ ctx) x := by
  obtain ⟨t, hx, ht⟩ := h
  obtain ⟨σ', hσ'⟩ := Option.isSome_iff_exists.1 ht
  exact ⟨t, hx, by simp [feed_frame hσ' ctx]⟩

/-- A fault `e` of reading `ts`, `depth` blocks deep, as the machine from the goals `σ`
sees it: a token that it refuses after what came before, where it would read a token that
the fault's expectation accepts; the end of the tokens, where it would read such a token;
or an opening brace that it reads and that opens a block past `maxNesting`. No block opens
too deep before the fault. -/
def Refuses (σ : List Goal) (depth : Int) (ts : List Token) : ParseError → Prop
  | .unexpected x t => ∃ pre post τ, ts = pre ++ t :: post ∧ run σ pre = some τ ∧
      feed τ t = none ∧ Offers τ x ∧ Shallow depth pre
  | .unexpectedEnd x => ∃ τ, run σ ts = some τ ∧ Offers τ x ∧ Shallow depth ts
  | .tooDeep line column => ∃ pre t post, ts = pre ++ t :: post ∧ t.kind = .lbrace ∧
      (run σ (pre ++ [t])).isSome ∧ Shallow depth pre ∧ depth + openBlocks pre = maxNesting ∧
      line = t.span.line ∧ column = t.span.column

/-- Reading `ts`, `depth` blocks deep, read a phrase that takes the machine from the goals
`σ` to `σ'`, opening no block too deep, and left `rest`. -/
def Reads (σ σ' : List Goal) (depth : Int) (ts rest : List Token) : Prop :=
  ∃ pre, ts = pre ++ rest ∧ run σ pre = some σ' ∧ Shallow depth pre

def Answers {α : Type} {p : List Token → Prop} (σ σ' : List Goal) (depth : Int)
    (ts : List Token) : Except ParseError (α × Subtype p) → Prop
  | .ok (_, r) => Reads σ σ' depth ts r.1
  | .error e => Refuses σ depth ts e

@[simp] theorem answers_ok {α : Type} {p : List Token → Prop} {σ σ' : List Goal} {depth : Int}
    {ts : List Token} (a : α) (r : Subtype p) :
    Answers σ σ' depth ts (.ok (a, r)) ↔ Reads σ σ' depth ts r.1 := Iff.rfl

@[simp] theorem answers_error {α : Type} {p : List Token → Prop} {σ σ' : List Goal}
    {depth : Int} {ts : List Token} (e : ParseError) :
    Answers (α := α) (p := p) σ σ' depth ts (.error e) ↔ Refuses σ depth ts e := Iff.rfl

/-! ## Putting outcomes together -/

section Outcomes

variable {σ σ' σ₁ σ₂ σ₃ : List Goal} {d : Int} {ts r u : List Token}

theorem Reads.refl : Reads σ σ d ts ts := ⟨[], rfl, rfl, trivial⟩

theorem Reads.single {t : Token} (hf : feed σ t = some σ') (hd : t.kind = .lbrace → d < maxNesting) :
    Reads σ σ' d (t :: r) r :=
  ⟨[t], rfl, by simp [hf], ⟨hd, trivial⟩⟩

theorem Reads.frame (h : Reads σ σ' d ts r) (ctx : List Goal) :
    Reads (σ ++ ctx) (σ' ++ ctx) d ts r := by
  obtain ⟨pre, rfl, hrun, hs⟩ := h
  exact ⟨pre, rfl, run_frame hrun ctx, hs⟩

/-- Phrases read one after the other, the second as deep as the first leaves the machine:
the depth after a phrase is the depth before it and the `body` goals it gained. -/
theorem Reads.trans (h₁ : Reads σ₁ σ₂ d ts r)
    (h₂ : Reads σ₂ σ₃ (d + ((σ₂.count .body : Int) - σ₁.count .body)) r u) :
    Reads σ₁ σ₃ d ts u := by
  obtain ⟨a, rfl, ha, hsa⟩ := h₁
  obtain ⟨b, rfl, hb, hsb⟩ := h₂
  rw [← openBlocks_run ha] at hsb
  exact ⟨a ++ b, by simp, by simp [run_append, ha, hb], (shallow_append d a b).2 ⟨hsa, hsb⟩⟩

theorem Refuses.frame {e : ParseError} (h : Refuses σ d ts e) (ctx : List Goal) :
    Refuses (σ ++ ctx) d ts e := by
  cases e with
  | unexpected x t =>
    obtain ⟨pre, post, τ, rfl, hrun, hf, ho, hs⟩ := h
    exact ⟨pre, post, τ ++ ctx, rfl, run_frame hrun ctx, feed_frame_none ho.ne_nil hf ctx,
      ho.frame ctx, hs⟩
  | unexpectedEnd x =>
    obtain ⟨τ, hrun, ho, hs⟩ := h
    exact ⟨τ ++ ctx, run_frame hrun ctx, ho.frame ctx, hs⟩
  | tooDeep line column =>
    obtain ⟨pre, t, post, rfl, hk, hrun, hs, hd, hl, hc⟩ := h
    obtain ⟨τ, hτ⟩ := Option.isSome_iff_exists.1 hrun
    exact ⟨pre, t, post, rfl, hk, by simp [run_frame hτ ctx], hs, hd, hl, hc⟩

theorem Reads.refuses {e : ParseError} (h₁ : Reads σ₁ σ₂ d ts r)
    (h₂ : Refuses σ₂ (d + ((σ₂.count .body : Int) - σ₁.count .body)) r e) :
    Refuses σ₁ d ts e := by
  obtain ⟨a, rfl, ha, hsa⟩ := h₁
  rw [← openBlocks_run ha] at h₂
  cases e with
  | unexpected x t =>
    obtain ⟨pre, post, τ, rfl, hrun, hf, ho, hs⟩ := h₂
    exact ⟨a ++ pre, post, τ, by simp, by simp [run_append, ha, hrun], hf, ho,
      (shallow_append d a pre).2 ⟨hsa, hs⟩⟩
  | unexpectedEnd x =>
    obtain ⟨τ, hrun, ho, hs⟩ := h₂
    exact ⟨τ, by simp [run_append, ha, hrun], ho, (shallow_append d a _).2 ⟨hsa, hs⟩⟩
  | tooDeep line column =>
    obtain ⟨pre, t, post, rfl, hk, hrun, hs, hdeep, hl, hc⟩ := h₂
    refine ⟨a ++ pre, t, post, by simp, hk, ?_, (shallow_append d a pre).2 ⟨hsa, hs⟩, ?_, hl, hc⟩
    · simpa [run_append, ha] using hrun
    · rw [openBlocks_append, ← Int.add_assoc, hdeep]

end Outcomes

/-! ## Faults at a single token -/

def Awaits (σ : List Goal) (x : Expected) : Prop := ∀ t, (feed σ t).isSome = x.accepts t

theorem Awaits.offers {σ : List Goal} {x : Expected} (h : Awaits σ x) : Offers σ x := by
  obtain ⟨t, ht⟩ := x.exists_accepts
  exact ⟨t, ht, by rw [h t, ht]⟩

/-- A token that is not what reading expects is refused by the machine, and a missing one
would have been read, when the machine reads at the head of the tokens just what reading
expects. -/
theorem refuses_of_expect {σ : List Goal} {x : Expected} {d : Int} {ts : List Token}
    {e : ParseError} (hx : ∀ t ∈ ts.head?, (feed σ t).isSome = x.accepts t) (ho : Offers σ x)
    (he : expect x ts = .error e) : Refuses σ d ts e := by
  cases ts with
  | nil =>
    cases he
    exact ⟨σ, rfl, ho, trivial⟩
  | cons t r =>
    have ha : x.accepts t = false := by
      cases hx' : x.accepts t
      · rfl
      · simp [expect, hx'] at he
    simp only [expect, ha, Bool.false_eq_true, if_false, Except.error.injEq] at he
    subst he
    have hf : feed σ t = none := by
      rw [← Option.not_isSome_iff_eq_none, hx t rfl, ha]
      decide
    exact ⟨[], r, σ, rfl, rfl, hf, ho, trivial⟩

theorem Awaits.refuses {σ : List Goal} {x : Expected} {d : Int} {ts : List Token}
    {e : ParseError} (h : Awaits σ x) (he : expect x ts = .error e) : Refuses σ d ts e :=
  refuses_of_expect (fun t _ => h t) h.offers he

def Goal.expects : Goal → Option Expected
  | .rules => some (.token .identifier)
  | .block => some (.token .lbrace)
  | .body => none
  | .loopWord => some (.keyword .loop)
  | .colon => some (.token .colon)
  | .value => some .value
  | .semicolon => some (.token .semicolon)

theorem Goal.awaits {g : Goal} {x : Expected} (h : g.expects = some x) (τ : List Goal) :
    Awaits (g :: τ) x := by
  intro t
  cases g <;> simp only [Goal.expects, Option.some.injEq, reduceCtorEq] at h
  all_goals
    subst h
    simp only [feed_cons, Goal.step]
    split <;> simp_all [Expected.accepts]

theorem expect_token_eq_ok {k : TokenKind} {ts r : List Token} {t : Token}
    {hr : r.length < ts.length} (h : expect (.token k) ts = .ok (t, ⟨r, hr⟩)) :
    ts = t :: r ∧ t.kind = k := by
  obtain ⟨e, ht⟩ := expect_eq_ok h
  exact ⟨e, by simpa [Expected.accepts] using ht⟩

theorem expect_value_of_valueOf {v : Token} {r : List Token} (h : valueOf v = none) :
    expect .value (v :: r) = .error (.unexpected .value v) := by
  have ha : Expected.value.accepts v = false := by
    cases hk : v.kind <;> simp_all [valueOf, Expected.accepts]
  simp [expect, ha]

/-! ## The readers -/

/-- Where a declaration is read: not at a closing brace, nor at a token that begins a
loop. -/
def DeclarationStart (ts : List Token) : Prop :=
  ∀ t ∈ ts.head?, t.kind ≠ .rbrace ∧ opensLoop t = false ∧ t.kind ≠ .ampersand

theorem declaration_answers {ts : List Token} (depth : Int) (hh : DeclarationStart ts) :
    Answers [.body] [.body] depth ts (declaration ts) := by
  rw [declaration.eq_1]
  split
  · next e he =>
    -- at the start of a declaration the machine reads exactly an identifier
    refine refuses_of_expect (fun t ht => ?_) ⟨⟨.identifier, "x", default⟩, rfl, ?_⟩ he
    · obtain ⟨hr, ho, ha⟩ := hh t ht
      by_cases hk : t.kind = .identifier <;> simp [Goal.step, Expected.accepts, hr, ho, ha, hk]
    · simp [Goal.step, opensLoop, Keyword.classify]
  · next p r1 hr1 he1 =>
    obtain ⟨rfl, hp'⟩ := expect_token_eq_ok he1
    have hp1 : Reads [.body] [.colon, .value, .semicolon, .body] depth (p :: r1) r1 :=
      Reads.single (by simp [Goal.step, hp', (hh p rfl).2.1]) (by simp [hp'])
    split
    · next e he => exact hp1.refuses ((Goal.awaits rfl _).refuses he)
    · next c r2 hr2 he2 =>
      obtain ⟨rfl, hc'⟩ := expect_token_eq_ok he2
      have hc1 : Reads [.body] [.value, .semicolon, .body] depth (p :: c :: r2) r2 :=
        hp1.trans (Reads.single (by simp [Goal.step, hc']) (by simp [hc']))
      cases r2 with
      | nil => exact hc1.refuses ((Goal.awaits rfl _).refuses rfl)
      | cons v r3 =>
        dsimp only
        split
        · next hv =>
          exact hc1.refuses ((Goal.awaits rfl _).refuses (expect_value_of_valueOf hv))
        · next value hv =>
          have hv' := valueOf_iff.1 hv
          have hv1 : Reads [.body] [.semicolon, .body] depth (p :: c :: v :: r3) r3 :=
            hc1.trans (Reads.single (by simp [Goal.step, hv'.accepts]) (by cases hv' <;> simp [*]))
          split
          · next e he => exact hv1.refuses ((Goal.awaits rfl _).refuses he)
          · next s r4 hr4 he4 =>
            obtain ⟨rfl, hs'⟩ := expect_token_eq_ok he4
            exact hv1.trans (Reads.single (by simp [Goal.step, hs']) (by simp [hs']))

/-- Reading an item answers for the rest of a block, when the item does not begin with a
closing brace. -/
def ItemAnswers (ts : List Token) : Prop :=
  ∀ depth : Nat, depth ≤ maxNesting → (∀ t ∈ ts.head?, t.kind ≠ .rbrace) →
    Answers [.body] [.body] depth ts (item depth ts)

def BlockAnswers (ts : List Token) : Prop :=
  ∀ depth : Nat, depth ≤ maxNesting → Answers [.block] [] depth ts (block depth ts)

def ItemsAnswers (ts : List Token) : Prop :=
  ∀ depth : Nat, depth ≤ maxNesting → ∀ acc,
    Answers [.body] [.body] depth ts (items depth ts acc)

theorem itemAnswers {ts : List Token} (hb : ∀ ts', ts'.length < ts.length → BlockAnswers ts') :
    ItemAnswers ts := by
  intro depth hdepth hhead
  match ts, hb, hhead with
  | [], _, _ =>
    rw [item.eq_2]
    exact declaration_answers depth (by simp [DeclarationStart])
  | t :: r, hb, hhead =>
    have ht : t.kind ≠ .rbrace := hhead t rfl
    rw [item.eq_1]
    split
    · next ho =>
      -- a loop: the machine reads its block and comes back to the rest of the block
      have ht1 : Reads [.body] [.block, .body] depth (t :: r) r :=
        Reads.single (by simp [Goal.step, ht, ho]) (by simp [(opensLoop_iff.1 ho).1])
      have hblock := hb r (by simp) depth hdepth
      split
      · next e he =>
        rw [he] at hblock
        exact ht1.refuses (by simpa using hblock.frame [.body])
      · next body r1 hr1 he =>
        rw [he] at hblock
        exact ht1.trans (by simpa using hblock.frame [.body])
    · split
      · next ho ha =>
        have ha' : t.kind = .ampersand := by simpa using ha
        have ht1 : Reads [.body] [.loopWord, .block, .body] depth (t :: r) r :=
          Reads.single (by simp [Goal.step, ha', ho]) (by simp [ha'])
        split
        · next e he => exact ht1.refuses ((Goal.awaits rfl _).refuses he)
        · next k r1 hr1 he1 =>
          obtain ⟨rfl, hk⟩ := expect_eq_ok he1
          have hk' : k.kind = .identifier ∧ k.text = "loop" := by
            simpa [Expected.accepts, Keyword.spelling] using hk
          have hk1 : Reads [.body] [.block, .body] depth (t :: k :: r1) r1 :=
            ht1.trans (Reads.single (by simp [Goal.step, hk]) (by simp [hk'.1]))
          have hblock := hb r1 (by simp only [List.length_cons]; omega) depth hdepth
          split
          · next e he =>
            rw [he] at hblock
            exact hk1.refuses (by simpa using hblock.frame [.body])
          · next body r2 hr2 he =>
            rw [he] at hblock
            exact hk1.trans (by simpa using hblock.frame [.body])
      · next ho ha =>
        exact declaration_answers depth (by simpa [DeclarationStart, ht, ho] using ha)

theorem blockAnswers {ts : List Token} (hi : ∀ ts', ts'.length < ts.length → ItemsAnswers ts') :
    BlockAnswers ts := by
  intro depth hdepth
  rw [block.eq_1]
  split
  · next e he => exact (Goal.awaits rfl []).refuses he
  · next o r1 hr1 he1 =>
    obtain ⟨rfl, ho'⟩ := expect_token_eq_ok he1
    split
    · next hdeep =>
      -- the brace opens a block one past the bound
      refine ⟨[], o, r1, rfl, ho', by simp [Goal.step, ho'], trivial, ?_, rfl, rfl⟩
      simp only [openBlocks_nil, Int.add_zero]
      omega
    · next hdeep =>
      have ho1 : Reads [.block] [.body] depth (o :: r1) r1 :=
        Reads.single (by simp [Goal.step, ho']) (fun _ => by omega)
      have hitems := hi r1 (by simp) (depth + 1) (by omega) #[]
      split
      · next e he =>
        rw [he] at hitems
        exact ho1.refuses (by simpa using hitems)
      · next body r2 hr2 he2 =>
        have hclose : ClosesItems r2 := by
          obtain ⟨-, -, -, -, -, -, hc⟩ := (read_sound r1).2.2 (depth + 1) #[] body r2 hr2
            (by omega) he2
          exact hc
        rw [he2] at hitems
        have hb2 : Reads [.block] [.body] depth (o :: r1) r2 := ho1.trans (by simpa using hitems)
        split
        · next e he =>
          -- what is left starts with a closing brace, so only the end of the tokens fails
          have hx : ∀ t ∈ r2.head?, (feed [.body] t).isSome = (Expected.token .rbrace).accepts t :=
            fun t ht => by simp [Goal.step, Expected.accepts, hclose t ht]
          have ho : Offers [.body] (.token .rbrace) :=
            ⟨⟨.rbrace, "\x7d", default⟩, rfl, by simp [Goal.step]⟩
          exact hb2.refuses (refuses_of_expect hx ho he)
        · next c r3 hr3 he3 =>
          obtain ⟨rfl, hc'⟩ := expect_token_eq_ok he3
          exact hb2.trans (Reads.single (by simp [Goal.step, hc']) (by simp [hc']))

theorem itemsAnswers {ts : List Token} (hi : ItemAnswers ts)
    (hs : ∀ ts', ts'.length < ts.length → ItemsAnswers ts') : ItemsAnswers ts := by
  intro depth hdepth acc
  match ts, hi, hs with
  | [], _, _ =>
    rw [items.eq_1]
    exact Reads.refl
  | t :: r, hi, hs =>
    rw [items.eq_2]
    split
    · exact Reads.refl
    · next hk =>
      have hitem := hi depth hdepth (by simpa using hk)
      split
      · next e he =>
        rw [he] at hitem
        exact hitem
      · next n r1 hr1 he1 =>
        rw [he1] at hitem
        have hrest := hs r1 hr1 depth hdepth (acc.push n)
        split
        · next e he =>
          rw [he] at hrest
          exact hitem.refuses (by simpa using hrest)
        · next body r2 hr2 he2 =>
          rw [he2] at hrest
          exact hitem.trans (by simpa using hrest)

theorem read_answers (ts : List Token) : ItemAnswers ts ∧ BlockAnswers ts ∧ ItemsAnswers ts :=
  have shorter : ∀ ts', ts'.length < ts.length →
      ItemAnswers ts' ∧ BlockAnswers ts' ∧ ItemsAnswers ts' := fun ts' _ => read_answers ts'
  have hitem := itemAnswers fun ts' hl => (shorter ts' hl).2.1
  ⟨hitem, blockAnswers fun ts' hl => (shorter ts' hl).2.2,
    itemsAnswers hitem fun ts' hl => (shorter ts' hl).2.2⟩
termination_by ts.length

/-! ## Programs -/

theorem rule_reads {t : Token} {r r' : List Token} (hk : t.kind = .identifier)
    (hb : Reads [.block] [] 0 r r') : Reads [.rules] [.rules] 0 (t :: r) r' := by
  have ht1 : Reads [.rules] [.block, .rules] 0 (t :: r) r :=
    Reads.single (by simp [Goal.step, hk]) (by simp [hk])
  exact ht1.trans (by simpa using hb.frame [.rules])

theorem go_reads {ts : List Token} {acc : Array Rule} (h : (Reading.go ts acc).fault = none) :
    Reads [.rules] [.rules] 0 ts [] := by
  fun_induction Reading.go ts acc with
  | case1 acc => exact Reads.refl
  | case2 => simp at h
  | case3 acc t r hk body r' hr' hb _ ih =>
    have hblock := (read_answers r).2.1 0 (by decide)
    rw [hb] at hblock
    exact (rule_reads (by simpa using hk) hblock).trans (by simpa using ih h)
  | case4 => simp at h

theorem go_refuses {ts : List Token} {acc : Array Rule} {e : ParseError}
    (h : (Reading.go ts acc).fault = some e) :
    Refuses [.rules] 0 ts e ∧ ∀ x, e = .unexpectedEnd x → run [.rules] ts ≠ some [.rules] := by
  fun_induction Reading.go ts acc with
  | case1 => simp at h
  | case2 acc t r hk e' he =>
    simp only [Option.some.injEq] at h
    subst h
    have hk' : t.kind = .identifier := by simpa using hk
    have hblock := (read_answers r).2.1 0 (by decide)
    rw [he] at hblock
    have ht1 : Reads [.rules] [.block, .rules] 0 (t :: r) r :=
      Reads.single (by simp [Goal.step, hk']) (by simp [hk'])
    refine ⟨ht1.refuses (by simpa using hblock.frame [.rules]), ?_⟩
    -- the tokens ran out inside the rule, whose block is still owed
    rintro x rfl
    obtain ⟨τ, hrun, ho, -⟩ := hblock
    have hτ : run [.block, .rules] r = some (τ ++ [.rules]) := run_frame hrun [.rules]
    simp only [run_cons, feed_cons, Goal.step, hk', if_true, Option.map_some, Option.bind_some,
      List.append_nil, hτ]
    simpa using ho.ne_nil
  | case3 acc t r hk body r' hr' hb _ ih =>
    obtain ⟨hrefuses, hend⟩ := ih h
    have hblock := (read_answers r).2.1 0 (by decide)
    rw [hb] at hblock
    have hrule := rule_reads (by simpa using hk) hblock
    refine ⟨hrule.refuses (by simpa using hrefuses), fun x hx => ?_⟩
    obtain ⟨pre, e1, hrun, -⟩ := hrule
    rw [e1, run_append, hrun, Option.bind_some]
    exact hend x hx
  | case4 acc t r hk =>
    simp only [Option.some.injEq] at h
    subst h
    have hk' : t.kind ≠ .identifier := by simpa using hk
    refine ⟨(Goal.awaits rfl []).refuses (by simp [expect, Expected.accepts, hk']), ?_⟩
    rintro x ⟨⟩

/-- Reading a whole token list answers for the rules goal; it runs out of tokens only
inside a rule. -/
theorem ofTokens_answers (ts : List Token) :
    (∀ p, Program.ofTokens ts = .ok p → Reads [.rules] [.rules] 0 ts []) ∧
    ∀ e, Program.ofTokens ts = .error e →
      Refuses [.rules] 0 ts e ∧ ∀ x, e = .unexpectedEnd x → run [.rules] ts ≠ some [.rules] := by
  unfold Program.ofTokens Reading.ofTokens
  dsimp only
  split
  · next e he =>
    refine ⟨fun p h => ?_, fun e' h => ?_⟩
    · cases h
    · cases h
      exact go_refuses he
  · next he =>
    refine ⟨fun p _ => go_reads he, fun e' h => ?_⟩
    cases h

/-! ## The first fault -/

def BreaksAt (ts : List Token) (i : Nat) : Prop := ¬ Viable (ts.take (i + 1))

/-- The token at place `i` opens a block one deeper than `maxNesting`: the tokens through it
begin a sentence, it is an opening brace, and `maxNesting` blocks are open before it. -/
def TooDeepAt (ts : List Token) (i : Nat) : Prop :=
  Viable (ts.take (i + 1)) ∧ (∃ h : i < ts.length, ts[i].kind = .lbrace) ∧
    openBlocks (ts.take i) = maxNesting

/-- Reading cannot go on at place `i`. -/
def FailsAt (ts : List Token) (i : Nat) : Prop := i < ts.length ∧ (BreaksAt ts i ∨ TooDeepAt ts i)

instance (ts : List Token) (i : Nat) : Decidable (BreaksAt ts i) :=
  inferInstanceAs (Decidable (¬ _))

instance (ts : List Token) (i : Nat) : Decidable (TooDeepAt ts i) :=
  inferInstanceAs (Decidable (_ ∧ _ ∧ _))

instance (ts : List Token) (i : Nat) : Decidable (FailsAt ts i) :=
  inferInstanceAs (Decidable (_ ∧ (_ ∨ _)))

theorem viable_take {ts pre : List Token} {τ : List Goal} (hp : pre <+: ts)
    (hrun : run [.rules] pre = some τ) {j : Nat} (hj : j ≤ pre.length) :
    Viable (ts.take j) := by
  obtain ⟨post, rfl⟩ := hp
  have e : pre = pre.take j ++ pre.drop j := (List.take_append_drop j pre).symm
  rw [e, run_append] at hrun
  rw [viable_iff, List.take_append_of_le_length hj]
  cases h : run [.rules] (pre.take j) with
  | none => simp [h] at hrun
  | some τ' => rfl

theorem not_failsAt_of_reads {ts pre : List Token} {τ : List Goal} (hp : pre <+: ts)
    (hrun : run [.rules] pre = some τ) (hs : Shallow 0 pre) {j : Nat} (hj : j < pre.length) :
    ¬ FailsAt ts j := by
  rintro ⟨-, hb | ⟨-, ⟨hjl, hk⟩, hdeep⟩⟩
  · exact hb (viable_take hp hrun hj)
  · obtain ⟨post, rfl⟩ := hp
    have hget : pre[j]? = some (pre ++ post)[j] := by
      rw [List.getElem?_eq_getElem hj, List.getElem_append_left hj]
    have hlt := hs.lt hget hk
    rw [List.take_append_of_le_length (Nat.le_of_lt hj)] at hdeep
    omega

theorem first_failsAt_unique {ts : List Token} {i i' : Nat} (hi : FailsAt ts i)
    (hmin : ∀ j < i, ¬ FailsAt ts j) (hi' : FailsAt ts i') (hmin' : ∀ j < i', ¬ FailsAt ts j) :
    i = i' := by
  rcases Nat.lt_trichotomy i i' with h | h | h
  · exact absurd hi (hmin' i h)
  · exact h
  · exact absurd hi' (hmin i' h)

theorem take_succ_split (pre post : List Token) (t : Token) :
    (pre ++ t :: post).take (pre.length + 1) = pre ++ [t] := by
  rw [List.take_append, List.take_of_length_le (by omega), Nat.add_sub_cancel_left]
  rfl

/-- When the machine reads all the tokens with no block too deep, reading can go on
everywhere. -/
theorem no_failsAt {ts : List Token} {τ : List Goal} (hrun : run [.rules] ts = some τ)
    (hs : Shallow 0 ts) (i : Nat) : ¬ FailsAt ts i :=
  fun hi => not_failsAt_of_reads (List.prefix_refl ts) hrun hs hi.1 hi

theorem Offers.viable {pre : List Token} {τ : List Goal} {x : Expected}
    (hrun : run [.rules] pre = some τ) (ho : Offers τ x) :
    ∃ t, x.accepts t ∧ Viable (pre ++ [t]) := by
  obtain ⟨t, hx, ht⟩ := ho
  obtain ⟨σ', hσ'⟩ := Option.isSome_iff_exists.1 ht
  exact ⟨t, hx, viable_iff.2 (by simp [run_append, hrun, hσ'])⟩

/-- A place that fails right after a phrase that the machine reads with no block too deep
is the first place that fails. -/
theorem first_failsAt_split {pre post : List Token} {t₀ t : Token} {τ : List Goal} {i : Nat}
    (hrun : run [.rules] pre = some τ) (hs : Shallow 0 pre)
    (hfails : FailsAt (pre ++ t₀ :: post) pre.length) (hi : (pre ++ t₀ :: post)[i]? = some t)
    (hfi : FailsAt (pre ++ t₀ :: post) i) (hmin : ∀ j < i, ¬ FailsAt (pre ++ t₀ :: post) j) :
    i = pre.length ∧ t = t₀ := by
  have hbefore : ∀ j < pre.length, ¬ FailsAt (pre ++ t₀ :: post) j := fun j hj =>
    not_failsAt_of_reads (List.prefix_append pre _) hrun hs hj
  obtain rfl := first_failsAt_unique hfi hmin hfails hbefore
  exact ⟨rfl, by simpa using hi.symm⟩

/-- Reading a token list fails at the first place where it cannot go on, and only there.
Where no such place comes, reading succeeds exactly on a sentence, and otherwise runs out
of tokens where a token it expects would have gone on. At a token that no sentence
continues with, reading reports that token and an expectation that some token would have
met; at a brace that opens a block past the bound, it reports that brace's line and
column. -/
theorem ofTokens_first_fault (ts : List Token) :
    ((∀ i, ¬ FailsAt ts i) →
      ((∃ p, Program.ofTokens ts = .ok p) ↔ ∃ p, Sentence ts p) ∧
      ∀ e, Program.ofTokens ts = .error e →
        ∃ x, e = .unexpectedEnd x ∧ ∃ t, x.accepts t ∧ Viable (ts ++ [t])) ∧
    ∀ i t, ts[i]? = some t → FailsAt ts i → (∀ j < i, ¬ FailsAt ts j) →
      (BreaksAt ts i → ∃ x, Program.ofTokens ts = .error (.unexpected x t) ∧
        ∃ t', x.accepts t' ∧ Viable (ts.take i ++ [t'])) ∧
      (TooDeepAt ts i → Program.ofTokens ts = .error (.tooDeep t.span.line t.span.column)) := by
  obtain ⟨hok, herr⟩ := ofTokens_answers ts
  cases hres : Program.ofTokens ts with
  | ok p =>
    obtain ⟨pre, e, hrun, hs⟩ := hok p hres
    rw [List.append_nil] at e
    subst e
    refine ⟨fun _ => ⟨⟨fun _ => ?_, fun _ => ⟨p, rfl⟩⟩, fun e h => ?_⟩,
      fun i t _ hi => absurd hi (no_failsAt hrun hs i)⟩
    · obtain ⟨rs, hrs⟩ := rules_of_run ts hrun
      exact ⟨⟨rs⟩, hrs⟩
    · cases h
  | error e =>
    obtain ⟨hrefuses, hend⟩ := herr e hres
    cases e with
    | unexpected x t₀ =>
      obtain ⟨pre, post, τ, rfl, hrun, hf, ho, hs⟩ := hrefuses
      -- the refused token is the first place that fails
      have hbreak : BreaksAt (pre ++ t₀ :: post) pre.length := by
        rw [BreaksAt, take_succ_split, viable_iff, run_append, hrun]
        simp [hf]
      have hfails : FailsAt (pre ++ t₀ :: post) pre.length := ⟨by simp, .inl hbreak⟩
      refine ⟨fun hno => absurd hfails (hno _), fun i t hi hfi hmin => ?_⟩
      obtain ⟨rfl, rfl⟩ := first_failsAt_split hrun hs hfails hi hfi hmin
      refine ⟨fun _ => ?_, fun hdeep => absurd hdeep.1 hbreak⟩
      obtain ⟨t', hx, hv⟩ := ho.viable hrun
      exact ⟨x, rfl, t', hx, by simpa using hv⟩
    | unexpectedEnd x =>
      obtain ⟨τ, hrun, ho, hs⟩ := hrefuses
      refine ⟨fun _ => ⟨⟨fun hp => ?_, fun hp => ?_⟩, fun e h => ?_⟩,
        fun i t _ hi => absurd hi (no_failsAt hrun hs i)⟩
      · obtain ⟨p, hp⟩ := hp
        cases hp
      · -- a sentence would take the machine back to the rules goal
        obtain ⟨p, hp⟩ := hp
        exact absurd ((show Rules ts p.rules from hp).run_rules []) (hend x rfl)
      · cases h
        obtain ⟨t, hx, hv⟩ := ho.viable hrun
        exact ⟨x, rfl, t, hx, hv⟩
    | tooDeep line column =>
      obtain ⟨pre, t₀, post, rfl, hk, hrun, hs, hdeep, rfl, rfl⟩ := hrefuses
      obtain ⟨τ, hτ⟩ := Option.isSome_iff_exists.1 hrun
      rw [run_append] at hτ
      obtain ⟨τ', hτ', -⟩ := Option.bind_eq_some_iff.1 hτ
      -- the brace continues a prefix of a sentence, so it is the depth that fails
      have hviable : Viable ((pre ++ t₀ :: post).take (pre.length + 1)) := by
        rw [take_succ_split, viable_iff]
        exact hrun
      have hfails : FailsAt (pre ++ t₀ :: post) pre.length :=
        ⟨by simp, .inr ⟨hviable, ⟨by simp, by simpa using hk⟩, by simpa using hdeep⟩⟩
      refine ⟨fun hno => absurd hfails (hno _), fun i t hi hfi hmin => ?_⟩
      obtain ⟨rfl, rfl⟩ := first_failsAt_split hτ' hs hfails hi hfi hmin
      exact ⟨fun hb => absurd hviable hb, fun _ => rfl⟩

/-- A declaration without its colon: reading stops at the semicolon, the first token that
no sentence continues with, and asks for a colon there. -/
theorem ofTokens_first_fault_missing_colon :
    let ts : List Token := [⟨.identifier, "a", ⟨0, 1, 1, 1⟩⟩, ⟨.lbrace, "\x7b", ⟨2, 3, 1, 3⟩⟩,
      ⟨.identifier, "x", ⟨4, 5, 1, 5⟩⟩, ⟨.semicolon, ";", ⟨6, 7, 1, 7⟩⟩]
    FailsAt ts 3 ∧ (∀ j < 3, ¬ FailsAt ts j) ∧ BreaksAt ts 3 ∧
      ∃ x, Program.ofTokens ts = .error (.unexpected x ⟨.semicolon, ";", ⟨6, 7, 1, 7⟩⟩) ∧
        ∃ t', x.accepts t' ∧ Viable (ts.take 3 ++ [t']) := by
  intro ts
  have hfails : FailsAt ts 3 := by decide
  have hfirst : ∀ j < 3, ¬ FailsAt ts j := by decide
  have hbreak : BreaksAt ts 3 := by decide
  exact ⟨hfails, hfirst, hbreak, ((ofTokens_first_fault ts).2 3 _ rfl hfails hfirst).1 hbreak⟩

end Grammar

end RuleScript
