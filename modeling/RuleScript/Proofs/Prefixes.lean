import RuleScript.Proofs.Grammar
/-! # The prefixes of sentences

A token list begins a sentence of the grammar (`Grammar.Viable`) exactly when a machine
with a stack of goals reads it token by token without refusing one (`viable_iff`). A goal
is what is still owed: rules up to the end of the tokens, a block, the rest of a block
after its opening brace, or one of the single tokens of a loop head or a declaration;
`Goal.Phrase` says which token lists meet each goal. The goal on top of the stack and the
next token alone decide the step (`Goal.step`), since every choice of the grammar is made
by the token that begins it.

`Phrases.run` and `phrases_of_run` tie runs of the machine to the grammar both ways, and
every stack of goals can still be met (`exists_phrases`). Along a run, the `body` goals on
the stack count the blocks opened and not yet closed (`openBlocks_run`).
-/

namespace RuleScript

def Token.depthChange (t : Token) : Int :=
  if t.kind = .lbrace then 1 else if t.kind = .rbrace then -1 else 0

/-- The blocks that the tokens open and do not close: opening braces less closing ones. -/
def openBlocks : List Token → Int
  | [] => 0
  | t :: ts => t.depthChange + openBlocks ts

@[simp] theorem openBlocks_nil : openBlocks [] = 0 := rfl

@[simp] theorem openBlocks_cons (t : Token) (ts : List Token) :
    openBlocks (t :: ts) = t.depthChange + openBlocks ts := rfl

theorem openBlocks_append (a b : List Token) : openBlocks (a ++ b) = openBlocks a + openBlocks b := by
  induction a with
  | nil => simp
  | cons t a ih => simp [ih, Int.add_assoc]

namespace Reader

theorem opensLoop_iff {t : Token} : opensLoop t = true ↔ t.kind = .identifier ∧ t.text = "loop" := by
  simp [opensLoop, Keyword.classify]

end Reader

namespace Grammar

open Reader

/-- A token list that begins a sentence of the grammar. -/
def Viable (ts : List Token) : Prop := ∃ rest p, Sentence (ts ++ rest) p

theorem exists_valueToken {t : Token} (h : Expected.value.accepts t = true) : ∃ v, ValueToken t v := by
  simp only [Expected.accepts, Bool.or_eq_true, beq_iff_eq] at h
  rcases h with (h | h) | h
  · exact ⟨_, .number h⟩
  · exact ⟨_, .string h⟩
  · exact ⟨_, .identifier h⟩

theorem ValueToken.accepts {t : Token} {v : Value} (h : ValueToken t v) :
    Expected.value.accepts t = true := by
  cases h <;> simp [Expected.accepts, *]

/-- What is still to be read. -/
inductive Goal where
  | rules
  | block
  | body
  | loopWord
  | colon
  | value
  | semicolon
deriving DecidableEq, Repr

namespace Goal

def Phrase : Goal → List Token → Prop
  | .rules, ts => ∃ rs, Rules ts rs
  | .block, ts => ∃ body, Block ts body
  | .body, ts => ∃ us ns c, ts = us ++ [c] ∧ Items us ns ∧ c.kind = .rbrace
  | .loopWord, ts => ∃ t, ts = [t] ∧ t.kind = .identifier ∧ t.text = "loop"
  | .colon, ts => ∃ t, ts = [t] ∧ t.kind = .colon
  | .value, ts => ∃ t v, ts = [t] ∧ ValueToken t v
  | .semicolon, ts => ∃ t, ts = [t] ∧ t.kind = .semicolon

/-- The goals that a token turns a goal into, or `none` when no phrase meeting the goal
begins with the token. -/
def step : Goal → Token → Option (List Goal)
  | .rules, t => if t.kind = .identifier then some [.block, .rules] else none
  | .block, t => if t.kind = .lbrace then some [.body] else none
  | .body, t =>
    if t.kind = .rbrace then some []
    else if opensLoop t then some [.block, .body]
    else if t.kind = .ampersand then some [.loopWord, .block, .body]
    else if t.kind = .identifier then some [.colon, .value, .semicolon, .body]
    else none
  | .loopWord, t => if (Expected.keyword .loop).accepts t then some [] else none
  | .colon, t => if t.kind = .colon then some [] else none
  | .value, t => if Expected.value.accepts t then some [] else none
  | .semicolon, t => if t.kind = .semicolon then some [] else none

/-- Everything one step can do. A goal other than rules or a block that a token completes
is met by that token alone. -/
theorem step_eq_some {g : Goal} {t : Token} {γ : List Goal} (h : g.step t = some γ) :
    (g = .rules ∧ t.kind = .identifier ∧ γ = [.block, .rules]) ∨
    (g = .block ∧ t.kind = .lbrace ∧ γ = [.body]) ∨
    (g = .body ∧ t.kind = .identifier ∧ t.text = "loop" ∧ γ = [.block, .body]) ∨
    (g = .body ∧ t.kind = .ampersand ∧ γ = [.loopWord, .block, .body]) ∨
    (g = .body ∧ t.kind = .identifier ∧ t.text ≠ "loop" ∧
      γ = [.colon, .value, .semicolon, .body]) ∨
    (g ≠ .rules ∧ g ≠ .block ∧ γ = [] ∧ g.Phrase [t]) := by
  cases g with
  | rules =>
    by_cases hk : t.kind = .identifier
    · simp only [step, hk, if_true, Option.some.injEq] at h
      exact .inl ⟨rfl, hk, h.symm⟩
    · simp [step, hk] at h
  | block =>
    by_cases hk : t.kind = .lbrace
    · simp only [step, hk, if_true, Option.some.injEq] at h
      exact .inr (.inl ⟨rfl, hk, h.symm⟩)
    · simp [step, hk] at h
  | body =>
    -- the closing brace, then the three kinds of item by their first token
    by_cases hr : t.kind = .rbrace
    · simp only [step, hr, if_true, Option.some.injEq] at h
      exact .inr (.inr (.inr (.inr (.inr ⟨by decide, by decide, h.symm, [], [], t, rfl, .nil, hr⟩))))
    by_cases hl : opensLoop t = true
    · simp only [step, hr, hl, if_true, if_false, Option.some.injEq] at h
      exact .inr (.inr (.inl ⟨rfl, (opensLoop_iff.1 hl).1, (opensLoop_iff.1 hl).2, h.symm⟩))
    by_cases ha : t.kind = .ampersand
    · simp [step, hl, ha] at h
      subst h
      exact .inr (.inr (.inr (.inl ⟨rfl, ha, rfl⟩)))
    by_cases hi : t.kind = .identifier
    · simp [step, hl, hi] at h
      subst h
      have ht : t.text ≠ "loop" := fun e => hl (opensLoop_iff.2 ⟨hi, e⟩)
      exact .inr (.inr (.inr (.inr (.inl ⟨rfl, hi, ht, rfl⟩))))
    · simp [step, hr, hl, ha, hi] at h
  | loopWord =>
    by_cases hk : (Expected.keyword .loop).accepts t = true
    · simp only [step, hk, if_true, Option.some.injEq] at h
      simp only [Expected.accepts, Bool.and_eq_true, beq_iff_eq, Keyword.spelling] at hk
      exact .inr (.inr (.inr (.inr (.inr ⟨by decide, by decide, h.symm, t, rfl, hk⟩))))
    · simp [step, hk] at h
  | colon =>
    by_cases hk : t.kind = .colon
    · simp only [step, hk, if_true, Option.some.injEq] at h
      exact .inr (.inr (.inr (.inr (.inr ⟨by decide, by decide, h.symm, t, rfl, hk⟩))))
    · simp [step, hk] at h
  | value =>
    by_cases hk : Expected.value.accepts t = true
    · simp only [step, hk, if_true, Option.some.injEq] at h
      obtain ⟨v, hv⟩ := exists_valueToken hk
      exact .inr (.inr (.inr (.inr (.inr ⟨by decide, by decide, h.symm, t, v, rfl, hv⟩))))
    · simp [step, hk] at h
  | semicolon =>
    by_cases hk : t.kind = .semicolon
    · simp only [step, hk, if_true, Option.some.injEq] at h
      exact .inr (.inr (.inr (.inr (.inr ⟨by decide, by decide, h.symm, t, rfl, hk⟩))))
    · simp [step, hk] at h

theorem step_rules {t : Token} {γ : List Goal} :
    Goal.rules.step t = some γ ↔ t.kind = .identifier ∧ γ = [.block, .rules] := by
  by_cases hk : t.kind = .identifier <;> simp [step, hk, eq_comm]

theorem depthChange_of_phrase {g : Goal} {t : Token} (hr : g ≠ .rules) (hb : g ≠ .block)
    (hp : g.Phrase [t]) : t.depthChange = if g = .body then -1 else 0 := by
  cases g with
  | rules => exact absurd rfl hr
  | block => exact absurd rfl hb
  | body =>
    obtain ⟨us, ns, c, hus, -, hc⟩ := hp
    obtain ⟨rfl, rfl⟩ : us = [] ∧ c = t := by
      cases us with
      | nil => simpa using hus.symm
      | cons _ us => cases us <;> simp at hus
    simp [Token.depthChange, hc]
  | loopWord =>
    obtain ⟨_, h, hk, -⟩ := hp
    cases h
    simp [Token.depthChange, hk]
  | colon =>
    obtain ⟨_, h, hk⟩ := hp
    cases h
    simp [Token.depthChange, hk]
  | value =>
    obtain ⟨_, _, h, hv⟩ := hp
    cases h
    cases hv <;> simp [Token.depthChange, *]
  | semicolon =>
    obtain ⟨_, h, hk⟩ := hp
    cases h
    simp [Token.depthChange, hk]

theorem rules_not_mem_step {g : Goal} {t : Token} {γ : List Goal} (hg : g ≠ .rules)
    (h : g.step t = some γ) : .rules ∉ γ := by
  rcases step_eq_some h with ⟨rfl, -⟩ | ⟨-, -, rfl⟩ | ⟨-, -, -, rfl⟩ | ⟨-, -, rfl⟩ |
    ⟨-, -, -, rfl⟩ | ⟨-, -, rfl, -⟩
  · exact absurd rfl hg
  all_goals simp

end Goal

/-- One token read against the goals `σ`, innermost first: the goal on top is replaced by
what the token turns it into. -/
def feed : List Goal → Token → Option (List Goal)
  | [], _ => none
  | g :: σ, t => (g.step t).map (· ++ σ)

/-- The machine run over tokens from the goals `σ`, or `none` once a token is refused. -/
def run (σ : List Goal) : List Token → Option (List Goal)
  | [] => some σ
  | t :: ts => (feed σ t).bind fun σ' => run σ' ts

@[simp] theorem feed_nil (t : Token) : feed [] t = none := rfl

@[simp] theorem feed_cons (g : Goal) (σ : List Goal) (t : Token) :
    feed (g :: σ) t = (g.step t).map (· ++ σ) := rfl

@[simp] theorem run_nil (σ : List Goal) : run σ [] = some σ := rfl

@[simp] theorem run_cons (σ : List Goal) (t : Token) (ts : List Token) :
    run σ (t :: ts) = (feed σ t).bind fun σ' => run σ' ts := rfl

theorem run_append (σ : List Goal) (a b : List Token) :
    run σ (a ++ b) = (run σ a).bind fun τ => run τ b := by
  induction a generalizing σ with
  | nil => rfl
  | cons t a ih =>
    simp only [List.cons_append, run_cons]
    cases feed σ t with
    | none => rfl
    | some σ' => exact ih σ'

theorem feed_frame {σ σ' : List Goal} {t : Token} (h : feed σ t = some σ') (ctx : List Goal) :
    feed (σ ++ ctx) t = some (σ' ++ ctx) := by
  cases σ with
  | nil => cases h
  | cons g σ =>
    simp only [feed_cons, Option.map_eq_some_iff] at h
    obtain ⟨γ, hγ, rfl⟩ := h
    simp [hγ]

theorem feed_frame_none {σ : List Goal} {t : Token} (hne : σ ≠ []) (h : feed σ t = none)
    (ctx : List Goal) : feed (σ ++ ctx) t = none := by
  cases σ with
  | nil => exact absurd rfl hne
  | cons g σ => simpa using h

theorem run_frame {σ τ : List Goal} {ts : List Token} (h : run σ ts = some τ)
    (ctx : List Goal) : run (σ ++ ctx) ts = some (τ ++ ctx) := by
  induction ts generalizing σ with
  | nil =>
    simp only [run_nil, Option.some.injEq] at h
    rw [h, run_nil]
  | cons t ts ih =>
    simp only [run_cons, Option.bind_eq_some_iff] at h
    obtain ⟨σ', hf, hr⟩ := h
    simp [feed_frame hf, ih hr]

/-! ## Stacks of goals and their phrases -/

def Phrases : List Goal → List Token → Prop
  | [], ts => ts = []
  | g :: σ, ts => ∃ u v, ts = u ++ v ∧ g.Phrase u ∧ Phrases σ v

theorem Phrases.split {σ τ : List Goal} {w : List Token} (h : Phrases (σ ++ τ) w) :
    ∃ u v, w = u ++ v ∧ Phrases σ u ∧ Phrases τ v := by
  induction σ generalizing w with
  | nil => exact ⟨[], w, rfl, rfl, h⟩
  | cons g σ ih =>
    obtain ⟨u, v, rfl, hg, hv⟩ := h
    obtain ⟨v₁, v₂, rfl, h₁, h₂⟩ := ih hv
    exact ⟨u ++ v₁, v₂, by simp, ⟨u, v₁, rfl, hg, h₁⟩, h₂⟩

theorem Goal.phrase_of_step {g : Goal} {t : Token} {γ : List Goal} {u : List Token}
    (h : g.step t = some γ) (hu : Phrases γ u) : g.Phrase (t :: u) := by
  rcases Goal.step_eq_some h with ⟨rfl, hk, rfl⟩ | ⟨rfl, hk, rfl⟩ | ⟨rfl, hk, ht, rfl⟩ |
    ⟨rfl, hk, rfl⟩ | ⟨rfl, hk, ht, rfl⟩ | ⟨-, -, rfl, hp⟩
  · -- a rule: its block, then the rules after it
    obtain ⟨b, r, rfl, ⟨body, hb⟩, r', _, rfl, ⟨rs, hr⟩, rfl⟩ := hu
    exact ⟨_, by simpa using Rules.cons hk hb hr⟩
  · obtain ⟨b, _, rfl, ⟨us, ns, c, rfl, hi, hc⟩, rfl⟩ := hu
    exact ⟨ns, by simpa using Block.mk hk hi hc⟩
  · -- a loop: its block, then the rest of the enclosing block
    obtain ⟨b, r, rfl, ⟨body, hb⟩, r', _, rfl, ⟨us, ns, c, rfl, hi, hc⟩, rfl⟩ := hu
    exact ⟨t :: b ++ us, _, c, by simp, .cons (.loop hk ht hb) hi, hc⟩
  · obtain ⟨_, r, rfl, ⟨k, rfl, hk', ht'⟩, b, r', rfl, ⟨body, hb⟩, r'', _, rfl,
      ⟨us, ns, c, rfl, hi, hc⟩, rfl⟩ := hu
    exact ⟨t :: k :: b ++ us, _, c, by simp, .cons (.nested hk hk' ht' hb) hi, hc⟩
  · obtain ⟨_, r, rfl, ⟨c, rfl, hc⟩, _, r', rfl, ⟨v, value, rfl, hv⟩, _, r'', rfl,
      ⟨s, rfl, hs⟩, r''', _, rfl, ⟨us, ns, c', rfl, hi, hc'⟩, rfl⟩ := hu
    exact ⟨[t, c, v, s] ++ us, _, c', by simp, .cons (.declaration hk ht hc hv hs) hi, hc'⟩
  · have hu' : u = [] := hu
    subst hu'
    exact hp

/-! ## From the grammar to the machine -/

mutual

theorem Item.run_body : ∀ {ts : List Token} {n : Node}, Item ts n →
    ∀ (σ : List Goal) (v : List Token), run (.body :: σ) (ts ++ v) = run (.body :: σ) v
  | _, _, @Item.loop t ts body hk ht hb, σ, v => by
    have hs : Goal.body.step t = some [.block, .body] := by
      simp [Goal.step, hk, opensLoop_iff.2 ⟨hk, ht⟩]
    simpa [hs] using hb.run_block (.body :: σ) v
  | _, _, @Item.nested a t ts body ha hk ht hb, σ, v => by
    have hs : Goal.body.step a = some [.loopWord, .block, .body] := by
      simp [Goal.step, ha, opensLoop]
    have hw : Goal.loopWord.step t = some [] := by
      simp [Goal.step, Expected.accepts, hk, ht, Keyword.spelling]
    simpa [hs, hw] using hb.run_block (.body :: σ) v
  | _, _, @Item.declaration p c w s value hp hne hc hv hs, σ, v => by
    have h₁ : Goal.body.step p = some [.colon, .value, .semicolon, .body] := by
      have ho : opensLoop p = false := by simp [opensLoop, Keyword.classify, hne]
      simp [Goal.step, hp, ho]
    have h₂ : Goal.colon.step c = some [] := by simp [Goal.step, hc]
    have h₃ : Goal.value.step w = some [] := by simp [Goal.step, hv.accepts]
    have h₄ : Goal.semicolon.step s = some [] := by simp [Goal.step, hs]
    simp [h₁, h₂, h₃, h₄]
termination_by structural _ _ h => h

theorem Block.run_block : ∀ {ts : List Token} {body : List Node}, Block ts body →
    ∀ (σ : List Goal) (v : List Token), run (.block :: σ) (ts ++ v) = run σ v
  | _, _, @Block.mk o c ts body ho hi hc, σ, v => by
    have hs : Goal.block.step o = some [.body] := by simp [Goal.step, ho]
    simpa [hs] using hi.run_body σ c v hc
termination_by structural _ _ h => h

theorem Items.run_body : ∀ {ts : List Token} {ns : List Node}, Items ts ns →
    ∀ (σ : List Goal) (c : Token) (v : List Token), c.kind = .rbrace →
    run (.body :: σ) (ts ++ c :: v) = run σ v
  | _, _, .nil, σ, c, v, hc => by simp [Goal.step, hc]
  | _, _, .cons hi hus, σ, c, v, hc => by
    rw [List.append_assoc, hi.run_body σ, hus.run_body σ c v hc]
termination_by structural _ _ h => h

end

theorem Rules.run_rules {ts : List Token} {rs : List Rule} (h : Rules ts rs) (σ : List Goal) :
    run (.rules :: σ) ts = some (.rules :: σ) := by
  induction h with
  | nil => rfl
  | @cons s ts us body rs hs hb _ ih =>
    have hr : Goal.rules.step s = some [.block, .rules] := Goal.step_rules.2 ⟨hs, rfl⟩
    simpa [hr, hb.run_block] using ih

theorem Goal.Phrase.run {g : Goal} {u : List Token} (h : g.Phrase u) (hg : g ≠ .rules)
    (σ : List Goal) (v : List Token) : RuleScript.Grammar.run (g :: σ) (u ++ v) =
      RuleScript.Grammar.run σ v := by
  cases g with
  | rules => exact absurd rfl hg
  | block =>
    obtain ⟨body, hb⟩ := h
    exact hb.run_block σ v
  | body =>
    obtain ⟨us, ns, c, rfl, hi, hc⟩ := h
    simpa using hi.run_body σ c v hc
  | loopWord =>
    obtain ⟨t, rfl, hk, ht⟩ := h
    simp [Goal.step, Expected.accepts, hk, ht, Keyword.spelling]
  | colon =>
    obtain ⟨t, rfl, hk⟩ := h
    simp [Goal.step, hk]
  | value =>
    obtain ⟨t, w, rfl, hw⟩ := h
    simp [Goal.step, hw.accepts]
  | semicolon =>
    obtain ⟨t, rfl, hk⟩ := h
    simp [Goal.step, hk]

theorem Phrases.run {σ : List Goal} {u : List Token} (h : Phrases σ u) (hσ : .rules ∉ σ)
    (ctx : List Goal) (v : List Token) :
    RuleScript.Grammar.run (σ ++ ctx) (u ++ v) = RuleScript.Grammar.run ctx v := by
  induction σ generalizing u with
  | nil =>
    have hu : u = [] := h
    subst hu
    rfl
  | cons g σ ih =>
    obtain ⟨u₁, u₂, rfl, hg, hs⟩ := h
    simp only [List.mem_cons, not_or] at hσ
    rw [List.cons_append, List.append_assoc, hg.run (Ne.symm hσ.1), ih hs hσ.2]

theorem Goal.exists_phrase (g : Goal) : ∃ u, g.Phrase u := by
  let tok (k : TokenKind) (s : String) : Token := ⟨k, s, default⟩
  cases g with
  | rules => exact ⟨[], [], .nil⟩
  | block =>
    exact ⟨tok .lbrace "\x7b" :: ([] ++ [tok .rbrace "\x7d"]), [], .mk rfl .nil rfl⟩
  | body => exact ⟨[] ++ [tok .rbrace "\x7d"], [], [], _, rfl, .nil, rfl⟩
  | loopWord => exact ⟨_, tok .identifier "loop", rfl, rfl, rfl⟩
  | colon => exact ⟨_, tok .colon ":", rfl, rfl⟩
  | value => exact ⟨_, tok .number "0", _, rfl, .number rfl⟩
  | semicolon => exact ⟨_, tok .semicolon ";", rfl, rfl⟩

theorem exists_phrases (σ : List Goal) : ∃ u, Phrases σ u := by
  induction σ with
  | nil => exact ⟨[], rfl⟩
  | cons g σ ih =>
    obtain ⟨u, hu⟩ := g.exists_phrase
    obtain ⟨v, hv⟩ := ih
    exact ⟨u ++ v, u, v, rfl, hu, hv⟩

/-! ## From the machine to the grammar -/

/-- A run that ends with only rules left has met the goals `σ₁` on the way: it split the
tokens into phrases of `σ₁` and a run of what lay below. -/
theorem phrases_of_run : ∀ (w : List Token) {σ₁ σ₂ σf : List Goal}, .rules ∉ σ₁ →
    (∀ g ∈ σf, g = .rules) → run (σ₁ ++ σ₂) w = some σf →
    ∃ u v, w = u ++ v ∧ Phrases σ₁ u ∧ run σ₂ v = some σf
  | [], σ₁, σ₂, σf, h₁, hf, h => by
    simp only [run_nil, Option.some.injEq] at h
    cases σ₁ with
    | nil => exact ⟨[], [], rfl, rfl, by simpa using h⟩
    | cons g σ₁ =>
      have hg : g = .rules := hf g (by simp [← h])
      exact absurd (hg ▸ List.mem_cons_self) h₁
  | t :: w, σ₁, σ₂, σf, h₁, hf, h => by
    cases σ₁ with
    | nil => exact ⟨[], t :: w, rfl, rfl, h⟩
    | cons g σ₁ =>
      simp only [List.cons_append, run_cons, feed_cons, Option.bind_eq_some_iff,
        Option.map_eq_some_iff] at h
      obtain ⟨_, ⟨γ, hγ, rfl⟩, hrun⟩ := h
      simp only [List.mem_cons, not_or] at h₁
      have hγr : .rules ∉ γ := Goal.rules_not_mem_step (Ne.symm h₁.1) hγ
      rw [← List.append_assoc] at hrun
      obtain ⟨u, v, rfl, hu, hv⟩ :=
        phrases_of_run w (by simp [hγr, h₁.2]) hf hrun
      obtain ⟨u₁, u₂, rfl, hu₁, hu₂⟩ := Phrases.split hu
      exact ⟨t :: u₁ ++ u₂, v, by simp, ⟨t :: u₁, u₂, rfl, Goal.phrase_of_step hγ hu₁, hu₂⟩, hv⟩

theorem rules_of_run (ts : List Token) (h : run [.rules] ts = some [.rules]) :
    ∃ rs, Rules ts rs := by
  match ts, h with
  | [], _ => exact ⟨[], .nil⟩
  | t :: w, h =>
    simp only [run_cons, feed_cons, Option.bind_eq_some_iff, Option.map_eq_some_iff] at h
    obtain ⟨_, ⟨γ, hγ, rfl⟩, hrun⟩ := h
    obtain ⟨hk, rfl⟩ := Goal.step_rules.1 hγ
    obtain ⟨u, v, rfl, hu, hv⟩ :=
      @phrases_of_run w [.block] [.rules] [.rules] (by simp) (by simp) (by simpa using hrun)
    obtain ⟨b, _, rfl, ⟨body, hb⟩, rfl⟩ := hu
    obtain ⟨rs, hrs⟩ := rules_of_run v hv
    exact ⟨_, by simpa using Rules.cons hk hb hrs⟩
termination_by ts.length

theorem run_rules_shape {ts : List Token} {σ₀ σ : List Goal} (h₀ : .rules ∉ σ₀)
    (h : run (σ₀ ++ [.rules]) ts = some σ) : ∃ σ₁, σ = σ₁ ++ [.rules] ∧ .rules ∉ σ₁ := by
  induction ts generalizing σ₀ with
  | nil =>
    simp only [run_nil, Option.some.injEq] at h
    exact ⟨σ₀, h.symm, h₀⟩
  | cons t ts ih =>
    simp only [run_cons, Option.bind_eq_some_iff] at h
    obtain ⟨σ', hf, hr⟩ := h
    cases σ₀ with
    | nil =>
      simp only [List.nil_append, feed_cons, Option.map_eq_some_iff] at hf
      obtain ⟨γ, hγ, rfl⟩ := hf
      obtain ⟨-, rfl⟩ := Goal.step_rules.1 hγ
      exact @ih [.block] (by simp) (by simpa using hr)
    | cons g σ₀ =>
      simp only [List.cons_append, feed_cons, Option.map_eq_some_iff] at hf
      obtain ⟨γ, hγ, rfl⟩ := hf
      simp only [List.mem_cons, not_or] at h₀
      have hγr := Goal.rules_not_mem_step (Ne.symm h₀.1) hγ
      exact @ih (γ ++ σ₀) (by simp [hγr, h₀.2]) (by simpa using hr)

/-- A token list begins a sentence exactly when the machine reads it from the rules goal
without refusing a token. -/
theorem viable_iff {ts : List Token} : Viable ts ↔ (run [.rules] ts).isSome := by
  constructor
  · rintro ⟨rest, p, hs⟩
    have h := Rules.run_rules (show Rules (ts ++ rest) p.rules from hs) []
    rw [run_append] at h
    cases hr : run [.rules] ts with
    | none => simp [hr] at h
    | some τ => rfl
  · intro h
    obtain ⟨σ, hσ⟩ := Option.isSome_iff_exists.1 h
    obtain ⟨σ₀, rfl, h₀⟩ := @run_rules_shape ts [] σ (by simp) hσ
    obtain ⟨u, hu⟩ := exists_phrases σ₀
    have hrun : run [.rules] (ts ++ u) = some [.rules] := by
      have hfin := hu.run h₀ [.rules] []
      rw [List.append_nil] at hfin
      rw [run_append, hσ, Option.bind_some, hfin, run_nil]
    obtain ⟨rs, hrs⟩ := rules_of_run _ hrun
    exact ⟨u, ⟨rs⟩, hrs⟩

instance : DecidablePred Viable := fun ts => decidable_of_iff ((run [.rules] ts).isSome) viable_iff.symm

example : Viable [⟨.identifier, "a", default⟩, ⟨.lbrace, "\x7b", default⟩, ⟨.identifier, "loop", default⟩] ∧
    ¬ Viable [⟨.identifier, "a", default⟩, ⟨.lbrace, "\x7b", default⟩, ⟨.colon, ":", default⟩] := by
  decide

/-! ## Open blocks -/

theorem Goal.depthChange_of_step {g : Goal} {t : Token} {γ : List Goal}
    (h : g.step t = some γ) : t.depthChange = (γ.count .body : Int) - [g].count .body := by
  rcases Goal.step_eq_some h with ⟨rfl, hk, rfl⟩ | ⟨rfl, hk, rfl⟩ | ⟨rfl, hk, -, rfl⟩ |
    ⟨rfl, hk, rfl⟩ | ⟨rfl, hk, -, rfl⟩ | ⟨hr, hb, rfl, hp⟩
  · simp [Token.depthChange, hk]
  · simp [Token.depthChange, hk]
  · simp [Token.depthChange, hk]
  · simp [Token.depthChange, hk]
  · simp [Token.depthChange, hk]
  · rw [Goal.depthChange_of_phrase hr hb hp]
    by_cases hg : g = .body
    · subst hg
      simp
    · simp [hg]

theorem depthChange_of_feed {σ σ' : List Goal} {t : Token} (h : feed σ t = some σ') :
    t.depthChange = (σ'.count .body : Int) - σ.count .body := by
  cases σ with
  | nil => cases h
  | cons g σ =>
    simp only [feed_cons, Option.map_eq_some_iff] at h
    obtain ⟨γ, hγ, rfl⟩ := h
    rw [Goal.depthChange_of_step hγ, List.count_append, List.count_cons, List.count_cons,
      List.count_nil]
    omega

/-- Along a run, the blocks opened and not closed are the `body` goals gained. -/
theorem openBlocks_run {σ τ : List Goal} {ts : List Token} (h : run σ ts = some τ) :
    openBlocks ts = (τ.count .body : Int) - σ.count .body := by
  induction ts generalizing σ with
  | nil =>
    simp only [run_nil, Option.some.injEq] at h
    simp [h]
  | cons t ts ih =>
    simp only [run_cons, Option.bind_eq_some_iff] at h
    obtain ⟨σ', hf, hr⟩ := h
    rw [openBlocks_cons, depthChange_of_feed hf, ih hr]
    omega

end Grammar

end RuleScript
