import RuleScript.Syntax.Parse

/-! # Reading accepts exactly its grammar

The grammar of rule programs, over tokens of any kinds, texts and spans:

    Program := Rule*
    Rule    := Identifier Block
    Block   := '{' Item* '}'
    Item    := 'loop' Block | '&' 'loop' Block | Identifier ':' Value ';'
    Value   := Number | String | Identifier

where `loop` stands for an identifier spelled `loop` and the property of a declaration
is an identifier spelled any other way. A derivation builds its program: selectors and
properties are the identifiers' texts, a declaration has the span of its property, a
number is kept as its canonical digits, and the items keep the order of their tokens.

The grammar itself puts no bound on nesting. `Node.nesting` counts how deep the blocks
of an item nest, and `Program.nesting` the same for a program, each rule's own block
counting as one.

Main statement: `ofTokens_eq_ok_iff`. Reading succeeds with the program `p` exactly when
the tokens are a sentence whose derivation builds `p` and `p` nests no deeper than
`maxNesting`; and no sentence has two derivations (`Sentence.unique`).
-/

namespace RuleScript

namespace Grammar

inductive ValueToken : Token → Value → Prop
  | number {t : Token} : t.kind = .number →
      ValueToken t (.literal (.integer (canonicalDigits t.text)))
  | string {t : Token} : t.kind = .string → ValueToken t (.literal (.string t.text))
  | identifier {t : Token} : t.kind = .identifier → ValueToken t (.ref t.text)

mutual

/-- `Item ts n`: the tokens `ts` are one item, and its derivation builds `n`. -/
inductive Item : List Token → Node → Prop
  | loop {t : Token} {ts : List Token} {body : List Node} :
      t.kind = .identifier → t.text = "loop" → Block ts body →
      Item (t :: ts) (.loop .plain body)
  | nested {a t : Token} {ts : List Token} {body : List Node} :
      a.kind = .ampersand → t.kind = .identifier → t.text = "loop" → Block ts body →
      Item (a :: t :: ts) (.loop .nested body)
  | declaration {p c v s : Token} {value : Value} :
      p.kind = .identifier → p.text ≠ "loop" → c.kind = .colon → ValueToken v value →
      s.kind = .semicolon → Item [p, c, v, s] (.declaration ⟨p.text, value, p.span⟩)

inductive Block : List Token → List Node → Prop
  | mk {o c : Token} {ts : List Token} {body : List Node} :
      o.kind = .lbrace → Items ts body → c.kind = .rbrace → Block (o :: (ts ++ [c])) body

inductive Items : List Token → List Node → Prop
  | nil : Items [] []
  | cons {ts us : List Token} {n : Node} {ns : List Node} :
      Item ts n → Items us ns → Items (ts ++ us) (n :: ns)

end

inductive Rules : List Token → List Rule → Prop
  | nil : Rules [] []
  | cons {s : Token} {ts us : List Token} {body : List Node} {rs : List Rule} :
      s.kind = .identifier → Block ts body → Rules us rs →
      Rules (s :: (ts ++ us)) (⟨s.text, body⟩ :: rs)

/-- The tokens `ts` are a sentence of the grammar whose derivation builds `p`. -/
def Sentence (ts : List Token) (p : Program) : Prop := Rules ts p.rules

end Grammar

mutual

def Node.nesting : Node → Nat
  | .declaration _ => 0
  | .loop _ body => Node.nestingOf body + 1

def Node.nestingOf : List Node → Nat
  | [] => 0
  | n :: ns => max n.nesting (Node.nestingOf ns)

end

def Rule.nesting (r : Rule) : Nat := Node.nestingOf r.body + 1

/-- How deep the blocks of a program nest. -/
def Program.nesting (p : Program) : Nat := (p.rules.map Rule.nesting).foldr max 0

theorem Program.nesting_le_iff (p : Program) (k : Nat) :
    p.nesting ≤ k ↔ ∀ r ∈ p.rules, r.nesting ≤ k := by
  obtain ⟨rules⟩ := p
  induction rules with
  | nil => simp [Program.nesting]
  | cons r rs ih =>
    simp only [Program.nesting, List.map_cons, List.foldr_cons, Nat.max_le, List.mem_cons,
      forall_eq_or_imp] at ih ⊢
    rw [ih]

/-! ## Single tokens -/

namespace Reader

theorem expect_eq_ok {e : Expected} {ts : List Token} {t : Token} {r : List Token}
    {hr : r.length < ts.length} (h : expect e ts = .ok (t, ⟨r, hr⟩)) :
    ts = t :: r ∧ e.accepts t = true := by
  cases ts with
  | nil => simp [expect] at h
  | cons t' r' =>
    by_cases ha : e.accepts t' = true
    · simp only [expect, ha, if_true, Except.ok.injEq, Prod.mk.injEq, Subtype.mk.injEq] at h
      obtain ⟨rfl, rfl⟩ := h
      exact ⟨rfl, ha⟩
    · simp [expect, ha] at h

theorem expect_cons {e : Expected} {t : Token} (h : e.accepts t = true) (r : List Token) :
    expect e (t :: r) = .ok (t, ⟨r, Nat.lt_add_one r.length⟩) := by
  simp [expect, h]

theorem valueOf_iff {t : Token} {v : Value} : valueOf t = some v ↔ Grammar.ValueToken t v := by
  constructor
  · intro h
    unfold valueOf at h
    split at h <;> simp only [Option.some.injEq, reduceCtorEq] at h <;> subst h
    · exact .number ‹_›
    · exact .string ‹_›
    · exact .identifier ‹_›
  · rintro (⟨hk⟩ | ⟨hk⟩ | ⟨hk⟩) <;> simp [valueOf, hk]

end Reader

/-! ## Every sentence within the bound is read

Each lemma reads the tokens `full`, which are one phrase `ts` followed by anything,
`rest`; it stops right after the phrase. -/

namespace Grammar

open Reader

def ClosesItems (rest : List Token) : Prop := ∀ t ∈ rest.head?, t.kind = .rbrace

theorem Item.head {ts : List Token} {n : Node} (h : Item ts n) :
    ∃ t r, ts = t :: r ∧ t.kind ≠ .rbrace := by
  cases h with
  | loop hk _ _ => exact ⟨_, _, rfl, by simp [hk]⟩
  | nested hk _ _ _ => exact ⟨_, _, rfl, by simp [hk]⟩
  | declaration hk _ _ _ _ => exact ⟨_, _, rfl, by simp [hk]⟩

mutual

theorem Item.read : ∀ {ts : List Token} {n : Node}, Item ts n → ∀ (depth : Nat),
    depth + n.nesting ≤ maxNesting → ∀ {full rest : List Token}, full = ts ++ rest →
    ∃ hr, item depth full = .ok (n, ⟨rest, hr⟩)
  | _, _, @Item.loop t ts body hk ht hb, depth, hd, full, rest, hfull => by
    have hf : full = t :: (ts ++ rest) := hfull
    subst hf
    obtain ⟨hr, e⟩ := hb.read depth (by simpa [Node.nesting] using hd) rfl
    have ho : opensLoop t = true := by simp [opensLoop, Keyword.classify, hk, ht]
    refine ⟨by simp only [List.length_append, List.length_cons] at hr ⊢; omega, ?_⟩
    rw [item.eq_1, if_pos ho, e]
  | _, _, @Item.nested a t ts body ha hk ht hb, depth, hd, full, rest, hfull => by
    have hf : full = a :: t :: (ts ++ rest) := hfull
    subst hf
    obtain ⟨hr, e⟩ := hb.read depth (by simpa [Node.nesting] using hd) rfl
    have ho : opensLoop a = false := by simp [opensLoop, ha]
    refine ⟨by simp only [List.length_append, List.length_cons] at hr ⊢; omega, ?_⟩
    rw [item.eq_1, if_neg (by simp [ho]), if_pos (by simp [ha]),
      expect_cons (by simp [Expected.accepts, hk, ht, Keyword.spelling])]
    simp only []
    rw [e]
  | _, _, @Item.declaration p c v s value hp hne hc hv hs, depth, _, full, rest, hfull => by
    have hf : full = p :: c :: v :: s :: rest := hfull
    subst hf
    have ho : opensLoop p = false := by simp [opensLoop, Keyword.classify, hne]
    refine ⟨by simp only [List.length_cons]; omega, ?_⟩
    rw [item.eq_1, if_neg (by simp [ho]), if_neg (by simp [hp]), declaration.eq_1,
      expect_cons (by simp [Expected.accepts, hp])]
    simp only []
    rw [expect_cons (by simp [Expected.accepts, hc])]
    simp only []
    rw [valueOf_iff.2 hv]
    simp only []
    rw [expect_cons (by simp [Expected.accepts, hs])]
termination_by structural _ _ h => h

theorem Block.read : ∀ {ts : List Token} {body : List Node}, Block ts body → ∀ (depth : Nat),
    depth + (Node.nestingOf body + 1) ≤ maxNesting → ∀ {full rest : List Token},
    full = ts ++ rest → ∃ hr, block depth full = .ok (body, ⟨rest, hr⟩)
  | _, _, @Block.mk o c ts body ho hi hc, depth, hd, full, rest, hfull => by
    have hf : full = o :: ((ts ++ [c]) ++ rest) := hfull
    subst hf
    have hd' : depth + 1 + Node.nestingOf body ≤ maxNesting := by omega
    have hsplit : (ts ++ [c]) ++ rest = ts ++ (c :: rest) := by simp
    have hclose : ClosesItems (c :: rest) := by simp [ClosesItems, hc]
    obtain ⟨hr, e⟩ := hi.read (depth + 1) hd' #[] hsplit hclose
    refine ⟨by simp only [List.length_append, List.length_cons] at hr ⊢; omega, ?_⟩
    rw [block.eq_1, expect_cons (by simp [Expected.accepts, ho])]
    simp only []
    rw [if_neg (by omega), e]
    simp only []
    rw [expect_cons (by simp [Expected.accepts, hc])]
    simp
termination_by structural _ _ h => h

theorem Items.read : ∀ {ts : List Token} {ns : List Node}, Items ts ns → ∀ (depth : Nat),
    depth + Node.nestingOf ns ≤ maxNesting → ∀ (acc : Array Node) {full rest : List Token},
    full = ts ++ rest → ClosesItems rest →
    ∃ hr, items depth full acc = .ok (acc.toList ++ ns, ⟨rest, hr⟩)
  | _, _, .nil, depth, _, acc, full, rest, hfull, hrest => by
    have hf : full = rest := hfull
    subst hf
    refine ⟨Nat.le_refl _, ?_⟩
    cases full with
    | nil => simp [items.eq_1]
    | cons t r =>
      have hk : t.kind = .rbrace := hrest t rfl
      simp [items.eq_2, hk]
  | _, _, @Items.cons ts us n ns hi hus, depth, hd, acc, full, rest, hfull, hrest => by
    have hd' : depth + n.nesting ≤ maxNesting ∧ depth + Node.nestingOf ns ≤ maxNesting := by
      simp only [Node.nestingOf] at hd
      omega
    -- both recursive calls come before the head of the item is split off
    obtain ⟨hr1, e1⟩ := hi.read depth hd'.1 (rfl : ts ++ (us ++ rest) = _)
    obtain ⟨hr2, e2⟩ := hus.read depth hd'.2 (acc.push n) rfl hrest
    obtain ⟨t, r, rfl, hk⟩ := hi.head
    have hf : full = t :: (r ++ (us ++ rest)) := by simp [hfull]
    subst hf
    replace e1 : item depth (t :: (r ++ (us ++ rest))) = .ok (n, ⟨us ++ rest, hr1⟩) := e1
    refine ⟨by simp only [List.length_append, List.length_cons] at hr1 hr2 ⊢; omega, ?_⟩
    rw [items.eq_2, if_neg (by simp [hk]), e1]
    simp only []
    rw [e2]
    simp
termination_by structural _ _ h => h

end

/-! ## What is read is a sentence within the bound

The three readers call each other; each step lemma below says that one of them reads a
phrase of the grammar, provided those it calls do so on shorter tokens, and
`read_sound` ties the knot by induction on the number of tokens. -/

theorem declaration_of_read {ts r : List Token} {n : Node} {hr : r.length < ts.length}
    (h : declaration ts = .ok (n, ⟨r, hr⟩)) :
    ∃ p c v s value, ts = p :: c :: v :: s :: r ∧ p.kind = .identifier ∧ c.kind = .colon ∧
      ValueToken v value ∧ s.kind = .semicolon ∧ n = .declaration ⟨p.text, value, p.span⟩ := by
  rw [declaration.eq_1] at h
  split at h
  · cases h
  · next p r1 hr1 he1 =>
    obtain ⟨rfl, hp⟩ := expect_eq_ok he1
    split at h
    · cases h
    · next c r2 hr2 he2 =>
      obtain ⟨rfl, hc⟩ := expect_eq_ok he2
      cases r2 with
      | nil => simp at h
      | cons v r3 =>
        dsimp only at h
        split at h
        · cases h
        · next value hv =>
          split at h
          · cases h
          · next s r4 hr4 he4 =>
            obtain ⟨rfl, hs⟩ := expect_eq_ok he4
            simp only [Except.ok.injEq, Prod.mk.injEq, Subtype.mk.injEq] at h
            obtain ⟨rfl, rfl⟩ := h
            simp only [Expected.accepts, beq_iff_eq] at hp hc hs
            exact ⟨p, c, v, s, value, rfl, hp, hc, valueOf_iff.1 hv, hs, rfl⟩

def ItemSound (ts : List Token) : Prop :=
  ∀ depth n r hr, depth ≤ maxNesting → item depth ts = .ok (n, ⟨r, hr⟩) →
    ∃ pre, ts = pre ++ r ∧ Item pre n ∧ depth + n.nesting ≤ maxNesting

def BlockSound (ts : List Token) : Prop :=
  ∀ depth body r hr, block depth ts = .ok (body, ⟨r, hr⟩) →
    ∃ pre, ts = pre ++ r ∧ Block pre body ∧ depth + (Node.nestingOf body + 1) ≤ maxNesting

/-- Reading items from `ts` yields items of the grammar, up to a closing brace or the
end. -/
def ItemsSound (ts : List Token) : Prop :=
  ∀ depth acc body r hr, depth ≤ maxNesting → items depth ts acc = .ok (body, ⟨r, hr⟩) →
    ∃ pre ns, ts = pre ++ r ∧ Items pre ns ∧ body = acc.toList ++ ns ∧
      depth + Node.nestingOf ns ≤ maxNesting ∧ ClosesItems r

theorem itemSound {ts : List Token} (hb : ∀ ts', ts'.length < ts.length → BlockSound ts') :
    ItemSound ts := by
  intro depth n r hr hdepth h
  match ts, hr, h, hb with
  | [], _, h, _ =>
    rw [item.eq_2, declaration.eq_1] at h
    simp [expect] at h
  | t :: ts, hr, h, hb =>
    rw [item.eq_1] at h
    split at h
    · next ho =>
      split at h
      · cases h
      · next body r1 hr1 he =>
        simp only [Except.ok.injEq, Prod.mk.injEq, Subtype.mk.injEq] at h
        obtain ⟨rfl, rfl⟩ := h
        obtain ⟨pre, rfl, hB, hd⟩ := hb ts (by simp) depth body _ hr1 he
        simp only [opensLoop, Bool.and_eq_true, beq_iff_eq, Keyword.classify] at ho
        obtain ⟨hk, ht⟩ := ho
        refine ⟨t :: pre, rfl, .loop hk (by simpa using ht) hB, ?_⟩
        simpa [Node.nesting] using hd
    · split at h
      · next ho ha =>
        split at h
        · cases h
        · next k r1 hr1 he1 =>
          obtain ⟨rfl, hk⟩ := expect_eq_ok he1
          split at h
          · cases h
          · next body r2 hr2 he =>
            simp only [Except.ok.injEq, Prod.mk.injEq, Subtype.mk.injEq] at h
            obtain ⟨rfl, rfl⟩ := h
            obtain ⟨pre, rfl, hB, hd⟩ := hb r1 (by simp only [List.length_cons]; omega) depth body _
              hr2 he
            simp only [Expected.accepts, Bool.and_eq_true, beq_iff_eq, Keyword.spelling] at hk
            simp only [beq_iff_eq] at ha
            refine ⟨t :: k :: pre, rfl, .nested ha hk.1 hk.2 hB, ?_⟩
            simpa [Node.nesting] using hd
      · next ho ha =>
        obtain ⟨p, c, v, s, value, e, hp, hc, hv, hs, rfl⟩ := declaration_of_read h
        simp only [List.cons.injEq] at e
        obtain ⟨rfl, rfl⟩ := e
        have hne : t.text ≠ "loop" := by
          simpa [opensLoop, hp, Keyword.classify] using ho
        exact ⟨[t, c, v, s], rfl, .declaration hp hne hc hv hs,
          by simpa [Node.nesting] using hdepth⟩

theorem blockSound {ts : List Token} (hi : ∀ ts', ts'.length < ts.length → ItemsSound ts') :
    BlockSound ts := by
  intro depth body r hr h
  rw [block.eq_1] at h
  split at h
  · cases h
  · next o r1 hr1 he1 =>
    obtain ⟨rfl, ho⟩ := expect_eq_ok he1
    split at h
    · cases h
    · next hdep =>
      split at h
      · cases h
      · next body' r2 hr2 he =>
        split at h
        · cases h
        · next c r3 hr3 he3 =>
          simp only [Except.ok.injEq, Prod.mk.injEq, Subtype.mk.injEq] at h
          obtain ⟨rfl, rfl⟩ := h
          obtain ⟨rfl, hc⟩ := expect_eq_ok he3
          obtain ⟨pre, ns, rfl, hI, hbody, hd, -⟩ :=
            hi r1 (by simp) (depth + 1) #[] body' _ hr2 (by omega) he
          simp only [Expected.accepts, beq_iff_eq] at ho hc
          simp only [List.nil_append] at hbody
          subst hbody
          exact ⟨o :: (pre ++ [c]), by simp, .mk ho hI hc, by omega⟩

theorem itemsSound {ts : List Token} (hi : ItemSound ts)
    (hs : ∀ ts', ts'.length < ts.length → ItemsSound ts') : ItemsSound ts := by
  intro depth acc body r hr hdepth h
  match ts, hr, h, hi, hs with
  | [], _, h, _, _ =>
    rw [items.eq_1] at h
    simp only [Except.ok.injEq, Prod.mk.injEq, Subtype.mk.injEq] at h
    obtain ⟨rfl, rfl⟩ := h
    exact ⟨[], [], rfl, .nil, by simp, by simpa [Node.nestingOf] using hdepth,
      by simp [ClosesItems]⟩
  | t :: ts, hr, h, hi, hs =>
    rw [items.eq_2] at h
    split at h
    · next hk =>
      simp only [Except.ok.injEq, Prod.mk.injEq, Subtype.mk.injEq] at h
      obtain ⟨rfl, rfl⟩ := h
      simp only [beq_iff_eq] at hk
      exact ⟨[], [], rfl, .nil, by simp, by simpa [Node.nestingOf] using hdepth,
        by simp [ClosesItems, hk]⟩
    · split at h
      · cases h
      · next n r1 hr1 he1 =>
        split at h
        · cases h
        · next body' r2 hr2 he2 =>
          simp only [Except.ok.injEq, Prod.mk.injEq, Subtype.mk.injEq] at h
          obtain ⟨rfl, rfl⟩ := h
          obtain ⟨pre1, e1, hI, hd1⟩ := hi depth n r1 hr1 hdepth he1
          obtain ⟨pre2, ns, rfl, hIs, rfl, hd2, hclose⟩ :=
            hs r1 hr1 depth (acc.push n) body' r2 hr2 hdepth he2
          refine ⟨pre1 ++ pre2, n :: ns, by simp [e1], .cons hI hIs, by simp, ?_, hclose⟩
          simp only [Node.nestingOf]
          omega

/-- The three readers read only phrases of the grammar, within the bound. -/
theorem read_sound (ts : List Token) : ItemSound ts ∧ BlockSound ts ∧ ItemsSound ts :=
  have shorter : ∀ ts', ts'.length < ts.length →
      ItemSound ts' ∧ BlockSound ts' ∧ ItemsSound ts' := fun ts' _ => read_sound ts'
  have hitem := itemSound fun ts' hl => (shorter ts' hl).2.1
  ⟨hitem, blockSound fun ts' hl => (shorter ts' hl).2.2,
    itemsSound hitem fun ts' hl => (shorter ts' hl).2.2⟩
termination_by ts.length

/-! ## No sentence has two derivations

A phrase of the grammar is never a proper prefix of another phrase of the same kind: the
first token decides the production, and a block ends at its own closing brace. -/

theorem ValueToken.unique {t : Token} {v v' : Value} (h : ValueToken t v) (h' : ValueToken t v') :
    v = v' := by
  cases h <;> cases h' <;> simp_all

mutual

theorem Item.unique : ∀ {ts ts' : List Token} {n n' : Node}, Item ts n → Item ts' n' →
    ∀ {rest rest' : List Token}, ts ++ rest = ts' ++ rest' → ts = ts' ∧ n = n'
  | _, _, _, _, @Item.loop t ts body hk ht hb, h', rest, rest', e => by
    cases h' with
    | loop _ _ hb' =>
      simp only [List.cons_append, List.cons.injEq] at e
      obtain ⟨rfl, e⟩ := e
      obtain ⟨rfl, rfl⟩ := hb.unique hb' e
      exact ⟨rfl, rfl⟩
    | nested ha' _ _ _ =>
      simp only [List.cons_append, List.cons.injEq] at e
      simp [e.1 ▸ hk] at ha'
    | declaration _ hne' _ _ _ =>
      simp only [List.cons_append, List.cons.injEq] at e
      exact absurd (e.1 ▸ ht) hne'
  | _, _, _, _, @Item.nested a t ts body ha hk ht hb, h', rest, rest', e => by
    cases h' with
    | loop hk' _ _ =>
      simp only [List.cons_append, List.cons.injEq] at e
      simp [e.1 ▸ ha] at hk'
    | nested _ _ _ hb' =>
      simp only [List.cons_append, List.cons.injEq] at e
      obtain ⟨rfl, rfl, e⟩ := e
      obtain ⟨rfl, rfl⟩ := hb.unique hb' e
      exact ⟨rfl, rfl⟩
    | declaration hp' _ _ _ _ =>
      simp only [List.cons_append, List.cons.injEq] at e
      simp [e.1 ▸ ha] at hp'
  | _, _, _, _, @Item.declaration p c v s value hp hne hc hv hs, h', rest, rest', e => by
    cases h' with
    | loop _ ht' _ =>
      simp only [List.cons_append, List.cons.injEq] at e
      exact absurd (e.1 ▸ ht') hne
    | nested ha' _ _ _ =>
      simp only [List.cons_append, List.cons.injEq] at e
      simp [e.1 ▸ hp] at ha'
    | declaration _ _ _ hv' _ =>
      simp only [List.cons_append, List.cons.injEq] at e
      obtain ⟨rfl, rfl, rfl, rfl, -⟩ := e
      obtain rfl := hv.unique hv'
      exact ⟨rfl, rfl⟩

theorem Block.unique : ∀ {ts ts' : List Token} {body body' : List Node}, Block ts body →
    Block ts' body' → ∀ {rest rest' : List Token}, ts ++ rest = ts' ++ rest' →
    ts = ts' ∧ body = body'
  | _, _, _, _, @Block.mk o c ts body _ hi hc, @Block.mk o' c' ts' body' _ hi' hc', rest, rest',
      e => by
    simp only [List.cons_append, List.cons.injEq, List.append_assoc] at e
    obtain ⟨rfl, e⟩ := e
    obtain ⟨rfl, rfl⟩ := hi.unique hi' e (by simp [ClosesItems, hc]) (by simp [ClosesItems, hc'])
    simp only [List.append_cancel_left_eq, List.cons.injEq] at e
    obtain ⟨rfl, -⟩ := e
    exact ⟨rfl, rfl⟩

theorem Items.unique : ∀ {ts ts' : List Token} {ns ns' : List Node}, Items ts ns →
    Items ts' ns' → ∀ {rest rest' : List Token}, ts ++ rest = ts' ++ rest' → ClosesItems rest →
    ClosesItems rest' → ts = ts' ∧ ns = ns'
  | _, _, _, _, .nil, .nil, _, _, _, _, _ => ⟨rfl, rfl⟩
  | _, _, _, _, .nil, .cons hi' _, _, _, e, hc, _ => by
    obtain ⟨t, r, rfl, hk⟩ := hi'.head
    simp only [List.nil_append, List.cons_append, List.append_assoc] at e
    exact absurd (hc t (by simp [e])) hk
  | _, _, _, _, .cons hi _, .nil, _, _, e, _, hc' => by
    obtain ⟨t, r, rfl, hk⟩ := hi.head
    simp only [List.nil_append, List.cons_append, List.append_assoc] at e
    exact absurd (hc' t (by simp [← e])) hk
  | _, _, _, _, .cons hi hus, .cons hi' hus', _, _, e, hc, hc' => by
    simp only [List.append_assoc] at e
    obtain ⟨rfl, rfl⟩ := hi.unique hi' e
    obtain ⟨rfl, rfl⟩ := hus.unique hus' (List.append_cancel_left e) hc hc'
    exact ⟨rfl, rfl⟩

end

theorem Rules.unique {ts : List Token} {rs rs' : List Rule} (h : Rules ts rs) (h' : Rules ts rs') :
    rs = rs' := by
  induction h generalizing rs' with
  | nil =>
    cases h' with
    | nil => rfl
  | @cons s ts us body rs _ hb _ ih =>
    generalize e : s :: (ts ++ us) = full at h'
    cases h' with
    | nil => cases e
    | cons _ hb' hus' =>
      simp only [List.cons.injEq] at e
      obtain ⟨rfl, e⟩ := e
      obtain ⟨rfl, rfl⟩ := hb.unique hb' e
      rw [ih (List.append_cancel_left e ▸ hus')]

/-- The grammar is unambiguous: a sentence has one derivation. -/
theorem Sentence.unique {ts : List Token} {p q : Program} (hp : Sentence ts p)
    (hq : Sentence ts q) : p = q := by
  obtain ⟨rs⟩ := p
  obtain ⟨rs'⟩ := q
  rw [show rs = rs' from Rules.unique hp hq]

/-! ## Programs -/

theorem go_of_rules {ts : List Token} {rs : List Rule} (h : Rules ts rs)
    (hd : ∀ r ∈ rs, r.nesting ≤ maxNesting) (acc : Array Rule) :
    Reading.go ts acc = ⟨acc.toList ++ rs, none, none⟩ := by
  induction h generalizing acc with
  | nil => simp [Reading.go]
  | @cons s ts us body rs hs hb _ ih =>
    have hr : Rule.nesting ⟨s.text, body⟩ ≤ maxNesting := hd _ List.mem_cons_self
    obtain ⟨hlen, e⟩ := hb.read 0 (by simpa [Rule.nesting] using hr) rfl
    rw [Reading.go.eq_2, if_pos (by simp [hs]), e]
    simp only []
    rw [ih (fun r hm => hd r (List.mem_cons_of_mem _ hm))]
    simp

/-- Reading that ends without a fault has read rules that form a sentence within the
bound. -/
theorem rules_of_go {ts : List Token} {acc : Array Rule} (h : (Reading.go ts acc).fault = none) :
    ∃ rs, Rules ts rs ∧ (Reading.go ts acc).rules = acc.toList ++ rs ∧
      ∀ r ∈ rs, r.nesting ≤ maxNesting := by
  fun_induction Reading.go ts acc with
  | case1 acc => exact ⟨[], .nil, by simp, by simp⟩
  | case2 => simp at h
  | case3 acc t r hk body r' hr' hb _ ih =>
    obtain ⟨rs, hrs, hrules, hd⟩ := ih h
    obtain ⟨pre, rfl, hB, hd0⟩ := (read_sound r).2.1 0 body r' hr' hb
    refine ⟨⟨t.text, body⟩ :: rs, .cons (by simpa using hk) hB hrs, by simp [hrules], ?_⟩
    simp only [List.mem_cons, forall_eq_or_imp]
    exact ⟨by simpa [Rule.nesting] using hd0, hd⟩
  | case4 => simp at h

end Grammar

open Grammar in
/-- A program read from tokens is built by a derivation of them, and nests within the
bound. -/
theorem sentence_of_ofTokens {ts : List Token} {p : Program} (h : Program.ofTokens ts = .ok p) :
    Sentence ts p ∧ p.nesting ≤ maxNesting := by
  unfold Program.ofTokens Reading.ofTokens at h
  dsimp only at h
  split at h
  · cases h
  · next hf =>
    obtain ⟨rs, hrs, hrules, hd⟩ := rules_of_go hf
    simp only [Except.ok.injEq] at h
    subst h
    simp only [List.nil_append] at hrules
    rw [hrules]
    exact ⟨hrs, (Program.nesting_le_iff _ _).2 hd⟩

open Grammar in
/-- Reading accepts exactly the sentences of the grammar whose blocks nest at most
`maxNesting` deep, the rule's own block counting as one, and then yields the program
their derivation builds; no sentence has a second derivation. -/
theorem ofTokens_eq_ok_iff (ts : List Token) (p : Program) :
    (Program.ofTokens ts = .ok p ↔ Sentence ts p ∧ p.nesting ≤ maxNesting) ∧
      ∀ q q', Sentence ts q → Sentence ts q' → q = q' := by
  refine ⟨⟨sentence_of_ofTokens, fun ⟨hs, hn⟩ => ?_⟩, fun q q' hq hq' => hq.unique hq'⟩
  have e := go_of_rules hs ((Program.nesting_le_iff p maxNesting).1 hn) #[]
  simp [Program.ofTokens, Reading.ofTokens, e]

end RuleScript
