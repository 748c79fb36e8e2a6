import RuleScript.Proofs.Segmentation
import RuleScript.Proofs.Meaning
import RuleScript.Syntax.Parse
/-! # Integer literals are canonical numerals

Reading keeps a number's digits as text, with its leading zeros dropped
(`canonicalDigits`), so no literal is too wide; the integer literal of a number is written
with `toString` (`Value.integer`). The two agree.

Main statement: `integer_literals_canonical`. The canonical digits of a string of decimal
digits are the decimal numeral of the number it stands for (`decimalValue`). Hence two number
tokens give the same literal exactly when they stand for the same number, dropping leading
zeros twice changes nothing, and reading `x: ` with a number padded by any count of zeros
gives the integer literal of that number, however large.
-/

namespace RuleScript

/-! ## Digits and numbers -/

theorem decimalValue_eq_ofDigitChars (ds : String) :
    decimalValue ds = Nat.ofDigitChars 10 ds.toList 0 := rfl

@[simp] theorem decimalValue_repr (n : Nat) : decimalValue n.repr = n := by
  simp [decimalValue_eq_ofDigitChars]

theorem ofDigitChars_zeros_append (k : Nat) (cs : List Char) :
    Nat.ofDigitChars 10 (List.replicate k '0' ++ cs) 0 = Nat.ofDigitChars 10 cs 0 := by
  rw [Nat.ofDigitChars_append, Nat.ofDigitChars_replicate_zero, Nat.mul_zero]

theorem digit_value_lt {c : Char} (h : c.isDigit = true) : c.toNat - '0'.toNat < 10 := by
  have hb := Char.isDigit_iff_toNat.1 h
  simp only [Char.reduceToNat] at hb ⊢
  omega

theorem digitChar_value {c : Char} (h : c.isDigit = true) :
    Nat.digitChar (c.toNat - '0'.toNat) = c := by
  have hb := Char.isDigit_iff_toNat.1 h
  simp only [Char.reduceToNat] at hb ⊢
  rw [← Char.toNat_inj, Nat.toNat_digitChar_of_lt_ten (by omega)]
  omega

/-- Digits that do not start with `0` are the decimal numeral of the number they stand
for. -/
theorem toDigits_ofDigitChars {c : Char} {cs : List Char} (hc : c ≠ '0')
    (hd : ∀ x ∈ c :: cs, x.isDigit = true) :
    Nat.toDigits 10 (Nat.ofDigitChars 10 (c :: cs) 0) = c :: cs := by
  induction cs using List.reverseRecOn with
  | nil =>
    have hc₁ := hd c List.mem_cons_self
    rw [Nat.ofDigitChars_cons, Nat.ofDigitChars_nil, Nat.mul_zero, Nat.zero_add,
      Nat.toDigits_of_lt_base (digit_value_lt hc₁), digitChar_value hc₁]
  | append_singleton cs x ih =>
    have ih := ih fun y hy => hd y (by simp only [List.mem_cons, List.mem_append] at hy ⊢; tauto)
    have hx := hd x (by simp)
    -- the digits before the last one stand for a positive number, since they start with `c`
    have hpos : 0 < Nat.ofDigitChars 10 (c :: cs) 0 := by
      refine Nat.pos_of_ne_zero fun h0 => hc ?_
      rw [h0, Nat.toDigits_zero] at ih
      exact (List.cons.inj ih).1.symm
    rw [← List.cons_append, Nat.ofDigitChars_append, Nat.ofDigitChars_cons, Nat.ofDigitChars_nil,
      ← Nat.toDigits_append_toDigits (by decide) hpos (digit_value_lt hx), ih,
      Nat.toDigits_of_lt_base (digit_value_lt hx), digitChar_value hx]

/-! ## Canonical digits -/

theorem canonicalDigits_of_dropWhile_nil {s : String} (h : s.toList.dropWhile (· == '0') = []) :
    canonicalDigits s = "0" := by
  simp only [canonicalDigits, h]

theorem canonicalDigits_of_dropWhile_cons {s : String} {c : Char} {cs : List Char}
    (h : s.toList.dropWhile (· == '0') = c :: cs) : canonicalDigits s = String.ofList (c :: cs) := by
  simp only [canonicalDigits, h]

theorem ne_zero_of_dropWhile {l cs : List Char} {c : Char} (h : l.dropWhile (· == '0') = c :: cs) :
    c ≠ '0' := by
  have := List.head_dropWhile_not (· == '0') (l := l) (by simp [h])
  simpa [h] using this

/-- The canonical digits of a string of decimal digits are the decimal numeral of the number
it stands for: no leading zero, and `0` for zero. -/
theorem canonicalDigits_eq_toString {ds : String} (h : ∀ c ∈ ds.toList, c.isDigit = true) :
    canonicalDigits ds = toString (decimalValue ds) := by
  have hzeros : ds.toList.takeWhile (· == '0') =
      List.replicate (ds.toList.takeWhile (· == '0')).length '0' :=
    List.eq_replicate_iff.2 ⟨rfl, fun b hb => by simpa using List.mem_takeWhile_imp hb⟩
  have hvalue : decimalValue ds = Nat.ofDigitChars 10 (ds.toList.dropWhile (· == '0')) 0 :=
    calc decimalValue ds
        = Nat.ofDigitChars 10
            (ds.toList.takeWhile (· == '0') ++ ds.toList.dropWhile (· == '0')) 0 := by
          rw [List.takeWhile_append_dropWhile]
          rfl
      _ = Nat.ofDigitChars 10 (ds.toList.dropWhile (· == '0')) 0 := by
          rw [hzeros, ofDigitChars_zeros_append]
  cases hrest : ds.toList.dropWhile (· == '0') with
  | nil =>
    rw [canonicalDigits_of_dropWhile_nil hrest, hvalue, hrest]
    rfl
  | cons c cs =>
    have hd : ∀ x ∈ c :: cs, x.isDigit = true := fun x hx =>
      h x (List.dropWhile_subset _ (hrest ▸ hx))
    rw [canonicalDigits_of_dropWhile_cons hrest, hvalue, hrest, Nat.toString_eq_ofList_toDigits,
      toDigits_ofDigitChars (ne_zero_of_dropWhile hrest) hd]

theorem canonicalDigits_canonicalDigits (s : String) :
    canonicalDigits (canonicalDigits s) = canonicalDigits s := by
  cases hrest : s.toList.dropWhile (· == '0') with
  | nil =>
    rw [canonicalDigits_of_dropWhile_nil hrest]
    rfl
  | cons c cs =>
    rw [canonicalDigits_of_dropWhile_cons hrest]
    apply canonicalDigits_of_dropWhile_cons
    rw [String.toList_ofList, List.dropWhile_cons_of_neg (by simpa using ne_zero_of_dropWhile hrest)]

/-! ## Reading a padded number -/

theorem isDigit_of_mem_padded {n k : Nat} {c : Char}
    (hc : c ∈ List.replicate k '0' ++ Nat.toDigits 10 n) : c.isDigit = true := by
  rcases List.mem_append.1 hc with hc | hc
  · rw [List.eq_of_mem_replicate hc]
    rfl
  · exact Nat.isDigit_of_mem_toDigits (by decide) (by decide) hc

open Lexical in
theorem tokenize_padded (n k : Nat) :
    ∃ sc sn ss, tokenize ("x: " ++ String.ofList (List.replicate k '0') ++ toString n ++ ";") =
      .ok [⟨.identifier, String.ofList ['x'], ⟨0, 1, 1, 1⟩⟩, ⟨.colon, ":", sc⟩,
        ⟨.number, String.ofList (List.replicate k '0' ++ Nat.toDigits 10 n), sn⟩,
        ⟨.semicolon, ";", ss⟩] := by
  let num := List.replicate k '0' ++ Nat.toDigits 10 n
  obtain ⟨c, cs, hcs⟩ := List.exists_cons_of_ne_nil (show num ≠ [] by simp [num])
  have hnum : Lexeme .number (String.ofList num) num := by
    rw [hcs]
    exact .number (isDigit_of_mem_padded (hcs ▸ List.mem_cons_self)) fun d hd =>
      isDigit_of_mem_padded (hcs ▸ List.mem_cons_of_mem _ hd)
  have hseg : Segments [] ([] ++ ['x'] ++ ([] ++ [':'] ++ ([' '] ++ num ++ ([] ++ [';'] ++ []))))
      [⟨.identifier, String.ofList ['x'], ⟨0, 1, 1, 1⟩⟩, ⟨.colon, ":", spanAfter ['x'] [':']⟩,
        ⟨.number, String.ofList num, spanAfter ['x', ':', ' '] num⟩,
        ⟨.semicolon, ";", spanAfter (['x', ':', ' '] ++ num ++ []) [';']⟩]
      [[], [], [' '], [], []] :=
    .next .nil (.identifier (by decide) (by simp)) ⟨by decide, by decide⟩ (by decide) <|
    .next .nil .colon trivial rfl <|
    .next (.blank (by decide) .nil) hnum (show (';' : Char).isDigit = false by decide) rfl <|
    .next .nil .semicolon trivial rfl <|
    .last .nil
  have htext : ("x: " ++ String.ofList (List.replicate k '0') ++ toString n ++ ";").toList =
      [] ++ ['x'] ++ ([] ++ [':'] ++ ([' '] ++ num ++ ([] ++ [';'] ++ []))) := by
    simp [num]
  refine ⟨spanAfter ['x'] [':'], spanAfter ['x', ':', ' '] num,
    spanAfter (['x', ':', ' '] ++ num ++ []) [';'], (tokenize_eq_ok_iff _ _).2 ?_⟩
  unfold Scanned.ofString
  rw [htext]
  exact Scan.go_of_segments hseg _ #[]

/-- Reading `x: ` followed by `k` zeros, the digits of `n` and `;` gives the declaration of
`x` holding the integer literal of `n`, for every `n`, with no bound on its width. -/
theorem read_padded_integer (n k : Nat) :
    ∃ ts, tokenize ("x: " ++ String.ofList (List.replicate k '0') ++ toString n ++ ";") = .ok ts ∧
      ∃ rest, Reader.declaration ts =
        .ok (.declaration ⟨"x", Value.integer n, ⟨0, 1, 1, 1⟩⟩, rest) := by
  obtain ⟨sc, sn, ss, hts⟩ := tokenize_padded n k
  refine ⟨_, hts, ?_⟩
  have hcanon : canonicalDigits (String.ofList (List.replicate k '0' ++ Nat.toDigits 10 n)) =
      toString n := by
    rw [canonicalDigits_eq_toString fun c hc => isDigit_of_mem_padded (by simpa using hc),
      decimalValue_eq_ofDigitChars, String.toList_ofList, ofDigitChars_zeros_append,
      Nat.ofDigitChars_ten_toDigits]
  generalize String.ofList (List.replicate k '0' ++ Nat.toDigits 10 n) = text at hcanon ⊢
  simp [Reader.declaration, Reader.expect, Expected.accepts, Reader.valueOf, hcanon, Value.integer]

/-- Integer literals are canonical numerals. A number token is read as the integer literal of
its canonical digits; for a string of decimal digits these are the decimal numeral of the
number it stands for, so two number tokens give the same literal exactly when they stand for
the same number; canonical digits are canonical already; and reading `x: ` with the digits of
any number `n` after any count of zeros, and `;`, gives the integer literal of `n`. -/
theorem integer_literals_canonical :
    (∀ t : Token, t.kind = .number →
      Reader.valueOf t = some (.literal (.integer (canonicalDigits t.text)))) ∧
    (∀ ds : String, (∀ c ∈ ds.toList, c.isDigit = true) →
      canonicalDigits ds = toString (decimalValue ds)) ∧
    (∀ t₁ t₂ : Token, t₁.kind = .number → t₂.kind = .number →
      (∀ c ∈ t₁.text.toList, c.isDigit = true) → (∀ c ∈ t₂.text.toList, c.isDigit = true) →
      (Reader.valueOf t₁ = Reader.valueOf t₂ ↔ decimalValue t₁.text = decimalValue t₂.text)) ∧
    (∀ s : String, canonicalDigits (canonicalDigits s) = canonicalDigits s) ∧
    (∀ n k : Nat, ∃ ts,
      tokenize ("x: " ++ String.ofList (List.replicate k '0') ++ toString n ++ ";") = .ok ts ∧
      ∃ rest, Reader.declaration ts =
        .ok (.declaration ⟨"x", Value.integer n, ⟨0, 1, 1, 1⟩⟩, rest)) := by
  have read : ∀ t : Token, t.kind = .number →
      Reader.valueOf t = some (.literal (.integer (canonicalDigits t.text))) := by
    intro t ht
    simp [Reader.valueOf, ht]
  refine ⟨read, fun ds h => canonicalDigits_eq_toString h, ?_, canonicalDigits_canonicalDigits,
    read_padded_integer⟩
  intro t₁ t₂ h₁ h₂ hd₁ hd₂
  rw [read t₁ h₁, read t₂ h₂, canonicalDigits_eq_toString hd₁, canonicalDigits_eq_toString hd₂]
  constructor
  · intro h
    simp only [Option.some.injEq, Value.literal.injEq, Literal.integer.injEq] at h
    simpa using congrArg decimalValue h
  · intro h
    rw [h]

end RuleScript
