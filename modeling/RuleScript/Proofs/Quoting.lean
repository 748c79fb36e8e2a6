import RuleScript.Proofs.Execution
/-! # Quoted texts are string literals of the script language

A text is written into a script as a double-quoted literal (`Script.quote`). A literal is
well formed when it opens and closes with a double quote and what stands between the quotes
is a run of characters that stand for themselves, none of them a double quote, a backslash
or a line terminator, and of the escapes `\"`, `\\`, `\n`, `\r`, `\t` and `\u` followed by
four hexadecimal digits (`QuotedBody`).

Main statement: `quote_encodes`. The literal of every text is well formed and stands for
the text's UTF-16 code units, where a character above U+FFFF is its surrogate pair
(`utf16_pair`). UTF-16 is a prefix code (`utf16_append_inj`), so no two texts share a
literal; and no literal holds a line break.
-/

namespace RuleScript

namespace Script

/-- Whether a character ends a line of a script: line feed, carriage return, and the line
and paragraph separators. -/
def isLineBreak (c : Char) : Bool := c == '\n' || c == '\r' || isSeparator c

/-- The characters between the quotes of a well-formed double-quoted literal. -/
inductive QuotedBody : List Char → Prop
  | nil : QuotedBody []
  | plain {c : Char} {rest : List Char} : c ≠ '"' → c ≠ '\\' → isLineBreak c = false →
      QuotedBody rest → QuotedBody (c :: rest)
  | short {e : Char} {rest : List Char} : e ∈ ['"', '\\', 'n', 'r', 't'] → QuotedBody rest →
      QuotedBody ('\\' :: e :: rest)
  | unicode {a b c d : Char} {rest : List Char} : (hexValue a).isSome → (hexValue b).isSome →
      (hexValue c).isSome → (hexValue d).isSome → QuotedBody rest →
      QuotedBody ('\\' :: 'u' :: a :: b :: c :: d :: rest)

def WellQuoted (lit : String) : Prop :=
  ∃ body, lit.toList = '"' :: (body ++ ['"']) ∧ QuotedBody body

/-! ## Every quoted text is well formed -/

theorem hexDigit_isSome {k : Nat} (h : k < 16) : (hexValue (hexDigit k)).isSome := by
  rw [hexValue_hexDigit k h]
  rfl

theorem quotedBody_escape (c : Char) {rest : List Char} (h : QuotedBody rest) :
    QuotedBody (escape c ++ rest) := by
  unfold escape
  by_cases hq : c = '"'
  · simpa [hq] using QuotedBody.short (by simp) h
  by_cases hb : c = '\\'
  · simpa [hb] using QuotedBody.short (by simp) h
  by_cases hn : c = '\n'
  · simpa [hn] using QuotedBody.short (by simp) h
  by_cases hr : c = '\r'
  · simpa [hr] using QuotedBody.short (by simp) h
  by_cases ht : c = '\t'
  · simpa [ht] using QuotedBody.short (by simp) h
  simp only [hq, hb, hn, hr, ht, if_false]
  split
  · -- separators and control characters are written as four hexadecimal digits
    have hex : ∀ k, (hexValue (hexDigit (k % 16))).isSome := fun k =>
      hexDigit_isSome (Nat.mod_lt _ (by decide))
    exact QuotedBody.unicode (hex _) (hex _) (hex _) (hex _) h
  · next hs =>
    have hsep : isSeparator c = false := by simp_all
    exact QuotedBody.plain hq hb (by simp [isLineBreak, hn, hr, hsep]) h

theorem quotedBody_escapes (cs : List Char) : QuotedBody (cs.flatMap escape) := by
  induction cs with
  | nil => exact .nil
  | cons c cs ih =>
    rw [List.flatMap_cons]
    exact quotedBody_escape c ih

theorem wellQuoted_quote (s : String) : WellQuoted (quote s) :=
  ⟨s.toList.flatMap escape, by simp [quote], quotedBody_escapes s.toList⟩

/-! ## No line breaks -/

theorem toNat_le_of_le {a b : Char} (h : a ≤ b) : a.toNat ≤ b.toNat := by
  rwa [Char.le_def, UInt32.le_iff_toNat_le] at h

theorem hexValue_bounds {c : Char} (h : (hexValue c).isSome) : 48 ≤ c.toNat ∧ c.toNat ≤ 102 := by
  unfold hexValue at h
  split_ifs at h with hdec hlow hup
  · have := toNat_le_of_le hdec.1; have := toNat_le_of_le hdec.2
    simp only [Char.reduceToNat] at *
    omega
  · have := toNat_le_of_le hlow.1; have := toNat_le_of_le hlow.2
    simp only [Char.reduceToNat] at *
    omega
  · have := toNat_le_of_le hup.1; have := toNat_le_of_le hup.2
    simp only [Char.reduceToNat] at *
    omega
  · cases h

theorem isLineBreak_of_hex {c : Char} (h : (hexValue c).isSome) : isLineBreak c = false := by
  have hc := hexValue_bounds h
  have h10 : c ≠ '\n' := fun e => by subst e; simp at hc
  have h13 : c ≠ '\r' := fun e => by subst e; simp at hc
  simp [isLineBreak, isSeparator, h10, h13]
  omega

theorem QuotedBody.no_break {body : List Char} (h : QuotedBody body) :
    ∀ c ∈ body, isLineBreak c = false := by
  induction h with
  | nil => simp
  | plain _ _ hc _ ih => exact List.forall_mem_cons.2 ⟨hc, ih⟩
  | short he _ ih =>
    refine List.forall_mem_cons.2 ⟨by decide, List.forall_mem_cons.2 ⟨?_, ih⟩⟩
    simp only [List.mem_cons, List.not_mem_nil, or_false] at he
    rcases he with rfl | rfl | rfl | rfl | rfl <;> decide
  | unicode ha hb hc hd _ ih =>
    simp only [List.forall_mem_cons]
    exact ⟨by decide, by decide, isLineBreak_of_hex ha, isLineBreak_of_hex hb,
      isLineBreak_of_hex hc, isLineBreak_of_hex hd, ih⟩

theorem WellQuoted.no_break {lit : String} (h : WellQuoted lit) :
    ∀ c ∈ lit.toList, isLineBreak c = false := by
  obtain ⟨body, hlit, hbody⟩ := h
  rw [hlit]
  intro c hc
  simp only [List.mem_cons, List.mem_append, List.not_mem_nil, or_false] at hc
  rcases hc with rfl | hc | rfl
  · decide
  · exact hbody.no_break c hc
  · decide

/-! ## UTF-16 is a prefix code -/

/-- A character above U+FFFF is written as a high surrogate and a low surrogate, from which
its code point is found again. -/
theorem utf16_pair {c : Char} (h : 0x10000 ≤ c.toNat) :
    ∃ hi lo : UInt16, utf16 c = [hi, lo] ∧ 0xD800 ≤ hi.toNat ∧ hi.toNat < 0xDC00 ∧
      0xDC00 ≤ lo.toNat ∧ lo.toNat < 0xE000 ∧
      c.toNat = 0x10000 + (hi.toNat - 0xD800) * 0x400 + (lo.toNat - 0xDC00) := by
  have hv : c.toNat < 0x110000 := by
    rcases c.valid with h' | h' <;> simp only [Char.toNat] <;> omega
  refine ⟨_, _, if_neg (by omega), ?_⟩
  simp
  omega

theorem utf16_single {c : Char} (h : c.toNat < 0x10000) :
    utf16 c = [c.toNat.toUInt16] ∧ c.toNat.toUInt16.toNat = c.toNat ∧
      (c.toNat < 0xD800 ∨ 0xE000 ≤ c.toNat) := by
  refine ⟨utf16_of_lt h, by simp; omega, ?_⟩
  rcases c.valid with h' | h' <;> simp only [Char.toNat] <;> omega

theorem utf16_append_inj {a b : Char} {x y : List UInt16} (h : utf16 a ++ x = utf16 b ++ y) :
    a = b ∧ x = y := by
  rcases Nat.lt_or_ge a.toNat 0x10000 with ha | ha <;>
    rcases Nat.lt_or_ge b.toNat 0x10000 with hb | hb
  · obtain ⟨ea, na, -⟩ := utf16_single ha
    obtain ⟨eb, nb, -⟩ := utf16_single hb
    rw [ea, eb, List.singleton_append, List.singleton_append, List.cons.injEq] at h
    exact ⟨Char.toNat_inj.1 (by rw [← na, ← nb, h.1]), h.2⟩
  · -- a single unit is no high surrogate
    obtain ⟨ea, na, sa⟩ := utf16_single ha
    obtain ⟨hi, lo, eb, h1, h2, -⟩ := utf16_pair hb
    rw [ea, eb, List.singleton_append, List.cons_append, List.cons.injEq] at h
    have := congrArg UInt16.toNat h.1
    omega
  · obtain ⟨hi, lo, ea, h1, h2, -⟩ := utf16_pair ha
    obtain ⟨eb, nb, sb⟩ := utf16_single hb
    rw [ea, eb, List.singleton_append, List.cons_append, List.cons.injEq] at h
    have := congrArg UInt16.toNat h.1
    omega
  · obtain ⟨hi, lo, ea, -, -, -, -, pa⟩ := utf16_pair ha
    obtain ⟨hi', lo', eb, -, -, -, -, pb⟩ := utf16_pair hb
    rw [ea, eb] at h
    simp only [List.cons_append, List.nil_append, List.cons.injEq] at h
    obtain ⟨rfl, rfl, rfl⟩ := h
    exact ⟨Char.toNat_inj.1 (by rw [pa, pb]), rfl⟩

theorem flatMap_utf16_inj : ∀ {as bs : List Char}, as.flatMap utf16 = bs.flatMap utf16 → as = bs
  | [], [], _ => rfl
  | [], b :: bs, h => by
    rcases Nat.lt_or_ge b.toNat 0x10000 with hb | hb
    · simp [(utf16_single hb).1] at h
    · obtain ⟨hi, lo, eb, -⟩ := utf16_pair hb
      simp [eb] at h
  | a :: as, [], h => by
    rcases Nat.lt_or_ge a.toNat 0x10000 with ha | ha
    · simp [(utf16_single ha).1] at h
    · obtain ⟨hi, lo, ea, -⟩ := utf16_pair ha
      simp [ea] at h
  | a :: as, b :: bs, h => by
    rw [List.flatMap_cons, List.flatMap_cons] at h
    obtain ⟨rfl, h'⟩ := utf16_append_inj h
    rw [flatMap_utf16_inj h']

theorem units_injective : Function.Injective units := fun _ _ h =>
  String.toList_inj.1 (flatMap_utf16_inj h)

/-! ## The whole literal -/

/-- Quoting writes a text as a string literal of the script language: the literal is well
formed and stands for the text's UTF-16 code units, so no two texts share a literal, and no
line break stands in it. -/
theorem quote_encodes (s : String) :
    WellQuoted (quote s) ∧ literalValue (quote s) = some (units s) ∧
      (∀ t, quote t = quote s → t = s) ∧ ∀ c ∈ (quote s).toList, isLineBreak c = false := by
  refine ⟨wellQuoted_quote s, literalValue_quote s, fun t ht => ?_,
    (wellQuoted_quote s).no_break⟩
  have hv : some (units t) = some (units s) := by
    rw [← literalValue_quote, ← literalValue_quote, ht]
  exact units_injective (Option.some.inj hv)

example : quote "😀 " = "\"😀\\u2029\"" ∧ units "😀" = [0xD83D, 0xDE00] := by decide

end Script

end RuleScript
