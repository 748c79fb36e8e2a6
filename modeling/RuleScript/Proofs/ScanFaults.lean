import RuleScript.Proofs.Segmentation

/-! # Scanning faults point at their cause

A scan stops at the first place where no move can be made: a character that starts no
token, blank or comment, a double quote that is never closed, or a comment mark that is
never closed. The fault reports that place: its line and column from the start of the
text, and its byte offset from the first character that is not blank.

Main statement: `tokenize_fault_located`. When scanning a text fails, the text splits at
the place the fault names. Its byte offset, with the bytes of the opening blanks added
back, is the width of what comes before it, which is never less than those blanks, so the
offset never had to be cut at zero; what comes before scans without fault; the line and
column are those of the place; and what follows it is the cause (`LexFault.Cause`).
-/

namespace RuleScript

/-- The bytes of the blanks that open a text: its length less that of the text without
them. -/
def leadingBytes (s : String) : Nat :=
  s.utf8ByteSize - (String.ofList (s.toList.dropWhile Text.isBlank)).utf8ByteSize

namespace LexFault

/-- What the text at the place of a fault begins with. An unexpected character is no
blank, no ASCII letter or digit, no double quote, no mark and no slash that opens a
comment; an open string is a double quote with none after it; an open comment is `/*`
with no `*/` after it. -/
def Cause : LexFault → List Char → Prop
  | .unexpected ch, post => ∃ rest, post = ch :: rest ∧ Text.isBlank ch = false ∧
      ch.isAlphanum = false ∧ ch ∉ ['"', '&', '{', '}', ':', ';'] ∧
      ¬ (ch = '/' ∧ rest.head? = some '*')
  | .openString, post => ∃ rest, post = '"' :: rest ∧ '"' ∉ rest
  | .openComment, post => ∃ rest, post = '/' :: '*' :: rest ∧ ¬ ['*', '/'] <:+: rest

end LexFault

/-- A scanning fault `e` of the text `s` stands where `s` splits into `pre` and `post`. -/
structure LexError.Located (e : LexError) (s : String) (pre post : List Char) : Prop where
  split : s.toList = pre ++ post
  offset : (String.ofList pre).utf8ByteSize = e.offset + leadingBytes s
  unsaturated : leadingBytes s ≤ (String.ofList pre).utf8ByteSize
  scans : ∃ ts, tokenize (String.ofList pre) = .ok ts
  line : e.line = pre.count '\n' + 1
  column : e.column = (pre.reverse.takeWhile (· != '\n')).length + 1
  cause : e.fault.Cause post

/-! ## Closing marks that never come -/

namespace Scan

theorem closeQuote_eq_none : ∀ {r : List Char}, closeQuote r = none → '"' ∉ r
  | [], _ => by simp
  | c :: r, h => by
    unfold closeQuote at h
    split at h
    · cases h
    · next hc =>
      have hr : closeQuote r = none := by simpa using h
      simp [Ne.symm hc, closeQuote_eq_none hr]

theorem closeComment_eq_none : ∀ {r : List Char}, closeComment r = none → ¬ ['*', '/'] <:+: r
  | [], _ => by simp
  | c :: r, h => by
    unfold closeComment at h
    split at h
    · cases h
    · next hc =>
      have hr : closeComment r = none := by simpa using h
      rw [List.infix_cons_iff]
      rintro (hp | hi)
      · -- `*/` at the front would have closed the comment here
        obtain ⟨t, ht⟩ := hp
        simp only [List.cons_append, List.cons.injEq] at ht
        obtain ⟨rfl, rfl⟩ := ht
        exact hc ⟨rfl, rfl⟩
      · exact closeComment_eq_none hr hi

theorem unextended_of_append {k : TokenKind} {a b : List Char}
    (h : Lexical.Unextended k (a ++ b)) : Lexical.Unextended k a := by
  cases a with
  | nil => cases k <;> trivial
  | cons c a => cases k <;> exact h

end Scan

theorem TokenKind.ofMark?_eq_none {c : Char} (h : TokenKind.ofMark? c = none) :
    c ∉ ['&', '{', '}', ':', ';'] := by
  intro hc
  simp only [List.mem_cons, List.not_mem_nil, or_false] at hc
  rcases hc with rfl | rfl | rfl | rfl | rfl <;> simp [TokenKind.ofMark?] at h

/-! ## The move that fails -/

namespace Move

/-- Everything a failing move can be: an open comment, an open string, or a character
that begins nothing. -/
theorem of_fail {c : Char} {r : List Char} {f : LexFault} (h : Move.of c r = .fail f) :
    (f = .openComment ∧ c = '/' ∧ ∃ r', r = '*' :: r' ∧ Scan.closeComment r' = none) ∨
      (f = .openString ∧ c = '"' ∧ Scan.closeQuote r = none) ∨
      (f = .unexpected c ∧ Text.isBlank c = false ∧ c.isDigit = false ∧ c.isAlpha = false ∧
        TokenKind.ofMark? c = none ∧ c ≠ '"' ∧ ¬ (c = '/' ∧ r.head? = some '*')) := by
  unfold Move.of at h
  split at h
  · next r' =>
    split at h
    · cases h
    · next hc =>
      cases h
      exact .inl ⟨rfl, rfl, r', rfl, hc⟩
  · split at h
    · cases h
    · next hq =>
      cases h
      exact .inr (.inl ⟨rfl, rfl, hq⟩)
  · next _ _ hq hs =>
    split at h
    · cases h
    split at h
    · cases h
    split at h
    · cases h
    split at h
    · cases h
    · next hb hd ha _ hm =>
      cases h
      refine .inr (.inr ⟨rfl, by simpa using hb, by simpa using hd, by simpa using ha, hm, hq, ?_⟩)
      rintro ⟨rfl, hr⟩
      cases r with
      | nil => cases hr
      | cons d r =>
        simp only [List.head?_cons, Option.some.injEq] at hr
        subst hr
        exact hs r rfl rfl

theorem cause_of_fail {c : Char} {r : List Char} {f : LexFault} (h : Move.of c r = .fail f) :
    f.Cause (c :: r) ∧ Text.isBlank c = false := by
  rcases of_fail h with ⟨rfl, rfl, r', rfl, hc⟩ | ⟨rfl, rfl, hq⟩ |
      ⟨rfl, hb, hd, ha, hm, hq, hs⟩
  · exact ⟨⟨r', rfl, Scan.closeComment_eq_none hc⟩, by decide⟩
  · exact ⟨⟨r, rfl, Scan.closeQuote_eq_none hq⟩, by decide⟩
  · refine ⟨⟨r, rfl, hb, by simp [Char.isAlphanum, hd, ha], ?_, hs⟩, hb⟩
    have hm' := TokenKind.ofMark?_eq_none hm
    simp only [List.mem_cons, List.not_mem_nil, or_false] at hm' ⊢
    tauto

end Move

/-! ## Runs that stop at a fault -/

namespace Scan

open Lexical

/-- A scan that stops at a fault has read the characters before the failing move just as
a scan of them alone would, and the fault carries the position of that move. -/
theorem go_eq_fault {lead : Nat} {p : Position} {acc : Array Token} {cs : List Char}
    {ts : List Token} {e : LexError} (h : go lead p acc cs = ⟨ts, some e⟩) :
    ∃ pre c r f, cs = pre ++ c :: r ∧ Move.of c r = .fail f ∧ go lead p acc pre = ⟨ts, none⟩ ∧
      e = ⟨f, (p.walk pre).offset - lead, (p.walk pre).line, (p.walk pre).column⟩ := by
  fun_induction go lead p acc cs with
  | case1 p acc => simp at h
  | case2 p acc c r used rest split _ hmove _ ih =>
    obtain ⟨pre, c', r', f, rfl, hf, hgo, rfl⟩ := ih h
    -- a blank or a comment is passed over whatever follows it
    have hgap : Gap used := by
      rcases Move.of_pass hmove with ⟨rfl, hc⟩ | ⟨body, rfl, hb⟩
      · exact .blank hc .nil
      · simpa using Gap.comment hb .nil
    refine ⟨used ++ pre, c', r', f, by rw [split, List.append_assoc], hf, ?_, ?_⟩
    · rw [go_gap hgap, hgo]
    · rw [Position.walk_append]
  | case3 p acc c r kind text used rest split _ hmove _ ih =>
    obtain ⟨pre, c', r', f, rfl, hf, hgo, rfl⟩ := ih h
    -- the token ends where it ended before the failing character was cut off
    obtain ⟨hl, hu⟩ := Move.of_take hmove
    refine ⟨used ++ pre, c', r', f, by rw [split, List.append_assoc], hf, ?_, ?_⟩
    · rw [go_lexeme hl (unextended_of_append hu), hgo]
    · rw [Position.walk_append]
  | case4 p acc c r f hmove =>
    simp only [Scanned.mk.injEq, Option.some.injEq] at h
    obtain ⟨rfl, rfl⟩ := h
    exact ⟨[], c, r, f, rfl, hmove, by simp [go], by simp⟩

theorem takeWhile_blank_prefix {pre r : List Char} {c : Char} (hc : Text.isBlank c = false) :
    (pre ++ c :: r).takeWhile Text.isBlank <+: pre := by
  induction pre with
  | nil => simp [hc]
  | cons a pre ih =>
    rw [List.cons_append, List.takeWhile_cons]
    split
    · exact (List.prefix_cons_inj _).2 ih
    · exact List.nil_prefix

theorem width_le_of_prefix {a b : List Char} (h : a <+: b) : Position.width a ≤ Position.width b := by
  obtain ⟨t, rfl⟩ := h
  rw [Position.width_append]
  omega

end Scan

theorem leadingBytes_eq (s : String) : leadingBytes s = Scan.lead s.toList := by
  have hs : s.utf8ByteSize = Position.width s.toList := by
    rw [Position.width_eq_utf8ByteSize, String.ofList_toList]
  have hw : Position.width s.toList = Position.width (s.toList.takeWhile Text.isBlank) +
      Position.width (s.toList.dropWhile Text.isBlank) := by
    rw [← Position.width_append, List.takeWhile_append_dropWhile]
  rw [leadingBytes, Scan.lead, hs, hw, ← Position.width_eq_utf8ByteSize]
  omega

/-- A scanning fault points at its cause. Where scanning a text fails, the text splits at
the fault's place: its offset with the bytes of the opening blanks added back is the width
of what stands before, which scans without fault; the line and column are those of the
place; and what follows begins with the cause. -/
theorem tokenize_fault_located (s : String) (e : LexError) (h : tokenize s = .error e) :
    ∃ pre post, e.Located s pre post := by
  obtain ⟨ts, hts⟩ : ∃ ts, Scan.go (Scan.lead s.toList) Position.start #[] s.toList = ⟨ts, some e⟩ := by
    unfold tokenize Scanned.ofString at h
    revert h
    rcases Scan.go (Scan.lead s.toList) Position.start #[] s.toList with ⟨ts, _ | e'⟩
    · simp
    · simp only [Except.error.injEq]
      rintro rfl
      exact ⟨ts, rfl⟩
  obtain ⟨pre, c, r, f, hsplit, hf, hgo, rfl⟩ := Scan.go_eq_fault hts
  obtain ⟨hcause, hblank⟩ := Move.cause_of_fail hf
  have hstart := Position.walk_start pre
  have hlead : Scan.lead s.toList ≤ Position.width pre := by
    rw [Scan.lead, hsplit]
    exact Scan.width_le_of_prefix (Scan.takeWhile_blank_prefix hblank)
  obtain ⟨new, gaps, -, hseg⟩ :=
    Scan.segments_of_go (show Position.start = Position.start.walk [] from rfl) hgo
  refine ⟨pre, c :: r, ⟨hsplit, ?_, ?_, ?_, ?_, ?_, hcause⟩⟩
  · rw [leadingBytes_eq, ← Position.width_eq_utf8ByteSize, hstart]
    simp only
    omega
  · rw [leadingBytes_eq, ← Position.width_eq_utf8ByteSize]
    exact hlead
  · exact ⟨new, (tokenize_segmentation _ _).1.2 ⟨gaps, by simpa using hseg⟩⟩
  · simp [hstart]
  · simp [hstart]

/-- An open string after a wide blank: the offset leaves out the three bytes of the
ideographic space, and the column counts it as one character. -/
theorem tokenize_fault_wide_blank :
    tokenize "\u3000x \"ab" = .error ⟨.openString, 2, 1, 4⟩ ∧
      ∃ pre post, LexError.Located ⟨.openString, 2, 1, 4⟩ "\u3000x \"ab" pre post := by
  have h : tokenize "\u3000x \"ab" = .error ⟨.openString, 2, 1, 4⟩ := by decide +kernel
  exact ⟨h, tokenize_fault_located _ _ h⟩

end RuleScript
