import RuleScript.Source.Scan
import Mathlib.Data.List.Induction
import Mathlib.Data.List.TakeWhile

/-! # Scanning is maximal-munch segmentation

A text is a sequence of lexemes with gaps between them. A gap is made of blank
characters and complete comments `/* ... */`; a lexeme is an identifier, a number, a
string between double quotes or one of the five marks. No identifier is followed by a
character that could extend it and no number by a digit, so every lexeme is the longest
one that starts where it starts.

Main statement: `tokenize_segmentation`. Scanning a text succeeds with the tokens `ts`
exactly when the text splits into gaps and the lexemes of `ts`, every token carrying the
span of its lexeme; the split is unique, and every span starts and stops on a character
boundary. The scanner's three counters (character, byte offset, line and column) are the
single `Position` of the model; `Position.walk_start` says what it holds after a prefix.
-/

namespace RuleScript

namespace Lexical

/-- Text between lexemes: blank characters and complete comments, whose body holds no
closing mark. -/
inductive Gap : List Char → Prop
  | nil : Gap []
  | blank {c : Char} {g : List Char} : Text.isBlank c = true → Gap g → Gap (c :: g)
  | comment {body g : List Char} : ¬ ['*', '/'] <:+: body → Gap g →
      Gap ('/' :: '*' :: (body ++ '*' :: '/' :: g))

/-- `Lexeme k text lx`: the characters `lx` are read as a token of kind `k` and text
`text`. Identifiers are `[A-Za-z][A-Za-z0-9-]*`, numbers `[0-9]+`; a string token keeps
what stands between its quotes. -/
inductive Lexeme : TokenKind → String → List Char → Prop
  | identifier {c : Char} {cs : List Char} : c.isAlpha = true →
      (∀ d ∈ cs, d.isAlphanum = true ∨ d = '-') →
      Lexeme .identifier (String.ofList (c :: cs)) (c :: cs)
  | number {c : Char} {cs : List Char} : c.isDigit = true → (∀ d ∈ cs, d.isDigit = true) →
      Lexeme .number (String.ofList (c :: cs)) (c :: cs)
  | string {body : List Char} : '"' ∉ body →
      Lexeme .string (String.ofList body) ('"' :: (body ++ ['"']))
  | ampersand : Lexeme .ampersand "&" ['&']
  | lbrace : Lexeme .lbrace "\x7b" ['{']
  | rbrace : Lexeme .rbrace "\x7d" ['}']
  | colon : Lexeme .colon ":" [':']
  | semicolon : Lexeme .semicolon ";" [';']

/-- What follows a lexeme of kind `k` cannot extend it: no letter, digit or hyphen after
an identifier, no digit after a number. -/
def Unextended : TokenKind → List Char → Prop
  | .identifier, c :: _ => c.isAlphanum = false ∧ c ≠ '-'
  | .number, c :: _ => c.isDigit = false
  | _, _ => True

/-- The span of the lexeme `lx` after the text `before`: its first byte, one past its
last byte, the line of its first character and its column, counted in characters from
the last line feed. -/
def spanAfter (before lx : List Char) : Span :=
  ⟨(String.ofList before).utf8ByteSize,
    (String.ofList before).utf8ByteSize + (String.ofList lx).utf8ByteSize,
    before.count '\n' + 1, (before.reverse.takeWhile (· != '\n')).length + 1⟩

/-- `Segments before cs ts gaps`: the text `cs`, which follows the text `before`, is the
gaps `gaps` with the lexemes of the tokens `ts` between them, and each token has the span
of its lexeme. -/
inductive Segments : List Char → List Char → List Token → List (List Char) → Prop
  | last {before g : List Char} : Gap g → Segments before g [] [g]
  | next {before g lx rest : List Char} {t : Token} {ts : List Token}
      {gaps : List (List Char)} :
      Gap g → Lexeme t.kind t.text lx → Unextended t.kind rest →
      t.span = spanAfter (before ++ g) lx →
      Segments (before ++ g ++ lx) rest ts gaps →
      Segments before (g ++ lx ++ rest) (t :: ts) (g :: gaps)

end Lexical

/-! ## Positions -/

namespace Position

theorem width_eq_utf8ByteSize (cs : List Char) : width cs = (String.ofList cs).utf8ByteSize := by
  induction cs with
  | nil => rfl
  | cons c cs ih => simp [String.ofList_cons, String.utf8ByteSize_append, ih]

/-- After a prefix the scanner stands at the prefix's width in bytes, on the line after
its last line feed, and at the column after the characters that follow that line feed. -/
theorem walk_start (cs : List Char) :
    start.walk cs = ⟨width cs, cs.count '\n' + 1,
      (cs.reverse.takeWhile (· != '\n')).length + 1⟩ := by
  induction cs using List.reverseRecOn with
  | nil => rfl
  | append_singleton cs c ih =>
    rw [walk_append, ih, width_append]
    by_cases hc : c = '\n'
    · subst hc
      simp [walk, next]
    · simp [walk, next, hc, Nat.add_assoc]

theorem covering_start_walk (before lx : List Char) :
    Span.covering (start.walk before) lx = Lexical.spanAfter before lx := by
  rw [Span.covering, walk_start, offset_walk]
  simp [Lexical.spanAfter, width_eq_utf8ByteSize]

end Position

/-! ## Character classes -/

namespace Text

theorem isBlank_of_printable {c : Char} (h1 : 32 < c.toNat) (h2 : c.toNat < 127) :
    isBlank c = false := by
  simp [isBlank, inRanges, blankRanges]; omega

end Text

namespace Lexical

theorem isAlpha_bounds {c : Char} (h : c.isAlpha = true) :
    (65 ≤ c.toNat ∧ c.toNat ≤ 90) ∨ (97 ≤ c.toNat ∧ c.toNat ≤ 122) := by
  have h' : (decide (c.val ≥ 'A'.val ∧ c.val ≤ 'Z'.val) ||
      (decide (c.val ≥ 'a'.val) && decide (c.val ≤ 'z'.val))) = true := h
  simpa [UInt32.le_iff_toNat_le] using h'

theorem isDigit_bounds {c : Char} (h : c.isDigit = true) : 48 ≤ c.toNat ∧ c.toNat ≤ 57 := by
  simpa [Char.isDigit, UInt32.le_iff_toNat_le] using h

theorem isDigit_of_isAlpha {c : Char} (h : c.isAlpha = true) : c.isDigit = false := by
  have := isAlpha_bounds h
  cases hd : c.isDigit
  · rfl
  · have := isDigit_bounds hd; omega

theorem isWordChar_iff (c : Char) : Scan.isWordChar c = true ↔ c.isAlphanum = true ∨ c = '-' := by
  simp [Scan.isWordChar]

/-- A lexeme starts with a character that is not blank and is no slash, so it cannot
continue a gap. -/
theorem Lexeme.head {k : TokenKind} {text : String} {c : Char} {lx : List Char}
    (h : Lexeme k text (c :: lx)) : Text.isBlank c = false ∧ c ≠ '/' := by
  cases h with
  | identifier ha _ =>
    have := isAlpha_bounds ha
    exact ⟨Text.isBlank_of_printable (by omega) (by omega), by rintro rfl; simp at ha⟩
  | number hd _ =>
    have := isDigit_bounds hd
    exact ⟨Text.isBlank_of_printable (by omega) (by omega), by rintro rfl; simp at hd⟩
  | string _ | ampersand | lbrace | rbrace | colon | semicolon => exact ⟨by decide, by decide⟩

end Lexical

/-! ## Closing marks -/

namespace Scan

theorem closeQuote_append {body : List Char} (h : '"' ∉ body) (rest : List Char) :
    closeQuote (body ++ '"' :: rest) = some (body, rest) := by
  induction body with
  | nil => simp [closeQuote]
  | cons c body ih =>
    have hc : c ≠ '"' := fun e => h (e ▸ List.mem_cons_self)
    simp [closeQuote, hc, ih (fun m => h (List.mem_cons_of_mem _ m))]

theorem closeQuote_no_quote : ∀ {r text rest : List Char},
    closeQuote r = some (text, rest) → '"' ∉ text
  | [], _, _, h => by simp [closeQuote] at h
  | c :: r, text, rest, h => by
    unfold closeQuote at h
    split at h
    · simp only [Option.some.injEq, Prod.mk.injEq] at h
      obtain ⟨rfl, rfl⟩ := h
      simp
    · rename_i hc
      obtain ⟨⟨b, s⟩, hb, he⟩ := Option.map_eq_some_iff.1 h
      simp only [Prod.mk.injEq] at he
      obtain ⟨rfl, rfl⟩ := he
      simp [Ne.symm hc, closeQuote_no_quote hb]

theorem closeComment_append {body : List Char} (h : ¬ ['*', '/'] <:+: body) (g : List Char) :
    closeComment (body ++ '*' :: '/' :: g) = some (body ++ ['*', '/'], g) := by
  induction body with
  | nil => simp [closeComment]
  | cons c body ih =>
    have hc : ¬ (c = '*' ∧ (body ++ '*' :: '/' :: g).head? = some '/') := by
      rintro ⟨rfl, hb⟩
      cases body with
      | nil => simp at hb
      | cons d body =>
        simp only [List.cons_append, List.head?_cons, Option.some.injEq] at hb
        subst hb
        exact h ⟨[], body, rfl⟩
    rw [List.cons_append, closeComment, if_neg hc, ih (fun hi => h (List.infix_cons hi))]
    rfl

theorem closeComment_eq_some : ∀ {r b rest : List Char}, closeComment r = some (b, rest) →
    ∃ body, b = body ++ ['*', '/'] ∧ ¬ ['*', '/'] <:+: body
  | [], _, _, h => by simp [closeComment] at h
  | c :: r, b, rest, h => by
    unfold closeComment at h
    split at h
    · simp only [Option.some.injEq, Prod.mk.injEq] at h
      obtain ⟨rfl, rfl⟩ := h
      exact ⟨[], rfl, by simp⟩
    · rename_i hc
      obtain ⟨⟨b', s⟩, hb, he⟩ := Option.map_eq_some_iff.1 h
      simp only [Prod.mk.injEq] at he
      obtain ⟨rfl, rfl⟩ := he
      obtain ⟨body, rfl, hbody⟩ := closeComment_eq_some hb
      refine ⟨c :: body, rfl, ?_⟩
      rw [List.infix_cons_iff]
      rintro (hp | hi)
      · -- a closing mark at the front would have been found one step earlier
        have hr := closeComment_split hb
        cases body with
        | nil => simp at hp
        | cons d body =>
          simp only [List.cons_prefix_cons, List.nil_prefix, and_true] at hp
          obtain ⟨rfl, rfl⟩ := hp
          exact hc ⟨rfl, by simp [hr]⟩
      · exact hbody hi

end Scan

/-! ## Moves

Each lemma below settles one branch of `Move.of`: what a blank, a comment and a lexeme
make the scanner do, and, the other way, what a pass or a take was read from. -/

namespace Move

open Lexical

theorem take_congr {cs : List Char} {k : TokenKind} {text text' : String}
    {used used' rest rest' : List Char} {hs : cs = used ++ rest} {hs' : cs = used' ++ rest'}
    {hn : used ≠ []} {hn' : used' ≠ []} (h1 : text = text') (h2 : used = used')
    (h3 : rest = rest') : Move.take k text used rest hs hn = .take k text' used' rest' hs' hn' := by
  subst h1 h2 h3
  rfl

theorem of_blank {c : Char} (hc : Text.isBlank c = true) (r : List Char) :
    Move.of c r = .pass [c] r rfl (by simp) := by
  have hq : c ≠ '"' := by rintro rfl; exact absurd hc (by decide)
  have hs : c ≠ '/' := by rintro rfl; exact absurd hc (by decide)
  rw [Move.of.eq_3 c r hq (fun _ h _ => hs h), if_pos hc]

theorem of_comment {body : List Char} (h : ¬ ['*', '/'] <:+: body) (g : List Char) :
    Move.of '/' ('*' :: (body ++ '*' :: '/' :: g)) =
      .pass ('/' :: '*' :: (body ++ ['*', '/'])) g (by simp) (by simp) := by
  rw [Move.of.eq_1]
  split
  · next b rest hb =>
    rw [Scan.closeComment_append h] at hb
    cases hb
    rfl
  · next hb =>
    rw [Scan.closeComment_append h] at hb
    cases hb

theorem of_lexeme {k : TokenKind} {text : String} {c : Char} {lx rest r : List Char}
    (hl : Lexeme k text (c :: lx)) (hu : Unextended k rest) (hr : r = lx ++ rest) :
    Move.of c r = .take k text (c :: lx) rest (by rw [hr]; rfl) (by simp) := by
  subst hr
  obtain ⟨hb, hs⟩ := hl.head
  cases hl with
  | identifier ha hw =>
    have hq : c ≠ '"' := by rintro rfl; simp at ha
    rw [Move.of.eq_3 c _ hq (fun _ h _ => hs h), if_neg (by simp [hb]),
      if_neg (by simp [isDigit_of_isAlpha ha]), if_pos ha]
    have hw' : ∀ d ∈ lx, Scan.isWordChar d = true := fun d hd => (isWordChar_iff d).2 (hw d hd)
    have hr : rest.takeWhile Scan.isWordChar = [] ∧ rest.dropWhile Scan.isWordChar = rest := by
      cases rest with
      | nil => simp
      | cons d rest =>
        have : Scan.isWordChar d = false := by simpa [Scan.isWordChar, Unextended] using hu
        simp [this]
    have ht : (lx ++ rest).takeWhile Scan.isWordChar = lx := by
      rw [List.takeWhile_append_of_pos hw', hr.1, List.append_nil]
    have hd : (lx ++ rest).dropWhile Scan.isWordChar = rest := by
      rw [List.dropWhile_append_of_pos hw', hr.2]
    exact take_congr (by rw [ht]) (by rw [ht]) hd
  | number hd hds =>
    have hq : c ≠ '"' := by rintro rfl; simp at hd
    rw [Move.of.eq_3 c _ hq (fun _ h _ => hs h), if_neg (by simp [hb]), if_pos hd]
    have hr : rest.takeWhile Char.isDigit = [] ∧ rest.dropWhile Char.isDigit = rest := by
      cases rest with
      | nil => simp
      | cons d rest =>
        have : d.isDigit = false := by simpa [Unextended] using hu
        simp [this]
    have ht : (lx ++ rest).takeWhile Char.isDigit = lx := by
      rw [List.takeWhile_append_of_pos hds, hr.1, List.append_nil]
    have hd : (lx ++ rest).dropWhile Char.isDigit = rest := by
      rw [List.dropWhile_append_of_pos hds, hr.2]
    exact take_congr (by rw [ht]) (by rw [ht]) hd
  | @string body hq =>
    have hc : Scan.closeQuote (body ++ ['"'] ++ rest) = some (body, rest) := by
      rw [List.append_assoc, List.singleton_append, Scan.closeQuote_append hq]
    rw [Move.of.eq_2]
    split
    · next t r ht =>
      rw [hc] at ht
      cases ht
      rfl
    · next ht =>
      rw [hc] at ht
      cases ht
  | ampersand | lbrace | rbrace | colon | semicolon => rfl


theorem of_pass {c : Char} {r used rest : List Char} {hs : c :: r = used ++ rest}
    {hn : used ≠ []} (h : Move.of c r = .pass used rest hs hn) :
    (used = [c] ∧ Text.isBlank c = true) ∨
      ∃ body, used = '/' :: '*' :: (body ++ ['*', '/']) ∧ ¬ ['*', '/'] <:+: body := by
  unfold Move.of at h
  split at h
  · split at h
    · next b rest' hb =>
      obtain ⟨body, rfl, hbody⟩ := Scan.closeComment_eq_some hb
      cases h
      exact .inr ⟨body, rfl, hbody⟩
    · cases h
  · split at h <;> cases h
  · split at h
    · cases h
      exact .inl ⟨rfl, ‹_›⟩
    · split at h
      · cases h
      · split at h
        · cases h
        · split at h <;> cases h

theorem unextended_dropWhile_isDigit (r : List Char) :
    Unextended .number (r.dropWhile Char.isDigit) := by
  have hd := List.head?_dropWhile_not Char.isDigit r
  cases h : r.dropWhile Char.isDigit with
  | nil => trivial
  | cons d _ => simpa [h, Unextended] using hd

theorem unextended_dropWhile_isWordChar (r : List Char) :
    Unextended .identifier (r.dropWhile Scan.isWordChar) := by
  have hd := List.head?_dropWhile_not Scan.isWordChar r
  cases h : r.dropWhile Scan.isWordChar with
  | nil => trivial
  | cons d _ => simpa [h, Scan.isWordChar, Unextended] using hd

theorem of_mark {c : Char} {k : TokenKind} (h : TokenKind.ofMark? c = some k) :
    Lexeme k (String.singleton c) [c] ∧ ∀ r, Unextended k r := by
  unfold TokenKind.ofMark? at h
  split at h <;> cases h
  · exact ⟨(by decide : "&" = String.singleton '&') ▸ .ampersand, fun _ => trivial⟩
  · exact ⟨(by decide : "\x7b" = String.singleton '{') ▸ .lbrace, fun _ => trivial⟩
  · exact ⟨(by decide : "\x7d" = String.singleton '}') ▸ .rbrace, fun _ => trivial⟩
  · exact ⟨(by decide : ":" = String.singleton ':') ▸ .colon, fun _ => trivial⟩
  · exact ⟨(by decide : ";" = String.singleton ';') ▸ .semicolon, fun _ => trivial⟩

theorem of_take {c : Char} {r used rest : List Char} {k : TokenKind} {text : String}
    {hs : c :: r = used ++ rest} {hn : used ≠ []}
    (h : Move.of c r = .take k text used rest hs hn) : Lexeme k text used ∧ Unextended k rest := by
  unfold Move.of at h
  split at h
  · split at h <;> cases h
  · split at h
    · next t rest' ht =>
      cases h
      exact ⟨.string (Scan.closeQuote_no_quote ht), trivial⟩
    · cases h
  · split at h
    · cases h
    · split at h
      · next hd =>
        cases h
        exact ⟨.number hd (fun _ hm => List.mem_takeWhile_imp hm), unextended_dropWhile_isDigit r⟩
      · split at h
        · next ha =>
          cases h
          refine ⟨.identifier ha fun d hm => ?_, unextended_dropWhile_isWordChar r⟩
          exact (isWordChar_iff d).1 (List.mem_takeWhile_imp hm)
        · split at h
          · next k' hk =>
            cases h
            exact ⟨(of_mark hk).1, (of_mark hk).2 r⟩
          · cases h

end Move

/-! ## Gaps and lexemes do not overlap -/

namespace Lexical

attribute [ext] Token

theorem Gap.cons_iff {c : Char} {r : List Char} : Gap (c :: r) ↔
    (Text.isBlank c = true ∧ Gap r) ∨
      (c = '/' ∧ ∃ body g, r = '*' :: (body ++ '*' :: '/' :: g) ∧ ¬ ['*', '/'] <:+: body ∧
        Gap g) := by
  constructor
  · intro h
    cases h with
    | blank hc hg => exact .inl ⟨hc, hg⟩
    | comment hb hg => exact .inr ⟨rfl, _, _, rfl, hb, hg⟩
  · rintro (⟨hc, hg⟩ | ⟨rfl, body, g, rfl, hb, hg⟩)
    · exact .blank hc hg
    · exact .comment hb hg

theorem Gap.append {g g' : List Char} (h : Gap g) (h' : Gap g') : Gap (g ++ g') := by
  induction h with
  | nil => exact h'
  | blank hc _ ih => exact .blank hc ih
  | comment hb _ ih => simpa using Gap.comment hb ih

theorem Segments.prepend {before piece cs : List Char} {ts : List Token}
    {gaps : List (List Char)} (hp : Gap piece) (h : Segments (before ++ piece) cs ts gaps) :
    ∃ gaps', Segments before (piece ++ cs) ts gaps' := by
  cases h with
  | last hg => exact ⟨_, .last (hp.append hg)⟩
  | @next _ g lx rest t ts gaps hg hl hu hspan hrest =>
    have h := @Segments.next before (piece ++ g) lx rest t ts gaps (hp.append hg) hl hu
      (by rw [hspan, List.append_assoc]) (by simpa using hrest)
    exact ⟨_, by simpa using h⟩

theorem Gap.cancel {g x : List Char} (hg : Gap g) (h : Gap (g ++ x)) : Gap x := by
  induction hg with
  | nil => exact h
  | @blank c g hc _ ih =>
    rcases Gap.cons_iff.1 h with ⟨_, h'⟩ | ⟨rfl, _⟩
    · exact ih h'
    · exact absurd hc (by decide)
  | @comment body g hb _ ih =>
    rcases Gap.cons_iff.1 h with ⟨hc, _⟩ | ⟨_, body', g', he, hb', hg'⟩
    · exact absurd hc (by decide)
    · simp only [List.append_eq, List.cons_append, List.append_assoc, List.cons.injEq,
        true_and] at he
      have e := (Scan.closeComment_append hb (g ++ x)).symm.trans
        (he ▸ Scan.closeComment_append hb' g')
      simp only [Option.some.injEq, Prod.mk.injEq] at e
      exact ih (e.2 ▸ hg')

theorem Lexeme.disjoint_gap {k : TokenKind} {text : String} {lx rest m y : List Char} {d : Char}
    (hl : Lexeme k text lx) (hg : Gap (d :: m)) (h : lx ++ rest = d :: y) : False := by
  cases lx with
  | nil => cases hl
  | cons c lx =>
    simp only [List.cons_append, List.cons.injEq] at h
    obtain ⟨rfl, -⟩ := h
    obtain ⟨hb, hs⟩ := hl.head
    rcases Gap.cons_iff.1 hg with ⟨hc, _⟩ | ⟨hc, _⟩
    · simp [hb] at hc
    · exact hs hc

theorem Lexeme.not_gap {k : TokenKind} {text : String} {lx : List Char} (hl : Lexeme k text lx)
    (rest : List Char) : ¬ Gap (lx ++ rest) := by
  cases lx with
  | nil => cases hl
  | cons c lx =>
    intro hg
    exact hl.disjoint_gap (show Gap (c :: (lx ++ rest)) from hg)
      (show (c :: lx) ++ rest = c :: (lx ++ rest) from rfl)

theorem gap_unique {g g' lx lx' rest rest' : List Char} {k k' : TokenKind} {text text' : String}
    (hg : Gap g) (hg' : Gap g') (hl : Lexeme k text lx) (hl' : Lexeme k' text' lx')
    (h : g ++ (lx ++ rest) = g' ++ (lx' ++ rest')) : g = g' := by
  rcases List.append_eq_append_iff.1 h with ⟨m, rfl, hm⟩ | ⟨m, rfl, hm⟩
  · cases m with
    | nil => simp
    | cons d m => exact (hl.disjoint_gap (hg.cancel hg') hm).elim
  · cases m with
    | nil => simp
    | cons d m => exact (hl'.disjoint_gap (hg'.cancel hg) hm).elim

/-- Two lexemes that each end where nothing can extend them and start at the same place
are the same lexeme. -/
theorem Lexeme.unique {k k' : TokenKind} {text text' : String} {lx lx' rest rest' : List Char}
    (hl : Lexeme k text lx) (hu : Unextended k rest) (hl' : Lexeme k' text' lx')
    (hu' : Unextended k' rest') (h : lx ++ rest = lx' ++ rest') :
    k = k' ∧ text = text' ∧ lx = lx' ∧ rest = rest' := by
  cases lx with
  | nil => cases hl
  | cons c l =>
    cases lx' with
    | nil => cases hl'
    | cons c' l' =>
      simp only [List.cons_append, List.cons.injEq] at h
      obtain ⟨rfl, h⟩ := h
      have e := (Move.of_lexeme hl hu rfl).symm.trans (Move.of_lexeme hl' hu' h)
      simp only [Move.take.injEq] at e
      exact ⟨e.1, e.2.1, e.2.2.1, e.2.2.2⟩

end Lexical

/-! ## Runs of the scanner -/

namespace Scan

open Lexical

theorem go_pass {lead : Nat} {p : Position} {acc : Array Token} {c : Char}
    {r used rest : List Char} {hs : c :: r = used ++ rest} {hn : used ≠ []}
    (h : Move.of c r = .pass used rest hs hn) :
    go lead p acc (c :: r) = go lead (p.walk used) acc rest := by
  rw [go.eq_2, h]

theorem go_take {lead : Nat} {p : Position} {acc : Array Token} {c : Char}
    {r used rest : List Char} {k : TokenKind} {text : String} {hs : c :: r = used ++ rest}
    {hn : used ≠ []} (h : Move.of c r = .take k text used rest hs hn) :
    go lead p acc (c :: r) =
      go lead (p.walk used) (acc.push ⟨k, text, Span.covering p used⟩) rest := by
  rw [go.eq_2, h]

theorem go_gap {g : List Char} (hg : Gap g) (lead : Nat) (p : Position) (acc : Array Token)
    (x : List Char) : go lead p acc (g ++ x) = go lead (p.walk g) acc x := by
  induction hg generalizing p with
  | nil => rfl
  | @blank c g hc _ ih =>
    rw [List.cons_append, go_pass (Move.of_blank hc _), ih]
    rfl
  | @comment body g hb _ ih =>
    have e : ('/' :: '*' :: (body ++ '*' :: '/' :: g)) ++ x =
        '/' :: '*' :: (body ++ '*' :: '/' :: (g ++ x)) := by simp
    rw [e, go_pass (Move.of_comment hb _), ih, ← Position.walk_append]
    simp

theorem go_lexeme {k : TokenKind} {text : String} {lx rest : List Char} (hl : Lexeme k text lx)
    (hu : Unextended k rest) (lead : Nat) (p : Position) (acc : Array Token) :
    go lead p acc (lx ++ rest) =
      go lead (p.walk lx) (acc.push ⟨k, text, Span.covering p lx⟩) rest := by
  cases lx with
  | nil => cases hl
  | cons c lx => exact go_take (Move.of_lexeme hl hu rfl)

/-- Scanning a segmented text reads exactly its tokens. -/
theorem go_of_segments {before cs : List Char} {ts : List Token} {gaps : List (List Char)}
    (h : Segments before cs ts gaps) (lead : Nat) (acc : Array Token) :
    go lead (Position.start.walk before) acc cs = ⟨acc.toList ++ ts, none⟩ := by
  induction h generalizing acc with
  | @last before g hg =>
    rw [← List.append_nil g, go_gap hg, go]
    simp
  | @next before g lx rest t ts gaps hg hl hu hspan _ ih =>
    have hw : (Position.start.walk before).walk g = Position.start.walk (before ++ g) :=
      (Position.walk_append ..).symm
    rw [List.append_assoc, go_gap hg, go_lexeme hl hu, hw, Position.covering_start_walk, ← hspan,
      ← Position.walk_append]
    simpa using ih (acc.push t)

theorem segments_of_go {lead : Nat} {p : Position} {acc : Array Token} {cs : List Char}
    {before : List Char} {ts : List Token} (hp : p = Position.start.walk before)
    (h : go lead p acc cs = ⟨ts, none⟩) :
    ∃ new gaps, ts = acc.toList ++ new ∧ Segments before cs new gaps := by
  fun_induction go lead p acc cs generalizing before ts with
  | case1 p acc =>
    simp only [Scanned.mk.injEq, and_true] at h
    exact ⟨[], [[]], by simp [h], .last .nil⟩
  | case2 p acc c r used rest split _ hmove _ ih =>
    obtain ⟨new, gaps, rfl, hseg⟩ := @ih (before ++ used) ts (by rw [hp, Position.walk_append]) h
    have hpiece : Gap used := by
      rcases Move.of_pass hmove with ⟨rfl, hc⟩ | ⟨body, rfl, hb⟩
      · exact .blank hc .nil
      · simpa using Gap.comment hb .nil
    obtain ⟨gaps', hseg'⟩ := Segments.prepend hpiece hseg
    exact ⟨new, gaps', rfl, split ▸ hseg'⟩
  | case3 p acc c r kind text used rest split _ hmove _ ih =>
    obtain ⟨hl, hu⟩ := Move.of_take hmove
    obtain ⟨new, gaps, rfl, hseg⟩ := @ih (before ++ used) ts (by rw [hp, Position.walk_append]) h
    refine ⟨⟨kind, text, Span.covering p used⟩ :: new, [] :: gaps, by simp, ?_⟩
    have hspan : Span.covering p used = spanAfter (before ++ []) used := by
      rw [hp, Position.covering_start_walk, List.append_nil]
    rw [split]
    exact @Segments.next before [] used rest ⟨kind, text, _⟩ new gaps .nil hl hu hspan
      (by simpa using hseg)
  | case4 =>
    simp at h

end Scan

namespace Lexical

/-- The gaps and tokens of a text are determined by the text. -/
theorem Segments.unique {before cs : List Char} {ts ts' : List Token}
    {gaps gaps' : List (List Char)} (h : Segments before cs ts gaps)
    (h' : Segments before cs ts' gaps') : ts = ts' ∧ gaps = gaps' := by
  induction h generalizing ts' gaps' with
  | @last before g hg =>
    cases h' with
    | last _ => exact ⟨rfl, rfl⟩
    | next hg' hl' _ _ _ =>
      rw [List.append_assoc] at hg
      exact absurd (hg'.cancel hg) (hl'.not_gap _)
  | @next before g lx rest t ts gaps hg hl hu hspan _ ih =>
    generalize e : g ++ lx ++ rest = cs at h'
    cases h' with
    | last hg' =>
      subst e
      rw [List.append_assoc] at hg'
      exact absurd (hg.cancel hg') (hl.not_gap _)
    | @next _ g' lx' rest' t' ts' gaps' hg' hl' hu' hspan' hrest' =>
      simp only [List.append_assoc] at e
      obtain rfl := gap_unique hg hg' hl hl' e
      obtain ⟨hk, htext, rfl, rfl⟩ := hl.unique hu hl' hu' (List.append_cancel_left e)
      obtain ⟨rfl, rfl⟩ := ih hrest'
      have ht : t = t' := Token.ext hk htext (hspan.trans hspan'.symm)
      exact ⟨by rw [ht], rfl⟩

/-- Every token's span is the stretch of bytes its lexeme takes in the whole text. -/
theorem Segments.bounds {before cs : List Char} {ts : List Token} {gaps : List (List Char)}
    (h : Segments before cs ts gaps) {t : Token} (ht : t ∈ ts) :
    ∃ pre lx post, before ++ cs = pre ++ lx ++ post ∧
      t.span.start = (String.ofList pre).utf8ByteSize ∧
      t.span.stop = (String.ofList (pre ++ lx)).utf8ByteSize := by
  induction h with
  | last _ => simp at ht
  | @next before g lx rest t' ts gaps _ _ _ hspan _ ih =>
    rcases List.mem_cons.1 ht with rfl | ht
    · refine ⟨before ++ g, lx, rest, by simp, by rw [hspan]; rfl, ?_⟩
      rw [hspan, String.ofList_append, String.utf8ByteSize_append]
      rfl
    · obtain ⟨pre, lx', post, e, h1, h2⟩ := ih ht
      exact ⟨pre, lx', post, by simpa using e, h1, h2⟩

end Lexical

theorem isValid_at_split {s : String} {pre post : List Char} (h : s.toList = pre ++ post) :
    (String.Pos.Raw.mk (String.ofList pre).utf8ByteSize).IsValid s := by
  rw [String.Pos.Raw.isValid_iff_exists_append]
  refine ⟨String.ofList pre, String.ofList post, ?_, rfl⟩
  rw [← String.ofList_append, ← h, String.ofList_toList]

theorem tokenize_eq_ok_iff (s : String) (ts : List Token) :
    tokenize s = .ok ts ↔ Scanned.ofString s = ⟨ts, none⟩ := by
  unfold tokenize
  rcases h : Scanned.ofString s with ⟨tokens, _ | e⟩ <;> simp

open Lexical in
theorem segments_of_tokenize {s : String} {ts : List Token} (h : tokenize s = .ok ts) :
    ∃ gaps, Segments [] s.toList ts gaps := by
  rw [tokenize_eq_ok_iff] at h
  obtain ⟨new, gaps, rfl, hseg⟩ := @Scan.segments_of_go _ _ _ _ [] ts rfl h
  exact ⟨gaps, by simpa using hseg⟩

open Lexical in
/-- Scanning is maximal-munch segmentation with exact spans: a text scans to `ts` exactly
when it is gaps with the lexemes of `ts` between them, each token spanning its lexeme;
that split is unique, and every span starts and stops on a character boundary. -/
theorem tokenize_segmentation (s : String) (ts : List Token) :
    (tokenize s = .ok ts ↔ ∃ gaps, Segments [] s.toList ts gaps) ∧
    (∀ ts' gaps gaps', Segments [] s.toList ts gaps → Segments [] s.toList ts' gaps' →
      ts = ts' ∧ gaps = gaps') ∧
    (tokenize s = .ok ts → ∀ t ∈ ts, (String.Pos.Raw.mk t.span.start).IsValid s ∧
      (String.Pos.Raw.mk t.span.stop).IsValid s) := by
  have hiff : tokenize s = .ok ts ↔ ∃ gaps, Segments [] s.toList ts gaps := by
    refine ⟨segments_of_tokenize, fun ⟨gaps, hseg⟩ => ?_⟩
    rw [tokenize_eq_ok_iff]
    simpa [Scanned.ofString] using Scan.go_of_segments hseg (Scan.lead s.toList) #[]
  refine ⟨hiff, fun ts' gaps gaps' h h' => h.unique h', fun hok t ht => ?_⟩
  obtain ⟨gaps, hseg⟩ := hiff.1 hok
  obtain ⟨pre, lx, post, e, h1, h2⟩ := hseg.bounds ht
  rw [h1, h2]
  exact ⟨isValid_at_split (by simpa using e), isValid_at_split (by simpa using e)⟩

end RuleScript
