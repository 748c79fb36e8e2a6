import RuleScript.Proofs.Grammar
import RuleScript.Proofs.Execution
/-! # What reading makes of a program

Scanning reads an identifier as an ASCII letter followed by ASCII letters, digits and
hyphens, and a number as ASCII digits; reading keeps a number's digits without their
leading zeros. So in a program read from a text every property and every variable is a
name, and every integer is written as a decimal integer literal of the script language.

Main statement: `read_declarations`.
-/

namespace RuleScript

/-- A token as scanning makes it: an identifier is a name, and a number is digits. -/
def Token.Scanned (t : Token) : Prop :=
  (t.kind = .identifier → Scan.isName t.text = true) ∧
    (t.kind = .number → t.text.toList ≠ [] ∧ ∀ c ∈ t.text.toList, c.isDigit = true)

/-- A declaration as reading makes it: its property and the variable it reads are names,
and an integer it holds is a decimal integer literal. -/
def Declaration.Read (d : Declaration) : Prop :=
  d.named = true ∧ ∀ ds, d.value = .literal (.integer ds) → Script.isDecimalLiteral ds = true

theorem isDecimalLiteral_canonicalDigits {t : String} (h : ∀ c ∈ t.toList, c.isDigit = true) :
    Script.isDecimalLiteral (canonicalDigits t) = true := by
  cases hd : t.toList.dropWhile (· == '0') with
  | nil =>
    simp only [canonicalDigits, hd]
    decide
  | cons c cs =>
    have hc : c ≠ '0' := by
      have := List.head_dropWhile_not (· == '0') (l := t.toList) (by simp [hd])
      simp only [hd, List.head_cons, beq_eq_false_iff_ne] at this
      exact this
    have hdig : ∀ d ∈ c :: cs, d.isDigit = true := fun d hm =>
      h d (List.dropWhile_subset _ (hd ▸ hm))
    simp only [canonicalDigits, hd, Script.isDecimalLiteral, String.toList_ofList]
    split
    · next he => cases he
    · rfl
    · next _ c' cs' _ he =>
      simp only [List.cons.injEq] at he
      obtain ⟨rfl, rfl⟩ := he
      simp only [bne_iff_ne, ne_eq, hc, not_false_eq_true, Bool.and_eq_true, List.all_eq_true]
      exact ⟨⟨trivial, hdig c List.mem_cons_self⟩, fun d hm => hdig d (List.mem_cons_of_mem _ hm)⟩

namespace Lexical

theorem Lexeme.scanned {t : Token} {lx : List Char} (h : Lexeme t.kind t.text lx) :
    t.Scanned := by
  obtain ⟨kind, text, span⟩ := t
  simp only at h
  cases h with
  | identifier hc hcs =>
    refine ⟨fun _ => ?_, (fun hk => by cases hk)⟩
    simp only [Scan.isName, String.toList_ofList, Bool.and_eq_true, List.all_eq_true]
    exact ⟨hc, fun d hd => (isWordChar_iff d).2 (hcs d hd)⟩
  | number hc hcs =>
    refine ⟨(fun hk => by cases hk), fun _ => ?_⟩
    simp only [String.toList_ofList, ne_eq, reduceCtorEq, not_false_eq_true, List.mem_cons,
      forall_eq_or_imp, true_and]
    exact ⟨hc, hcs⟩
  | string => exact ⟨(fun hk => by cases hk), (fun hk => by cases hk)⟩
  | ampersand => exact ⟨(fun hk => by cases hk), (fun hk => by cases hk)⟩
  | lbrace => exact ⟨(fun hk => by cases hk), (fun hk => by cases hk)⟩
  | rbrace => exact ⟨(fun hk => by cases hk), (fun hk => by cases hk)⟩
  | colon => exact ⟨(fun hk => by cases hk), (fun hk => by cases hk)⟩
  | semicolon => exact ⟨(fun hk => by cases hk), (fun hk => by cases hk)⟩

theorem Segments.scanned {before cs : List Char} {ts : List Token} {gaps : List (List Char)}
    (h : Segments before cs ts gaps) : ∀ t ∈ ts, t.Scanned := by
  induction h with
  | last _ => simp
  | next _ hl _ _ _ ih =>
    intro t ht
    rcases List.mem_cons.1 ht with rfl | ht
    · exact hl.scanned
    · exact ih t ht

end Lexical

namespace Grammar

theorem ValueToken.read {t : Token} {v : Value} (h : ValueToken t v) (ht : t.Scanned)
    (p : String) (hp : Scan.isName p = true) (span : Span) : Declaration.Read ⟨p, v, span⟩ := by
  cases h with
  | number hk =>
    obtain ⟨hne, hdig⟩ := ht.2 hk
    refine ⟨by simp [Declaration.named, hp], fun ds hv => ?_⟩
    simp only [Value.literal.injEq, Literal.integer.injEq] at hv
    rw [← hv]
    exact isDecimalLiteral_canonicalDigits hdig
  | string hk => exact ⟨by simp [Declaration.named, hp], fun ds hv => by cases hv⟩
  | identifier hk => exact ⟨by simp [Declaration.named, hp, ht.1 hk], fun ds hv => by cases hv⟩

mutual

theorem Item.declarations_read : ∀ {ts : List Token} {n : Node}, Item ts n →
    (∀ t ∈ ts, t.Scanned) → ∀ d ∈ n.declarations, d.Read
  | _, _, .loop _ _ hb, hs => by
    simpa [Node.declarations] using hb.declarations_read fun t ht => hs t (List.mem_cons_of_mem _ ht)
  | _, _, .nested _ _ _ hb, hs => by
    simpa [Node.declarations] using
      hb.declarations_read fun t ht => hs t (List.mem_cons_of_mem _ (List.mem_cons_of_mem _ ht))
  | _, _, @Item.declaration p _ v _ _ hp _ _ hv _, hs => by
    intro d hd
    simp only [Node.declarations, List.mem_singleton] at hd
    subst hd
    exact hv.read (hs v (by simp)) p.text ((hs p (by simp)).1 hp) p.span

theorem Block.declarations_read : ∀ {ts : List Token} {body : List Node}, Block ts body →
    (∀ t ∈ ts, t.Scanned) → ∀ d ∈ Node.declarationsOf body, d.Read
  | _, _, .mk _ hi _, hs => hi.declarations_read fun t ht => hs t (by simp [ht])

theorem Items.declarations_read : ∀ {ts : List Token} {ns : List Node}, Items ts ns →
    (∀ t ∈ ts, t.Scanned) → ∀ d ∈ Node.declarationsOf ns, d.Read
  | _, _, .nil, _ => by simp [Node.declarationsOf]
  | _, _, .cons hi hus, hs => by
    intro d hd
    simp only [Node.declarationsOf, List.mem_append] at hd
    rcases hd with hd | hd
    · exact hi.declarations_read (fun t ht => hs t (List.mem_append_left _ ht)) d hd
    · exact hus.declarations_read (fun t ht => hs t (List.mem_append_right _ ht)) d hd

end

theorem Rules.declarations_read {ts : List Token} {rs : List Rule} (h : Rules ts rs)
    (hs : ∀ t ∈ ts, t.Scanned) : ∀ r ∈ rs, ∀ d ∈ Node.declarationsOf r.body, d.Read := by
  induction h with
  | nil => simp
  | cons _ hb _ ih =>
    intro r hr
    rcases List.mem_cons.1 hr with rfl | hr
    · exact hb.declarations_read fun t ht => hs t (by simp [ht])
    · exact ih (fun t ht => hs t (by simp [ht])) r hr

end Grammar

/-- Every declaration of a program read from a text has names for its property and its
variable, and writes its integer as a decimal integer literal. -/
theorem read_declarations {s : String} {p : Program} (h : Program.read s = .ok p) :
    ∀ d ∈ p.declarations, d.Read := by
  unfold Program.read at h
  split at h
  · cases h
  · next ts hts =>
    split at h
    · cases h
    · next q hq =>
      cases h
      obtain ⟨gaps, hseg⟩ := segments_of_tokenize hts
      obtain ⟨hsent, -⟩ := sentence_of_ofTokens hq
      intro d hd
      obtain ⟨r, hr, hd⟩ := List.mem_flatMap.1 hd
      exact Grammar.Rules.declarations_read hsent hseg.scanned r hr d hd

end RuleScript
