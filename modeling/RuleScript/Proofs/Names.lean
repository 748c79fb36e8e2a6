import RuleScript.Proofs.Writing
import RuleScript.Proofs.Segmentation
/-! # Names in programs and in scripts

A program's names are written as the scanner reads them: an ASCII letter, then ASCII
letters, digits and hyphens (`Scan.isName`). The script spells such a name with
underscores for hyphens, which gives a user name of the script (`Script.isUserName`).
Since no program name holds an underscore, spelling is injective on program names
(`identifier_inj`), and since a loop counter starts with an underscore, no user name is
a counter (`ne_counter`).
-/

namespace RuleScript

namespace Scan

/-- Whether a text is a name as the scanner reads one: an ASCII letter, then ASCII
letters, digits and hyphens. -/
def isName (s : String) : Bool :=
  match s.toList with
  | [] => false
  | c :: cs => c.isAlpha && cs.all isWordChar

end Scan

namespace Declaration

/-- Whether the property of a declaration, and the variable it reads if any, are names
as the scanner reads them. -/
def named (d : Declaration) : Bool :=
  Scan.isName d.property &&
    match d.value with
    | .ref n => Scan.isName n
    | .literal _ => true

end Declaration

/-- A program all of whose properties and variables are names as the scanner reads
them. -/
def Program.Named (p : Program) : Prop := ∀ d ∈ p.declarations, d.named = true

instance : DecidablePred Program.Named := fun p =>
  inferInstanceAs (Decidable (∀ d ∈ p.declarations, d.named = true))

namespace Script

/-- Whether a script name can come from a program: an ASCII letter, then ASCII letters,
digits and underscores. -/
def isUserName (x : String) : Bool :=
  match x.toList with
  | [] => false
  | c :: cs => c.isAlpha && cs.all fun d => d.isAlphanum || d == '_'

theorem identifier_toList (n : String) :
    (identifier n).toList = n.toList.map fun c => if c = '-' then '_' else c := by
  simp [identifier]

theorem isUserName_identifier {n : String} (h : Scan.isName n = true) :
    isUserName (identifier n) = true := by
  unfold Scan.isName at h
  unfold isUserName
  rw [identifier_toList]
  split at h
  · cases h
  · rename_i c cs hn
    rw [hn]
    simp only [Bool.and_eq_true, List.all_eq_true] at h
    have hc : c ≠ '-' := by
      rintro rfl
      cases h.1
    simp only [List.map_cons, if_neg hc, Bool.and_eq_true, List.all_eq_true, List.mem_map]
    refine ⟨h.1, ?_⟩
    rintro _ ⟨d, hd, rfl⟩
    have hw := (Lexical.isWordChar_iff d).1 (h.2 d hd)
    by_cases hm : d = '-'
    · simp [hm]
    · simp only [hm, if_false, Bool.or_eq_true, beq_iff_eq]
      exact .inl (hw.resolve_right hm)

theorem no_underscore {k : String} (hk : Scan.isName k = true) : ∀ c ∈ k.toList, c ≠ '_' := by
  intro c hc
  unfold Scan.isName at hk
  split at hk
  · cases hk
  · rename_i a as ha
    rw [ha] at hc
    simp only [Bool.and_eq_true, List.all_eq_true] at hk
    rcases List.mem_cons.1 hc with rfl | hc
    · rintro rfl
      cases hk.1
    · have hw := (Lexical.isWordChar_iff c).1 (hk.2 c hc)
      rintro rfl
      simp at hw

theorem spell_inj : ∀ {as bs : List Char}, (∀ c ∈ as, c ≠ '_') → (∀ c ∈ bs, c ≠ '_') →
    (as.map fun c => if c = '-' then '_' else c) = bs.map (fun c => if c = '-' then '_' else c) →
    as = bs
  | [], [], _, _, _ => rfl
  | [], _ :: _, _, _, h => by simp at h
  | _ :: _, [], _, _, h => by simp at h
  | a :: as, b :: bs, ha, hb, h => by
    simp only [List.map_cons, List.cons.injEq] at h
    have hab : a = b := by
      by_cases ha' : a = '-' <;> by_cases hb' : b = '-'
      · rw [ha', hb']
      · simp only [ha', hb', if_true, if_false] at h
        exact absurd h.1.symm (hb b List.mem_cons_self)
      · simp only [ha', hb', if_true, if_false] at h
        exact absurd h.1 (ha a List.mem_cons_self)
      · simpa [ha', hb'] using h.1
    rw [hab, spell_inj (fun c hc => ha c (List.mem_cons_of_mem _ hc))
      (fun c hc => hb c (List.mem_cons_of_mem _ hc)) h.2]

/-- Spelling with underscores is injective on program names. -/
theorem identifier_inj {m n : String} (hm : Scan.isName m = true) (hn : Scan.isName n = true)
    (h : identifier m = identifier n) : m = n := by
  have hl := congrArg String.toList h
  rw [identifier_toList, identifier_toList] at hl
  exact String.toList_injective (spell_inj (no_underscore hm) (no_underscore hn) hl)

theorem ne_counter {x : String} (h : isUserName x = true) (d : Nat) : x ≠ counter d := by
  rintro rfl
  unfold isUserName at h
  simp [counter] at h

theorem identifier_fixed {n : String} (h : n ∈ fixedNames) : identifier n = n := by
  simp only [fixedNames, List.mem_cons, List.not_mem_nil, or_false] at h
  rcases h with rfl | rfl | rfl | rfl | rfl | rfl | rfl | rfl | rfl <;> decide +kernel

end Script

end RuleScript
