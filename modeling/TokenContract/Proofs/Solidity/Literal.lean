import TokenContract.Proofs.Text.Blank
import TokenContract.Solidity.Block
import Mathlib.Data.List.Basic

namespace TokenContract.Solidity

/-- The characters up to the closing quote, and what comes after it. An escape, or the end of the
line before the quote, leaves no literal. -/
def readQuoted : List Char → Option (List Char × List Char)
  | [] => none
  | c :: cs =>
    if c = '"' then some ([], cs)
    else if c = '\\' ∨ c = '\n' ∨ c = '\r' then none
    else (readQuoted cs).map fun (content, rest) ↦ (c :: content, rest)

def readLiteral (cs : List Char) : Option (List Char × List Char) :=
  match (if "unicode".toList <+: cs then cs.drop "unicode".length else cs) with
  | '"' :: cs => readQuoted cs
  | _ => none

/-- The characters that stand for themselves in a literal. -/
def Shown (cs : List Char) : Prop :=
  ∀ c ∈ cs, c ≠ '"' ∧ c ≠ '\\' ∧ c ≠ '\n' ∧ c ≠ '\r'

theorem Shown.notMem_feed {cs : List Char} (h : Shown cs) : '\n' ∉ cs := by
  intro hfeed
  exact (h '\n' hfeed).2.2.1 rfl

theorem shown_of_plain {cs : List Char}
    (h : ∀ c ∈ cs, c ≠ '"' ∧ c ≠ '\\' ∧ Text.isControl c = false) : Shown cs := by
  intro c hc
  obtain ⟨hquote, hescape, hcontrol⟩ := h c hc
  refine ⟨hquote, hescape, ?_, ?_⟩
  · rintro rfl
    exact absurd hcontrol (by decide)
  · rintro rfl
    exact absurd hcontrol (by decide)

theorem shown_of_alphanum {cs : List Char} (h : ∀ c ∈ cs, c.isAlphanum) : Shown cs := by
  have hnot : ['"', '\\', '\n', '\r'].all fun d ↦ !d.isAlphanum := by decide
  intro c hc
  have hne : ∀ d ∈ ['"', '\\', '\n', '\r'], c ≠ d := by
    rintro d hd rfl
    have hno := List.all_eq_true.mp hnot c hd
    rw [h c hc] at hno
    cases hno
  simpa using hne

theorem readQuoted_append {cs : List Char} (h : Shown cs) (rest : List Char) :
    readQuoted (cs ++ '"' :: rest) = some (cs, rest) := by
  induction cs with
  | nil => simp [readQuoted]
  | cons c cs ih =>
    obtain ⟨⟨hquote, hescape, hfeed, hreturn⟩, hcs⟩ := List.forall_mem_cons.mp h
    rw [List.cons_append, readQuoted, if_neg hquote, if_neg (by simp [hescape, hfeed, hreturn]),
      ih hcs]
    rfl

theorem readLiteral_literal {s : String} (h : Shown s.toList) (rest : List Char) :
    readLiteral ((literal s).toList ++ rest) = some (s.toList, rest) := by
  have hquote : "\"".toList = ['"'] := rfl
  have hmark : "unicode\"".toList = "unicode".toList ++ ['"'] := rfl
  rw [literal]
  split
  · have hnot : ¬"unicode".toList <+: '"' :: (s.toList ++ '"' :: rest) := by
      have hword : "unicode".toList = ['u', 'n', 'i', 'c', 'o', 'd', 'e'] := rfl
      rw [hword, List.cons_prefix_cons]
      intro hu
      exact absurd hu.1 (by decide)
    simp only [String.toList_append, hquote, List.append_assoc, List.cons_append, List.nil_append]
    rw [readLiteral, if_neg hnot]
    exact readQuoted_append h rest
  · simp only [String.toList_append, hquote, hmark, List.append_assoc, List.cons_append,
      List.nil_append]
    rw [readLiteral, if_pos (List.prefix_append _ _), ← String.length_toList, List.drop_left]
    exact readQuoted_append h rest

theorem toNat_lt_of_isAlphanum {c : Char} (h : c.isAlphanum) : c.toNat < 128 := by
  rcases Bool.or_eq_true_iff.mp h with hletter | hdigit
  · rcases Bool.or_eq_true_iff.mp hletter with hupper | hlower
    · exact Text.toNat_lt_of_le (of_decide_eq_true hupper).2 (by decide)
    · exact Text.toNat_lt_of_le (of_decide_eq_true (Bool.and_eq_true_iff.mp hlower).2) (by decide)
  · exact Text.toNat_lt_of_le (of_decide_eq_true (Bool.and_eq_true_iff.mp hdigit).2) (by decide)

theorem literal_of_alphanum {s : String} (h : ∀ c ∈ s.toList, c.isAlphanum) :
    literal s = "\"" ++ s ++ "\"" := by
  rw [literal, if_pos]
  rw [List.all_eq_true]
  intro c hc
  exact decide_eq_true (toNat_lt_of_isAlphanum (h c hc))

end TokenContract.Solidity
