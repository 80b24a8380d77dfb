import TokenContract.Spec.Basic
import Mathlib.Data.List.Basic

namespace TokenContract

theorem isNameChar_iff {c : Char} : isNameChar c = true ↔ c.isAlphanum ∨ c = '_' := by
  rw [isNameChar, Bool.or_eq_true, beq_iff_eq]

/-- What the usable characters of a name make of it. -/
inductive Identifies : List Char → String → Prop
  | none : Identifies [] ""
  | prefixed {c : Char} {cs : List Char} (hdigit : c.isDigit) :
      Identifies (c :: cs) ("Token" ++ String.ofList (c :: cs))
  | suffixed {c : Char} {cs : List Char} (hdigit : ¬c.isDigit)
      (hmem : String.ofList (c :: cs) ∈ reservedNames) :
      Identifies (c :: cs) (String.ofList (c :: cs) ++ "Token")
  | plain {c : Char} {cs : List Char} (hdigit : ¬c.isDigit)
      (hnot : String.ofList (c :: cs) ∉ reservedNames) :
      Identifies (c :: cs) (String.ofList (c :: cs))

theorem identifies_identifierOf (name : String) :
    Identifies (name.toList.filter isNameChar) (identifierOf name) := by
  rw [identifierOf]
  generalize name.toList.filter isNameChar = kept
  cases kept with
  | nil => exact .none
  | cons c cs =>
    dsimp only
    split
    · rename_i hdigit
      exact .prefixed hdigit
    · rename_i hdigit
      split
      · rename_i hmem
        exact .suffixed hdigit hmem
      · rename_i hnot
        exact .plain hdigit hnot

example : ["42 Coin", "ERC20", "Moon Shot!", "$$$"].map identifierOf =
    ["Token42Coin", "ERC20Token", "MoonShot", ""] := by decide +kernel

namespace Identifies

variable {kept : List Char} {s : String}

theorem eq_empty_iff (h : Identifies kept s) : s = "" ↔ kept = [] := by
  rw [← String.toList_eq_nil_iff]
  cases h with
  | none => simp
  | prefixed | suffixed | plain => simp

theorem forall_isNameChar (h : Identifies kept s) (hkept : ∀ c ∈ kept, isNameChar c) :
    ∀ c ∈ s.toList, isNameChar c := by
  have htoken : ∀ c ∈ "Token".toList, isNameChar c := List.all_eq_true.mp rfl
  cases h with
  | none => simp
  | prefixed =>
    simp only [String.toList_append, String.toList_ofList, List.forall_mem_append]
    exact ⟨htoken, hkept⟩
  | suffixed =>
    simp only [String.toList_append, String.toList_ofList, List.forall_mem_append]
    exact ⟨hkept, htoken⟩
  | plain =>
    rw [String.toList_ofList]
    exact hkept

theorem not_isDigit_head (h : Identifies kept s) {c : Char} {cs : List Char}
    (hs : s.toList = c :: cs) : ¬c.isDigit := by
  cases h with
  | none => cases hs
  | prefixed =>
    rw [String.toList_append] at hs
    cases hs
    decide
  | suffixed hdigit | plain hdigit =>
    simp only [String.toList_append, String.toList_ofList, List.cons_append] at hs
    cases hs
    exact hdigit

theorem notMem_reservedNames (h : Identifies kept s) : s ∉ reservedNames := by
  have hprefixed : ∀ r ∈ reservedNames, r.toList.take 5 ≠ "Token".toList := by decide +kernel
  have hsuffixed : ∀ r ∈ reservedNames, r ++ "Token" ∉ reservedNames := by decide +kernel
  cases h with
  | none => decide
  | prefixed =>
    intro hmem
    refine hprefixed _ hmem ?_
    rw [String.toList_append]
    rfl
  | suffixed _ hmem => exact hsuffixed _ hmem
  | plain _ hnot => exact hnot

end Identifies

theorem isNameChar_of_mem_identifierOf {name : String} :
    ∀ c ∈ (identifierOf name).toList, isNameChar c :=
  (identifies_identifierOf name).forall_isNameChar fun _ hc ↦ (List.mem_filter.mp hc).2

theorem identifierOf_eq_empty_iff {name : String} :
    identifierOf name = "" ↔ name.toList.filter isNameChar = [] :=
  (identifies_identifierOf name).eq_empty_iff

theorem notMem_reservedNames_identifierOf (name : String) : identifierOf name ∉ reservedNames :=
  (identifies_identifierOf name).notMem_reservedNames

/-- A letter or an underscore of ASCII, with letters, digits and underscores after it. -/
def IsIdentifier (s : String) : Prop :=
  ∃ c cs, s.toList = c :: cs ∧ (c.isAlpha ∨ c = '_') ∧ ∀ d ∈ cs, d.isAlphanum ∨ d = '_'

theorem not_isDigit_of_isAlpha {c : Char} (h : c.isAlpha) : ¬c.isDigit := by
  change (decide (65 ≤ c.val ∧ c.val ≤ 90) || (decide (97 ≤ c.val) && decide (c.val ≤ 122))) =
    true at h
  change ¬(decide (48 ≤ c.val) && decide (c.val ≤ 57)) = true
  simp only [Bool.or_eq_true, Bool.and_eq_true, decide_eq_true_eq, UInt32.le_iff_toNat_le] at h ⊢
  change (65 ≤ c.val.toNat ∧ c.val.toNat ≤ 90) ∨ 97 ≤ c.val.toNat ∧ c.val.toNat ≤ 122 at h
  change ¬(48 ≤ c.val.toNat ∧ c.val.toNat ≤ 57)
  omega

theorem isAlpha_or_iff {c : Char} :
    c.isAlpha ∨ c = '_' ↔ (c.isAlphanum ∨ c = '_') ∧ ¬c.isDigit := by
  constructor
  · rintro (halpha | rfl)
    · exact ⟨.inl (by rw [Char.isAlphanum, halpha, Bool.true_or]), not_isDigit_of_isAlpha halpha⟩
    · exact ⟨.inr rfl, by decide⟩
  · intro h
    obtain ⟨halphanum | hunderscore, hdigit⟩ := h
    · rw [Char.isAlphanum, Bool.or_eq_true] at halphanum
      exact .inl (halphanum.resolve_right hdigit)
    · exact .inr hunderscore

theorem isIdentifier_iff {s : String} : IsIdentifier s ↔
    ∃ c cs, s.toList = c :: cs ∧ (∀ d ∈ s.toList, isNameChar d) ∧ ¬c.isDigit := by
  refine exists_congr fun c ↦ exists_congr fun cs ↦ and_congr_right fun hs ↦ ?_
  rw [hs, List.forall_mem_cons, isAlpha_or_iff]
  simp only [isNameChar_iff]
  exact and_right_comm

theorem isIdentifier_identifierOf {name : String} (h : identifierOf name ≠ "") :
    IsIdentifier (identifierOf name) := by
  obtain ⟨c, cs, hs⟩ := List.exists_cons_of_ne_nil (mt String.toList_eq_nil_iff.mp h)
  exact isIdentifier_iff.mpr ⟨c, cs, hs, isNameChar_of_mem_identifierOf,
    (identifies_identifierOf name).not_isDigit_head hs⟩

theorem IsIdentifier.identifierOf_eq {s : String} (h : IsIdentifier s)
    (hfree : s ∉ reservedNames) : identifierOf s = s := by
  obtain ⟨c, cs, hs, hchars, hdigit⟩ := isIdentifier_iff.mp h
  have hkept : s.toList.filter isNameChar = c :: cs := by
    rw [List.filter_eq_self.mpr hchars, hs]
  have htext : s = String.ofList (c :: cs) := by rw [← hs, String.ofList_toList]
  have hidentifies := identifies_identifierOf s
  rw [hkept] at hidentifies
  rw [htext] at hfree
  generalize identifierOf s = identifier at hidentifies
  cases hidentifies with
  | prefixed hnot => exact absurd hnot hdigit
  | suffixed _ hmem => exact absurd hmem hfree
  | plain => exact htext.symm

theorem identifierOf_eq_self_iff {s : String} :
    identifierOf s = s ↔ s = "" ∨ IsIdentifier s ∧ s ∉ reservedNames := by
  constructor
  · intro h
    by_cases hempty : s = ""
    · exact .inl hempty
    · have hidentifier := isIdentifier_identifierOf (h.trans_ne hempty)
      have hfree := notMem_reservedNames_identifierOf s
      rw [h] at hidentifier hfree
      exact .inr ⟨hidentifier, hfree⟩
  · rintro (rfl | ⟨hidentifier, hfree⟩)
    · rfl
    · exact hidentifier.identifierOf_eq hfree

theorem identifierOf_identifierOf (name : String) :
    identifierOf (identifierOf name) = identifierOf name := by
  rw [identifierOf_eq_self_iff]
  by_cases hempty : identifierOf name = ""
  · exact .inl hempty
  · exact .inr ⟨isIdentifier_identifierOf hempty, notMem_reservedNames_identifierOf name⟩

/-- A contract's name is missing or a free identifier, and a token that is named so has a contract of
just that name. It differs from the token's own name unless that is such an identifier already. -/
structure Spec.StablyNamed (s : Spec) : Prop where
  empty_iff : s.contractName = "" ↔ ∀ c ∈ s.name.toList, ¬(c.isAlphanum ∨ c = '_')
  identifier : s.contractName = "" ∨ IsIdentifier s.contractName
  free : s.contractName ∉ reservedNames
  fixed : ∀ t : Spec, t.name = s.contractName → t.contractName = s.contractName
  kept_iff : s.contractName = s.name ↔
    s.name = "" ∨ IsIdentifier s.name ∧ s.name ∉ reservedNames

theorem Spec.stablyNamed (s : Spec) : s.StablyNamed := by
  refine ⟨?_, ?_, notMem_reservedNames_identifierOf s.name, fun t ht ↦ ?_,
    identifierOf_eq_self_iff⟩
  · rw [contractName, identifierOf_eq_empty_iff, List.filter_eq_nil_iff]
    simp only [isNameChar_iff]
  · by_cases hempty : s.contractName = ""
    · exact .inl hempty
    · exact .inr (isIdentifier_identifierOf hempty)
  · rw [contractName, ht]
    exact identifierOf_identifierOf s.name

end TokenContract
