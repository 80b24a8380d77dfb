import TokenContract.Text.Blank
import Mathlib.Data.List.DropRight

namespace TokenContract.Text

theorem toNat_lt_of_le {c d : Char} (h : c.val ≤ d.val) (hd : d.toNat < 128) : c.toNat < 128 :=
  Nat.lt_of_le_of_lt (UInt32.le_iff_toNat_le.mp h) hd

theorem isBlank_of_isAlphanum {c : Char} (h : c.isAlphanum = true) : isBlank c = false := by
  change (decide (65 ≤ c.val ∧ c.val ≤ 90) ||
    (decide (97 ≤ c.val) && decide (c.val ≤ 122)) ||
    (decide (48 ≤ c.val) && decide (c.val ≤ 57))) = true at h
  simp only [Bool.or_eq_true, Bool.and_eq_true, decide_eq_true_eq, UInt32.le_iff_toNat_le] at h
  change ((65 ≤ c.val.toNat ∧ c.val.toNat ≤ 90) ∨ 97 ≤ c.val.toNat ∧ c.val.toNat ≤ 122) ∨
    48 ≤ c.val.toNat ∧ c.val.toNat ≤ 57 at h
  simp only [isBlank, Char.toNat, Bool.or_eq_false_iff, Bool.and_eq_false_iff,
    decide_eq_false_iff_not, beq_eq_false_iff_ne]
  omega

theorem trimChars_of_blank {cs : List Char} (h : ∀ c ∈ cs, isBlank c = true) :
    trimChars cs = [] := by
  rw [trimChars, List.dropWhile_eq_nil_iff.mpr h]
  rfl

theorem trimChars_eq_self {cs : List Char} (h : ∀ c ∈ cs, isBlank c = false) :
    trimChars cs = cs := by
  have hdrop {ds : List Char} (hds : ∀ c ∈ ds, isBlank c = false) : ds.dropWhile isBlank = ds :=
    List.dropWhile_eq_self_iff.mpr fun hl ↦ by simp [hds _ (List.getElem_mem hl)]
  rw [trimChars, hdrop h, trimEndChars, hdrop fun c hc ↦ h c (List.mem_reverse.mp hc),
    List.reverse_reverse]

theorem trimChars_trimChars (cs : List Char) : trimChars (trimChars cs) = trimChars cs := by
  have hprefix : trimChars cs <+: cs.dropWhile isBlank := List.rdropWhile_prefix isBlank _
  have hstart : (trimChars cs).dropWhile isBlank = trimChars cs := by
    cases hleft : trimChars cs with
    | nil => rfl
    | cons c ds =>
      obtain ⟨rest, hrest⟩ := hprefix
      have hnot := List.head?_dropWhile_not isBlank cs
      rw [← hrest, hleft] at hnot
      exact List.dropWhile_cons_of_neg (ne_true_of_eq_false hnot)
  rw [trimChars, hstart]
  exact List.rdropWhile_idempotent isBlank (cs.dropWhile isBlank)

theorem trim_trim (s : String) : trim (trim s) = trim s := by
  rw [trim, toList_trim, trimChars_trimChars, trim]

theorem trim_of_blank {s : String} (h : blank s = true) : trim s = "" := by
  rw [trim, trimChars_of_blank (List.all_eq_true.mp h), String.ofList_nil]

theorem mem_of_mem_trimChars {cs : List Char} {c : Char} (h : c ∈ trimChars cs) : c ∈ cs := by
  rw [trimChars, trimEndChars, List.mem_reverse] at h
  have hrest := (List.dropWhile_sublist isBlank).mem h
  rw [List.mem_reverse] at hrest
  exact (List.dropWhile_sublist isBlank).mem hrest

theorem mem_trimChars {cs : List Char} {c : Char} (hc : c ∈ cs) (h : isBlank c = false) :
    c ∈ trimChars cs := by
  have hkept {ds : List Char} (hds : c ∈ ds) : c ∈ ds.dropWhile isBlank := by
    rw [← List.takeWhile_append_dropWhile (p := isBlank) (l := ds), List.mem_append] at hds
    refine hds.resolve_left fun hlost ↦ ?_
    rw [List.mem_takeWhile_imp hlost] at h
    cases h
  rw [trimChars, trimEndChars, List.mem_reverse]
  exact hkept (List.mem_reverse.mpr (hkept hc))

theorem getLast?_trimChars_ne {cs : List Char} {c : Char} (hc : isBlank c = true) :
    (trimChars cs).getLast? ≠ some c := by
  intro hlast
  rw [trimChars, trimEndChars, List.getLast?_reverse] at hlast
  have hnot := List.head?_dropWhile_not isBlank (cs.dropWhile isBlank).reverse
  rw [hlast] at hnot
  exact absurd hc (ne_true_of_eq_false hnot)

theorem trimChars_eq_nil_iff {cs : List Char} :
    trimChars cs = [] ↔ ∀ c ∈ cs, isBlank c = true := by
  refine ⟨fun h ↦ ?_, trimChars_of_blank⟩
  rw [← List.dropWhile_eq_nil_iff]
  rw [trimChars, trimEndChars, List.reverse_eq_nil_iff, List.dropWhile_eq_nil_iff] at h
  cases hrest : cs.dropWhile isBlank with
  | nil => rfl
  | cons c ds =>
    have hnot := List.head?_dropWhile_not isBlank cs
    rw [hrest] at h hnot
    exact absurd (h c (List.mem_reverse.mpr List.mem_cons_self)) (ne_true_of_eq_false hnot)

theorem trim_eq_empty_iff {s : String} : trim s = "" ↔ blank s = true := by
  rw [← String.toList_eq_nil_iff, toList_trim, trimChars_eq_nil_iff, blank, List.all_eq_true]

theorem blank_trim (s : String) : blank (trim s) = blank s := by
  rw [Bool.eq_iff_iff, ← trim_eq_empty_iff (s := s), blank, List.all_eq_true, toList_trim,
    ← String.toList_eq_nil_iff, toList_trim]
  constructor
  · intro h
    rw [← List.getLast?_eq_none_iff]
    cases hlast : (trimChars s.toList).getLast? with
    | none => rfl
    | some c => exact absurd hlast (getLast?_trimChars_ne (h c (List.mem_of_getLast? hlast)))
  · intro h c hc
    rw [h] at hc
    exact absurd hc List.not_mem_nil

theorem trimChars_append {before after : List Char} (hbefore : ∀ c ∈ before, isBlank c = true)
    (hafter : ∀ c ∈ after, isBlank c = true) (cs : List Char) :
    trimChars (before ++ cs ++ after) = trimChars cs := by
  rw [trimChars, trimChars, List.append_assoc, List.dropWhile_append_of_pos hbefore,
    List.dropWhile_append]
  split
  · rename_i hnil
    rw [List.isEmpty_iff.mp hnil, List.dropWhile_eq_nil_iff.mpr hafter]
  · rw [trimEndChars, List.reverse_append,
      List.dropWhile_append_of_pos fun c hc ↦ hafter c (List.mem_reverse.mp hc)]
    rfl

theorem trim_append {before after : String} (hbefore : blank before = true)
    (hafter : blank after = true) (s : String) : trim (before ++ s ++ after) = trim s := by
  rw [trim, trim, String.toList_append, String.toList_append,
    trimChars_append (List.all_eq_true.mp hbefore) (List.all_eq_true.mp hafter)]

end TokenContract.Text
