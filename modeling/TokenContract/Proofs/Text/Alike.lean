import TokenContract.Proofs.Text.Breaks
import Mathlib.Data.List.Forall2

namespace TokenContract.Text

/-- Lines that are the same, or else stand in a relation. -/
def AlikeBut (R : String → String → Prop) (l m : String) : Prop :=
  l = m ∨ R l m

/-- A relation of lines that are neither broken nor blank. -/
structure Solid (R : String → String → Prop) : Prop where
  unbroken : ∀ l m, R l m → Unbroken l.toList ∧ Unbroken m.toList
  visible : ∀ l m, R l m → blank l = false ∧ blank m = false

variable {R S : String → String → Prop} {l m s t : String} {ls ms : List String}

theorem AlikeBut.imp (h : AlikeBut R l m) (hRS : ∀ l m, R l m → S l m) : AlikeBut S l m :=
  Or.imp_right (hRS l m) h

theorem forall₂_alikeBut (ls : List String) : List.Forall₂ (AlikeBut R) ls ls :=
  List.forall₂_same.mpr fun _ _ ↦ .inl rfl

theorem ne_empty_of_not_blank (h : blank l = false) : l ≠ "" := by
  rintro rfl
  cases h

theorem lines_of_unbroken (h : Unbroken l.toList) (hne : l ≠ "") : lines l = [l] := by
  have hlines := lines_joinLines (List.forall_mem_singleton.mpr h) (by simpa using hne)
  rwa [joinLines, String.intercalate_singleton] at hlines

theorem lines_joinLines_cons_cons (l m : String) (ls : List String) :
    lines (joinLines (l :: m :: ls)) = lines (endLines [l]) ++ lines (joinLines (m :: ls)) := by
  rw [endLines_singleton, lines, lines, lines, toList_joinLines_cons_cons, splitLines_append_feed,
    List.map_append, String.toList_append, toList_feed]

namespace Solid

variable (hR : Solid R)

include hR

theorem forall₂_lines (h : AlikeBut R l m) :
    List.Forall₂ (AlikeBut R) (lines l) (lines m) := by
  rcases h with rfl | h
  · exact forall₂_alikeBut _
  · obtain ⟨hl, hm⟩ := hR.unbroken l m h
    obtain ⟨hl', hm'⟩ := hR.visible l m h
    rw [lines_of_unbroken hl (ne_empty_of_not_blank hl'),
      lines_of_unbroken hm (ne_empty_of_not_blank hm')]
    exact .cons (.inr h) .nil

theorem forall₂_lines_endLines_singleton (h : AlikeBut R l m) :
    List.Forall₂ (AlikeBut R) (lines (endLines [l])) (lines (endLines [m])) := by
  rcases h with rfl | h
  · exact forall₂_alikeBut _
  · obtain ⟨hl, hm⟩ := hR.unbroken l m h
    rw [lines_endLines_singleton hl.isLine, lines_endLines_singleton hm.isLine]
    exact .cons (.inr h) .nil

theorem forall₂_lines_endLines (h : List.Forall₂ (AlikeBut R) ls ms) :
    List.Forall₂ (AlikeBut R) (lines (endLines ls)) (lines (endLines ms)) := by
  induction h with
  | nil => exact .nil
  | @cons l m ls ms hlm _ ih =>
    rw [lines_endLines_cons l ls, lines_endLines_cons m ms]
    exact List.rel_append (hR.forall₂_lines_endLines_singleton hlm) ih

theorem forall₂_lines_joinLines (h : List.Forall₂ (AlikeBut R) ls ms) :
    List.Forall₂ (AlikeBut R) (lines (joinLines ls)) (lines (joinLines ms)) := by
  induction h with
  | nil => exact .nil
  | cons hlm hrest ih =>
    -- Only the last line is not ended.
    cases hrest with
    | nil =>
      rw [joinLines, joinLines, String.intercalate_singleton, String.intercalate_singleton]
      exact hR.forall₂_lines hlm
    | cons _ _ =>
      rw [lines_joinLines_cons_cons, lines_joinLines_cons_cons]
      exact List.rel_append (hR.forall₂_lines_endLines_singleton hlm) ih

theorem forall₂_indent {level : Nat} (hS : ∀ l m, R l m → S (margin level ++ l) (margin level ++ m))
    (h : List.Forall₂ (AlikeBut R) (lines s) (lines t)) :
    List.Forall₂ (AlikeBut S) (indent level s) (indent level t) := by
  have hpad : List.Forall₂ (AlikeBut S) ((lines s).map (padLine level))
      ((lines t).map (padLine level)) := by
    rw [List.forall₂_map_left_iff, List.forall₂_map_right_iff]
    refine h.imp fun l m hlm ↦ ?_
    rcases hlm with rfl | hlm
    · exact .inl rfl
    · obtain ⟨hl, hm⟩ := hR.visible l m hlm
      rw [padLine_of_not_blank hl, padLine_of_not_blank hm]
      exact .inr (hS l m hlm)
  rw [indent, indent]
  cases hs : lines s with
  | nil =>
    rw [hs, List.forall₂_nil_left_iff] at h
    rw [h]
    exact forall₂_alikeBut _
  | cons l ls =>
    cases ht : lines t with
    | nil =>
      rw [ht, List.forall₂_nil_right_iff] at h
      rw [h] at hs
      cases hs
    | cons m ms =>
      rw [hs, ht] at hpad
      exact hpad

end Solid

end TokenContract.Text
