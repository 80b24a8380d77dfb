import TokenContract.Proofs.Text.Breaks
import TokenContract.Solidity.Block

namespace TokenContract.Solidity

theorem spaced_cons (q : List String) (qs : List (List String)) :
    spaced (q :: qs) = q ++ qs.flatMap ("" :: ·) := by
  induction qs generalizing q with
  | nil => simp [spaced]
  | cons r qs ih =>
    rw [spaced, List.intercalate_cons_cons, ← spaced, ih, List.flatMap_cons, List.append_assoc]
    rfl

theorem spaced_append_cons (ps : List (List String)) (q : List String) (qs : List (List String)) :
    spaced (ps ++ q :: qs) = ps.flatMap (· ++ [""]) ++ q ++ qs.flatMap ("" :: ·) := by
  induction ps with
  | nil => exact spaced_cons q qs
  | cons p ps ih =>
    have hstep : spaced (p :: (ps ++ q :: qs)) = p ++ "" :: spaced (ps ++ q :: qs) := by
      cases ps with
      | nil => rw [List.nil_append, spaced_cons, spaced_cons]; rfl
      | cons r ps => rw [List.cons_append, spaced_cons, spaced_cons]; rfl
    rw [List.cons_append, hstep, ih, List.flatMap_cons]
    simp only [List.append_assoc, List.cons_append, List.nil_append]

theorem mem_spaced {l : String} {ps : List (List String)} (h : l ∈ spaced ps) :
    l = "" ∨ ∃ p ∈ ps, l ∈ p := by
  cases ps with
  | nil => exact absurd h List.not_mem_nil
  | cons q qs =>
    rw [spaced_cons, List.mem_append, List.mem_flatMap] at h
    rcases h with h | ⟨r, hr, h⟩
    · exact .inr ⟨q, List.mem_cons_self, h⟩
    · rcases List.mem_cons.mp h with h | h
      · exact .inl h
      · exact .inr ⟨r, List.mem_cons_of_mem q hr, h⟩

theorem nonblank_spaced (ps : List (List String)) :
    Text.nonblank (spaced ps) = ps.flatMap Text.nonblank := by
  cases ps with
  | nil => rfl
  | cons q qs =>
    have hempty (r : List String) : Text.nonblank ("" :: r) = Text.nonblank r := by
      rw [Text.nonblank_cons]
      exact if_pos (by decide)
    rw [spaced_cons, Text.nonblank_append, List.flatMap_cons]
    congr 1
    induction qs with
    | nil => rfl
    | cons r qs ih => rw [List.flatMap_cons, List.flatMap_cons, Text.nonblank_append, hempty, ih]

end TokenContract.Solidity
