import Mathlib.Data.List.Sort

namespace TokenContract.Sorting

variable {α : Type} (rank : α → Nat)

def sort (l : List α) : List α :=
  l.mergeSort fun a b ↦ rank a ≤ rank b

theorem sort_perm (l : List α) : (sort rank l).Perm l :=
  List.mergeSort_perm ..

theorem rank_trans (a b c : α) (hab : decide (rank a ≤ rank b)) (hbc : decide (rank b ≤ rank c)) :
    decide (rank a ≤ rank c) :=
  decide_eq_true (Nat.le_trans (of_decide_eq_true hab) (of_decide_eq_true hbc))

theorem rank_total (a b : α) : decide (rank a ≤ rank b) || decide (rank b ≤ rank a) := by
  rcases Nat.le_total (rank a) (rank b) with h | h
  · rw [decide_eq_true h, Bool.true_or]
  · rw [decide_eq_true h, Bool.or_true]

theorem pairwise_sort (l : List α) : (sort rank l).Pairwise fun a b ↦ rank a ≤ rank b :=
  (List.pairwise_mergeSort (rank_trans rank) (rank_total rank) l).imp of_decide_eq_true

theorem filter_rank_sort (l : List α) (n : Nat) :
    (sort rank l).filter (rank · == n) = l.filter (rank · == n) := by
  have hequal : (l.filter (rank · == n)).Pairwise fun a b ↦ decide (rank a ≤ rank b) := by
    refine List.pairwise_of_forall_mem_list fun a ha b hb ↦ decide_eq_true (Nat.le_of_eq ?_)
    have ha := beq_iff_eq.mp (List.mem_filter.mp ha).2
    have hb := beq_iff_eq.mp (List.mem_filter.mp hb).2
    rw [ha, hb]
  have hsub : (l.filter (rank · == n)).Sublist (sort rank l) :=
    List.sublist_mergeSort (rank_trans rank) (rank_total rank) hequal List.filter_sublist
  have hkept := hsub.filter (rank · == n)
  rw [List.filter_filter] at hkept
  simp only [Bool.and_self] at hkept
  exact (hkept.eq_of_length (((sort_perm rank l).filter _).length_eq).symm).symm

variable {rank}

theorem mem_of_filter_rank_eq {l m : List α}
    (h : ∀ n, l.filter (rank · == n) = m.filter (rank · == n)) {a : α} (ha : a ∈ l) : a ∈ m := by
  have hf : a ∈ l.filter (rank · == rank a) := List.mem_filter.mpr ⟨ha, beq_self_eq_true _⟩
  rw [h] at hf
  exact (List.mem_filter.mp hf).1

theorem eq_of_filter_rank_eq {l m : List α} (hl : l.Pairwise fun a b ↦ rank a ≤ rank b)
    (hm : m.Pairwise fun a b ↦ rank a ≤ rank b)
    (h : ∀ n, l.filter (rank · == n) = m.filter (rank · == n)) : l = m := by
  induction l generalizing m with
  | nil =>
    cases m with
    | nil => rfl
    | cons b m =>
      have hb := mem_of_filter_rank_eq (fun n ↦ (h n).symm) List.mem_cons_self
      exact absurd hb List.not_mem_nil
  | cons a l ih =>
    cases m with
    | nil => exact absurd (mem_of_filter_rank_eq h List.mem_cons_self) List.not_mem_nil
    | cons b m =>
      obtain ⟨hleast, hsorted⟩ := List.pairwise_cons.mp hl
      obtain ⟨hleast', hsorted'⟩ := List.pairwise_cons.mp hm
      -- Both heads have the least rank there is, so the first of this rank is the head of both.
      have hle : rank a ≤ rank b := by
        rcases List.mem_cons.mp (mem_of_filter_rank_eq (fun n ↦ (h n).symm) List.mem_cons_self)
          with he | hb
        · exact Nat.le_of_eq (congrArg rank he.symm)
        · exact hleast b hb
      have hge : rank b ≤ rank a := by
        rcases List.mem_cons.mp (mem_of_filter_rank_eq h List.mem_cons_self) with he | ha
        · exact Nat.le_of_eq (congrArg rank he.symm)
        · exact hleast' a ha
      have hab : a = b := by
        have hfirst := h (rank a)
        rw [List.filter_cons_of_pos (by simp),
          List.filter_cons_of_pos (by simp [Nat.le_antisymm hge hle])] at hfirst
        exact (List.cons.inj hfirst).1
      subst hab
      refine congrArg (a :: ·) (ih hsorted hsorted' fun n ↦ ?_)
      have hn := h n
      rw [List.filter_cons, List.filter_cons] at hn
      split at hn
      · exact (List.cons.inj hn).2
      · exact hn

variable (rank)

theorem sort_filter (q : α → Bool) (l : List α) :
    sort rank (l.filter q) = (sort rank l).filter q := by
  refine eq_of_filter_rank_eq (pairwise_sort rank _)
    ((pairwise_sort rank l).sublist List.filter_sublist) fun n ↦ ?_
  rw [filter_rank_sort, List.filter_comm, List.filter_comm (p := (rank · == n)) (l := sort rank l),
    filter_rank_sort]

end TokenContract.Sorting
