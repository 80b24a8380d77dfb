import Mathlib.Data.List.Basic
import Mathlib.Data.List.Induction

namespace TokenContract.Positions

variable {α β : Type} {l : List α} {f : α × Nat → Option β} {q : α → Bool} {a : α} {b : β} {i : Nat}

theorem exists_getElem?_iff {p : α → Prop} :
    (∃ i : Nat, ∃ a, l[i]? = some a ∧ p a) ↔ ∃ a ∈ l, p a := by
  rw [exists_comm]
  simp only [exists_and_right, List.mem_iff_getElem?]

theorem findSome?_zipIdx_eq_some_iff : l.zipIdx.findSome? f = some b ↔
    ∃ i a, l[i]? = some a ∧ f (a, i) = some b ∧ ∀ k < i, ∀ c, l[k]? = some c → f (c, k) = none := by
  rw [List.findSome?_eq_some_iff]
  constructor
  · intro h
    obtain ⟨_, x, _, hl, hf, hnone⟩ := h
    obtain ⟨before, rest, rfl, rfl, hrest⟩ := List.zipIdx_eq_append_iff.mp hl
    cases rest with
    | nil => cases hrest
    | cons a after =>
      obtain ⟨rfl, -⟩ := List.cons.inj hrest
      rw [Nat.zero_add] at hf
      refine ⟨before.length, a, by simp, hf, fun k hk c hc ↦ hnone (c, k) ?_⟩
      rw [List.mem_zipIdx_iff_getElem?, ← hc, List.getElem?_append_left hk]
  · intro h
    obtain ⟨i, a, ha, hf, hnone⟩ := h
    obtain ⟨hi, rfl⟩ := List.getElem?_eq_some_iff.mp ha
    have hl : l = l.take i ++ l[i] :: l.drop (i + 1) := by
      rw [List.getElem_cons_drop, List.take_append_drop]
    refine ⟨(l.take i).zipIdx, (l[i], i), (l.drop (i + 1)).zipIdx (i + 1), ?_, hf, fun x hx ↦ ?_⟩
    · conv_lhs => rw [hl]
      rw [List.zipIdx_append, List.zipIdx_cons, List.length_take_of_le (Nat.le_of_lt hi),
        Nat.zero_add]
    · have hx := List.mem_zipIdx_iff_getElem?.mp hx
      have hlt := (List.getElem?_eq_some_iff.mp hx).1
      rw [List.length_take] at hlt
      rw [List.getElem?_take_of_lt (by omega)] at hx
      exact hnone x.2 (by omega) x.1 hx

theorem find?_zipIdx_eq_some_iff : l.zipIdx.find? (q ·.1) = some (a, i) ↔
    l[i]? = some a ∧ q a ∧ ∀ k < i, ∀ c, l[k]? = some c → q c = false := by
  rw [List.find?_eq_findSome?_guard, findSome?_zipIdx_eq_some_iff]
  simp only [Option.guard_eq_some_iff, Option.guard_eq_none_iff, Prod.mk.injEq]
  constructor
  · intro h
    obtain ⟨j, c, hc, ⟨⟨rfl, rfl⟩, hq⟩, hnone⟩ := h
    exact ⟨hc, hq, hnone⟩
  · intro h
    exact ⟨i, a, h.1, ⟨⟨rfl, rfl⟩, h.2.1⟩, h.2.2⟩

theorem pairwise_eraseDups [DecidableEq α] (l : List α) :
    l.eraseDups.Pairwise fun a b ↦ l.idxOf a < l.idxOf b := by
  induction l using List.reverseRecOn with
  | nil => exact .nil
  | append_singleton l a ih =>
    have hold : l.eraseDups.Pairwise fun b c ↦ (l ++ [a]).idxOf b < (l ++ [a]).idxOf c :=
      ih.imp_of_mem fun hb hc h ↦ by
        rwa [List.idxOf_append_of_mem (List.mem_eraseDups.mp hb),
          List.idxOf_append_of_mem (List.mem_eraseDups.mp hc)]
    rw [List.eraseDups_append]
    by_cases ha : a ∈ l
    · have hnone : [a].removeAll l = [] := by simp [List.removeAll, ha]
      rw [hnone, List.eraseDups_nil, List.append_nil]
      exact hold
    · have hnew : [a].removeAll l = [a] := by simp [List.removeAll, ha]
      have hone : [a].eraseDups = [a] := rfl
      rw [hnew, hone]
      refine List.pairwise_append.mpr ⟨hold, List.pairwise_singleton _ _, fun b hb c hc ↦ ?_⟩
      have hb := List.mem_eraseDups.mp hb
      rw [List.mem_singleton.mp hc, List.idxOf_append_of_mem hb, List.idxOf_append_of_notMem ha]
      exact Nat.lt_add_right _ (List.idxOf_lt_length_iff.mpr hb)

theorem nodup_eraseDups [DecidableEq α] (l : List α) : l.eraseDups.Nodup :=
  (pairwise_eraseDups l).imp fun h he ↦ Nat.ne_of_lt h (congrArg l.idxOf he)

end TokenContract.Positions
