import TokenContract.Proofs.Plan.Transfer

namespace TokenContract

open Relation

variable {stages : List Staged}

/-- The check of stages for cycles. In whatever order ready stages are taken out, it comes to an end,
counts nothing down below zero and leaves the same stages. -/
structure CycleCheck (stages : List Staged) : Prop where
  short : ∀ taken s, (stageGraph stages).Reaches taken s → taken.length ≤ stages.length
  ended : ∃ taken, (stageGraph stages).Reaches taken
      ((stageGraph stages).run stages.length (stageGraph stages).start) ∧
    ((stageGraph stages).run stages.length (stageGraph stages).start).ready = []
  counted : ∀ taken s, (stageGraph stages).Reaches taken s → ∀ p ∈ s.ready, ∀ before c after,
    (stageGraph stages).successors p = before ++ c :: after →
      0 < (before.foldl Graph.State.release { s with ready := s.ready.erase p }).waits c
  left : ∀ taken s, (stageGraph stages).Reaches taken s → s.ready = [] →
    (stageGraph stages).waiting s = (stageGraph stages).tangled
  visited : ∀ taken s, (stageGraph stages).Reaches taken s → s.ready = [] →
    (taken.length = stages.length ↔ checkAcyclic stages = .ok ())
  accepts : checkAcyclic stages = .ok () ↔ ∀ i, ¬TransGen (Feeds stages) i i
  refuses : ∀ d, checkAcyclic stages = .error d → ∃ cs ids, d = .dependencyCycle ids ∧
    cs.Pairwise (· < ·) ∧
    (∀ c, c ∈ cs ↔ ∃ i, TransGen (Feeds stages) i i ∧ ReflTransGen (Feeds stages) i c) ∧
    List.Forall₂ (fun c id ↦ stages[c]?.map (·.feature) = some id) cs ids

theorem leads_stageGraph (stages : List Staged) : (stageGraph stages).Leads = Feeds stages := by
  funext p c
  refine propext ⟨fun h ↦ feeds_eq_true_iff.mp h.2.2, fun h ↦ ?_⟩
  obtain ⟨-, v, ⟨s, hs, -⟩, t, ht, -⟩ := id h
  exact ⟨(List.getElem?_eq_some_iff.mp hs).1, (List.getElem?_eq_some_iff.mp ht).1,
    feeds_eq_true_iff.mpr h⟩

theorem mem_tangled_stageGraph_iff {c : Nat} : c ∈ (stageGraph stages).tangled ↔
    ∃ i, TransGen (Feeds stages) i i ∧ ReflTransGen (Feeds stages) i c := by
  rw [Graph.mem_tangled_iff, Graph.Stuck, leads_stageGraph]

theorem forall₂_tangledFeatures (stages : List Staged) :
    List.Forall₂ (fun c id ↦ stages[c]?.map (·.feature) = some id) (stageGraph stages).tangled
      (tangledFeatures stages) := by
  refine Results.forall₂_filterMap fun c hc ↦ ?_
  have hlt : c < stages.length := (Graph.mem_tangled_iff.mp hc).lt
  rw [List.getElem?_eq_getElem hlt]
  rfl

theorem checkAcyclic_eq_ok_iff_tangled :
    checkAcyclic stages = .ok () ↔ (stageGraph stages).tangled = [] := by
  have hlength := (forall₂_tangledFeatures stages).length_eq
  rw [checkAcyclic_eq_ok_iff, ← List.length_eq_zero_iff, ← hlength, List.length_eq_zero_iff]

theorem checkAcyclic_eq_error {d : Defect} (h : checkAcyclic stages = .error d) :
    d = .dependencyCycle (tangledFeatures stages) := by
  rw [checkAcyclic] at h
  split at h
  · cases h
  · cases h
    rfl

theorem checkAcyclic_eq_ok_iff_acyclic :
    checkAcyclic stages = .ok () ↔ ∀ i, ¬TransGen (Feeds stages) i i := by
  rw [checkAcyclic_eq_ok_iff_tangled, List.eq_nil_iff_forall_not_mem]
  constructor
  · intro h i hcycle
    exact h i (mem_tangled_stageGraph_iff.mpr ⟨i, hcycle, .refl⟩)
  · intro h c hc
    obtain ⟨i, hcycle, -⟩ := mem_tangled_stageGraph_iff.mp hc
    exact h i hcycle

/-- Stages are refused exactly if there is a cycle, and what is named are the stages on cycles and
those behind them. -/
theorem cycleCheck (stages : List Staged) : CycleCheck stages where
  short taken s h := h.length_le
  ended := (stageGraph stages).exists_reaches_run
  counted taken s h p hp before c after hcs := h.cleared.release_pos hp hcs
  left taken s h hend := by
    obtain ⟨_, hrun, hrunEnd⟩ := (stageGraph stages).exists_reaches_run
    exact h.cleared.waiting_eq hend hrun.cleared hrunEnd
  visited taken s h hend := by
    obtain ⟨_, hrun, hrunEnd⟩ := (stageGraph stages).exists_reaches_run
    rw [checkAcyclic_eq_ok_iff_tangled, Graph.tangled,
      ← h.cleared.waiting_eq hend hrun.cleared hrunEnd]
    exact h.cleared.length_eq_iff hend
  accepts := checkAcyclic_eq_ok_iff_acyclic
  refuses d h := by
    have hd := checkAcyclic_eq_error h
    refine ⟨_, _, hd, List.pairwise_lt_range.filter _, fun c ↦ mem_tangled_stageGraph_iff, ?_⟩
    exact forall₂_tangledFeatures stages

end TokenContract
