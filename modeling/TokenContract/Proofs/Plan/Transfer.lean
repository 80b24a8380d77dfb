import TokenContract.Plan.Transfer
import TokenContract.Proofs.Plan.Graph
import TokenContract.Proofs.Positions
import TokenContract.Proofs.Results
import TokenContract.Proofs.Sorting
import Mathlib.Data.List.Perm.Basic

namespace TokenContract

open Results

theorem checkAcyclic_eq_ok_iff {stages : List Staged} :
    checkAcyclic stages = .ok () ↔ tangledFeatures stages = [] := by
  rw [checkAcyclic]
  split
  · rename_i hnil
    exact iff_of_true rfl hnil
  · rename_i hne
    exact iff_of_false (by simp) hne

theorem checkOrder_eq_ok_iff {stages : List Staged} :
    checkOrder stages = .ok () ↔ orderDefect? stages = none := by
  rw [checkOrder]
  cases orderDefect? stages with
  | none => simp
  | some d => simp

theorem planTransfer_eq_ok_iff {enabled : List Feature} {swapRouter : Bool}
    {t : Option Transfer} :
    planTransfer enabled swapRouter = .ok t ↔ tangledFeatures (stagesOf enabled) = [] ∧
      orderDefect? (stagesOf enabled) = none ∧ t = transferOf (stagesOf enabled) swapRouter := by
  rw [← checkAcyclic_eq_ok_iff, ← checkOrder_eq_ok_iff, planTransfer]
  constructor
  · intro h
    obtain ⟨⟨⟩, hacyclic, h⟩ := bind_eq_ok_iff.mp h
    obtain ⟨⟨⟩, horder, h⟩ := bind_eq_ok_iff.mp h
    cases h
    exact ⟨hacyclic, horder, rfl⟩
  · intro h
    obtain ⟨hacyclic, horder, rfl⟩ := h
    exact bind_eq_ok_iff.mpr ⟨(), hacyclic, bind_eq_ok_iff.mpr ⟨(), horder, rfl⟩⟩

theorem elim_transferOf (stages : List Staged) (swapRouter : Bool) :
    (transferOf stages swapRouter).elim [] (·.stages) =
      stages.map fun s ↦ (s.feature, s.stage.priority) := by
  cases stages with
  | nil => rfl
  | cons s stages => rfl

theorem stages_transferOf (stages : List Staged) (swapRouter : Bool) :
    ((transferOf stages swapRouter).elim [] (·.stages)).map Prod.fst = stages.map (·.feature) := by
  rw [elim_transferOf, List.map_map]
  rfl

theorem isSome_transferOf (stages : List Staged) (swapRouter : Bool) :
    (transferOf stages swapRouter).isSome ↔ stages ≠ [] := by
  cases stages with
  | nil => simp [transferOf]
  | cons s stages => simp [transferOf]

theorem stagesOf_perm (enabled : List Feature) :
    (stagesOf enabled).Perm (enabled.filterMap fun f ↦ f.transferStage.map (⟨f.id, ·⟩)) :=
  List.mergeSort_perm ..

theorem mem_stagesOf_iff {enabled : List Feature} {s : Staged} :
    s ∈ stagesOf enabled ↔ ∃ f ∈ enabled, f.id = s.feature ∧ f.transferStage = some s.stage := by
  rw [(stagesOf_perm enabled).mem_iff, List.mem_filterMap]
  constructor
  · intro hx
    obtain ⟨f, hf, hs⟩ := hx
    obtain ⟨stage, hstage, rfl⟩ := Option.map_eq_some_iff.mp hs
    exact ⟨f, hf, rfl, hstage⟩
  · intro hx
    obtain ⟨f, hf, hid, hstage⟩ := hx
    exact ⟨f, hf, by rw [hstage, hid]; rfl⟩

theorem mem_sharedValuesOf_iff {enabled : List Feature} {v : SharedValue} :
    v ∈ sharedValuesOf (stagesOf enabled) ↔ ∃ f ∈ enabled, ∃ stage,
      f.transferStage = some stage ∧ v ∈ stage.produces ++ stage.consumes := by
  rw [sharedValuesOf, List.mem_eraseDups, List.mem_flatMap]
  constructor
  · intro hx
    obtain ⟨st, hst, hv⟩ := hx
    obtain ⟨f, hf, -, hstage⟩ := mem_stagesOf_iff.mp hst
    exact ⟨f, hf, st.stage, hstage, hv⟩
  · intro hx
    obtain ⟨f, hf, stage, hstage, hv⟩ := hx
    exact ⟨⟨f.id, stage⟩, mem_stagesOf_iff.mpr ⟨f, hf, rfl, hstage⟩, hv⟩

theorem features_stagesOf_perm (enabled : List Feature) :
    ((stagesOf enabled).map (·.feature)).Perm
      ((enabled.filter (·.transferStage.isSome)).map (·.id)) := by
  refine ((stagesOf_perm enabled).map _).trans (.of_eq ?_)
  induction enabled with
  | nil => rfl
  | cons f enabled ih =>
    cases h : f.transferStage with
    | none => simpa [h] using ih
    | some stage => simpa [h] using ih

theorem stagesOf_eq_sort (enabled : List Feature) :
    stagesOf enabled = Sorting.sort (fun s : Staged ↦ s.stage.priority)
      (enabled.filterMap fun f ↦ f.transferStage.map (⟨f.id, ·⟩)) :=
  rfl

theorem pairwise_stagesOf (enabled : List Feature) :
    (stagesOf enabled).Pairwise fun s t ↦ s.stage.priority ≤ t.stage.priority :=
  Sorting.pairwise_sort _ _

theorem stagesOf_filter (enabled : List Feature) (id : FeatureId) :
    stagesOf (enabled.filter (·.id != id)) = (stagesOf enabled).filter (·.feature != id) := by
  rw [stagesOf_eq_sort, stagesOf_eq_sort, ← Sorting.sort_filter, List.filter_filterMap,
    List.filterMap_filter]
  refine congrArg _ (List.filterMap_congr fun f _ ↦ ?_)
  cases f.transferStage with
  | none => simp
  | some stage => simp [Option.filter]

theorem priority_le_of_lt {enabled : List Feature} {s t : Staged} {i j : Nat}
    (hs : (stagesOf enabled)[i]? = some s) (ht : (stagesOf enabled)[j]? = some t) (hij : i < j) :
    s.stage.priority ≤ t.stage.priority := by
  obtain ⟨hi, rfl⟩ := List.getElem?_eq_some_iff.mp hs
  obtain ⟨hj, rfl⟩ := List.getElem?_eq_some_iff.mp ht
  exact List.pairwise_iff_getElem.mp (pairwise_stagesOf enabled) i j hi hj hij

def Produces (stages : List Staged) (i : Nat) (v : SharedValue) : Prop :=
  ∃ s, stages[i]? = some s ∧ v ∈ s.stage.produces

def Consumes (stages : List Staged) (i : Nat) (v : SharedValue) : Prop :=
  ∃ s, stages[i]? = some s ∧ v ∈ s.stage.consumes

def Feeds (stages : List Staged) (p c : Nat) : Prop :=
  p ≠ c ∧ ∃ v, Produces stages p v ∧ Consumes stages c v

theorem feeds_eq_true_iff {stages : List Staged} {p c : Nat} :
    feeds stages p c = true ↔ Feeds stages p c := by
  rw [feeds, Feeds]
  constructor
  · intro h
    split at h
    · rename_i s t hs ht
      obtain ⟨hne, hv⟩ := Bool.and_eq_true_iff.mp h
      obtain ⟨v, hv, hp⟩ := List.any_eq_true.mp hv
      exact ⟨by simpa using hne, v, ⟨s, hs, of_decide_eq_true hp⟩, t, ht, hv⟩
    · cases h
  · intro h
    obtain ⟨hne, v, ⟨s, hs, hp⟩, t, ht, hv⟩ := h
    rw [hs, ht]
    exact Bool.and_eq_true_iff.mpr ⟨by simpa using hne, List.any_eq_true.mpr ⟨v, hv, by simpa⟩⟩

theorem producer?_eq_some_iff {stages : List Staged} {v : SharedValue} {id : FeatureId} {i : Nat} :
    producer? stages v = some (id, i) ↔ Produces stages i v ∧ (∀ k < i, ¬Produces stages k v) ∧
      stages[i]?.map (·.feature) = some id := by
  have hsearch (s : Staged) (j : Nat) := Positions.find?_zipIdx_eq_some_iff
    (l := stages) (q := fun s ↦ v ∈ s.stage.produces) (a := s) (i := j)
  simp only [decide_eq_true_eq, decide_eq_false_iff_not] at hsearch
  rw [producer?, Option.map_eq_some_iff]
  constructor
  · intro h
    obtain ⟨⟨s, j⟩, hfind, he⟩ := h
    cases he
    obtain ⟨hs, hv, hfirst⟩ := (hsearch s _).mp hfind
    refine ⟨⟨s, hs, hv⟩, fun k hk hp ↦ ?_, by rw [hs]; rfl⟩
    obtain ⟨t, ht, hv⟩ := hp
    exact hfirst k hk t ht hv
  · intro h
    obtain ⟨⟨s, hs, hv⟩, hfirst, hid⟩ := h
    rw [hs] at hid
    cases hid
    exact ⟨(s, i), (hsearch s i).mpr ⟨hs, hv, fun k hk t ht hv ↦ hfirst k hk ⟨t, ht, hv⟩⟩, rfl⟩

theorem producer?_eq_none_iff {stages : List Staged} {v : SharedValue} :
    producer? stages v = none ↔ ∀ i, ¬Produces stages i v := by
  rw [producer?, Option.map_eq_none_iff, List.find?_eq_none]
  constructor
  · intro h i hp
    obtain ⟨s, hs, hv⟩ := hp
    exact h (s, i) (List.mem_zipIdx_iff_getElem?.mpr hs) (decide_eq_true hv)
  · intro h x hx hv
    exact h x.2 ⟨x.1, List.mem_zipIdx_iff_getElem?.mp hx, of_decide_eq_true hv⟩

/-- Every value is handed on at a lower priority than it is taken up. -/
def Forward (stages : List Staged) : Prop :=
  ∀ s ∈ stages, ∀ t ∈ stages, ∀ v ∈ s.stage.produces, v ∈ t.stage.consumes →
    s.stage.priority < t.stage.priority

section Forward

variable {enabled : List Feature} (h : Forward (stagesOf enabled))

include h

theorem Forward.lt {i j : Nat} {v : SharedValue} (hv : Produces (stagesOf enabled) i v)
    (hu : Consumes (stagesOf enabled) j v) : i < j := by
  obtain ⟨s, hs, hv⟩ := hv
  obtain ⟨t, ht, hu⟩ := hu
  have hlt := h s (List.mem_of_getElem? hs) t (List.mem_of_getElem? ht) v hv hu
  rcases Nat.lt_trichotomy i j with hij | rfl | hji
  · exact hij
  · rw [hs] at ht
    cases ht
    omega
  · have hle := priority_le_of_lt ht hs hji
    omega

theorem Forward.tangledFeatures_eq_nil : tangledFeatures (stagesOf enabled) = [] := by
  have hup : ∀ p c, (stageGraph (stagesOf enabled)).edge p c → p < c := fun p c he ↦ by
    obtain ⟨-, v, hv, hu⟩ := feeds_eq_true_iff.mp he
    exact h.lt hv hu
  rw [tangledFeatures, Graph.tangled_eq_nil hup, List.filterMap_nil]

theorem Forward.orderDefect?_eq_none : orderDefect? (stagesOf enabled) = none := by
  refine List.findSome?_eq_none_iff.mpr fun ⟨t, j⟩ ht ↦ ?_
  refine List.findSome?_eq_none_iff.mpr fun v hu ↦ ?_
  unfold earlyUse?
  split
  · rename_i id i hp
    have hv := (producer?_eq_some_iff.mp hp).1
    have hij := h.lt hv ⟨t, List.mem_zipIdx_iff_getElem?.mp ht, hu⟩
    exact if_neg (Nat.lt_asymm hij)
  · rfl

theorem Forward.planTransfer_eq (swapRouter : Bool) : planTransfer enabled swapRouter =
    .ok (transferOf (stagesOf enabled) swapRouter) :=
  planTransfer_eq_ok_iff.mpr ⟨h.tangledFeatures_eq_nil, h.orderDefect?_eq_none, rfl⟩

end Forward

end TokenContract
