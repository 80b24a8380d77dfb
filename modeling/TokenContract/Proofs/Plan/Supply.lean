import TokenContract.Proofs.Plan.Coherence
import TokenContract.Proofs.Plan.Dataflow

namespace TokenContract

/-- The stage at a position takes up a value that a later stage hands on. -/
structure ReadsAhead (stages : List Staged) (i j : Nat) (v : SharedValue) : Prop where
  consumes : Consumes stages i v
  produces : Produces stages j v
  later : i < j

/-- The stages of a plan, and whence they have their values. -/
structure Plan.Supplied (p : Plan) (c : Catalog) (s : Spec) (stages : List Staged) : Prop where
  ordered : InOrder (c.features.filter s.enables) stages
  layout : p.transfer.elim [] (·.stages) = stages.map fun t ↦ (t.feature, t.stage.priority)
  ahead : ∀ i j v, ReadsAhead stages i j v → ∃ k ≤ i, Produces stages k v
  alone : ∀ v, (∀ j k, Produces stages j v → Produces stages k v → j = k) →
    ∀ i j, ¬ReadsAhead stages i j v

/-- A levy is added to the fee after the fee was distributed. -/
def levied : Catalog :=
  ⟨[Tax.feature, Reflection.feature,
    { id := "levy", kind := .tax, hooks := [.transfer]
      transferStage := some ⟨400, [.feeAmount], []⟩ }]⟩

def leviedToken : Spec :=
  { guardedTax with
    features := Dict.ofList (levied.features.map fun f ↦ (f.id, ⟨true, .empty⟩)) }

theorem exists_produces_of_ahead {stages : List Staged} (h : ∀ i j v, ¬Early stages i j v)
    {i j : Nat} {v : SharedValue} (hr : ReadsAhead stages i j v) :
    ∃ k ≤ i, Produces stages k v := by
  rcases supplied_of_not_early h hr.consumes with hnone | hsome
  · exact absurd hr.produces (hnone j)
  · exact hsome

namespace Plan

theorem Follows.not_early {p : Plan} {c : Catalog} {s : Spec} (hp : p.Follows c s) (i j : Nat)
    (v : SharedValue) : ¬Early (stagesOf (c.enabled s)) i j v :=
  orderDefect?_eq_none_iff.mp (planTransfer_eq_ok_iff.mp hp.transfer).2.1 i j v

/-- A plan was checked against the first stage that hands on a value, and against no other. -/
theorem supplied_of_plan {p : Plan} {c : Catalog} {s : Spec} (h : c.plan s = .ok p) :
    p.Supplied c s (stagesOf (c.enabled s)) := by
  have hp := follows_of_plan h
  refine {
    ordered := inOrder_stagesOf (c.enabled s)
    layout := ?_
    ahead := fun i j v hr ↦ exists_produces_of_ahead hp.not_early hr
    alone := fun v hv i j hr ↦ ?_ }
  · rw [hp.transfer_eq]
    exact elim_transferOf _ _
  · obtain ⟨k, hk, hprod⟩ := exists_produces_of_ahead hp.not_early hr
    rw [hv k j hprod hr.produces] at hk
    exact absurd hr.later (Nat.not_lt_of_le hk)

section Sorted

variable {c : Catalog} {s : Spec} (henabled : c.enabled s = c.features)
  (hsorted : (staged c.features).Pairwise fun t u ↦ t.stage.priority ≤ u.stage.priority)

include henabled hsorted

theorem stagesOf_of_sorted : stagesOf (c.enabled s) = staged c.features := by
  rw [henabled]
  exact List.mergeSort_of_pairwise (hsorted.imp decide_eq_true)

theorem exists_plan_of_sorted (hknown : c.checkKnown s = .ok ())
    (htangled : tangledFeatures (staged c.features) = [])
    (horder : orderDefect? (staged c.features) = none)
    (hscope : scopeOf (c.plannedFeatures s) = .ok none)
    (hsetters : (planSetters (c.resolved s) none).toOption.any fun _ ↦ true) :
    ∃ p, c.plan s = .ok p := by
  obtain ⟨setters, hsetters, -⟩ := Results.exists_ok_of_any hsetters
  rw [← stagesOf_of_sorted henabled hsorted] at htangled horder
  exact ⟨_, exists_plan hknown (planTransfer_eq_ok_iff.mpr ⟨htangled, horder, rfl⟩) hscope hsetters⟩

end Sorted

theorem enabled_levied : levied.enabled leviedToken = levied.features :=
  List.filter_eq_self.mpr (by decide +kernel)

theorem exists_plan_levied : ∃ p, levied.plan leviedToken = .ok p :=
  exists_plan_of_sorted enabled_levied (by decide +kernel) rfl (by decide +kernel)
    (by decide +kernel) (by decide +kernel) (by decide +kernel)

theorem exists_supplied_levied : ∃ p, levied.plan leviedToken = .ok p ∧
    p.Supplied levied leviedToken (stagesOf (levied.enabled leviedToken)) := by
  obtain ⟨p, hp⟩ := exists_plan_levied
  exact ⟨p, hp, supplied_of_plan hp⟩

theorem readsAhead_levied : levied.verify = .ok () ∧
    (∃ p, levied.plan leviedToken = .ok p) ∧
      ReadsAhead (stagesOf (levied.enabled leviedToken)) 1 2 .feeAmount := by
  refine ⟨Catalog.verify_of_defect? (by decide +kernel), exists_plan_levied, ?_⟩
  rw [stagesOf_of_sorted enabled_levied (by decide +kernel)]
  exact ⟨⟨_, rfl, by decide⟩, ⟨_, rfl, by decide⟩, by decide⟩

end Plan

end TokenContract
