import TokenContract.Proofs.Plan.Supply
import TokenContract.Proofs.Source.Completeness
import Mathlib.Data.List.Nodup

namespace TokenContract

def Mentions (stages : List Staged) (i : Nat) (v : SharedValue) : Prop :=
  Produces stages i v ∨ Consumes stages i v

/-- No two stages mention one name with different types. -/
def OneType (stages : List Staged) : Prop :=
  ∀ i j v w, Mentions stages i v → Mentions stages j w → v.name = w.name →
    v.solidityType = w.solidityType

namespace Plan

def sharedValues (p : Plan) : List SharedValue :=
  p.transfer.elim [] (·.sharedValues)

def zeroSeeded (p : Plan) : List SharedValue :=
  p.transfer.elim [] (·.zeroSeeded)

/-- What the transfer of a plan declares, and whence its stages have what they take up. -/
structure Declares (p : Plan) (stages : List Staged) : Prop where
  frame : p.frame.declarations = p.sharedValues.map SharedValue.declaration
  mentioned : ∀ v, v ∈ p.sharedValues ↔ ∃ i, Mentions stages i v
  distinct : p.sharedValues.Nodup
  names : (p.sharedValues.map (·.name)).Nodup ↔ OneType stages
  zero : ∀ v, v ∈ p.zeroSeeded ↔ (∃ i, Consumes stages i v) ∧ ∀ j, ¬Produces stages j v
  supplied : ∀ i v, Consumes stages i v → v ∈ p.zeroSeeded ∨ ∃ k ≤ i, Produces stages k v
  typed : OneType stages → ∀ i j v w, Consumes stages i v → Produces stages j w → v.name = w.name →
    v = w ∧ ∃ k ≤ i, Produces stages k v

end Plan

section Stages

variable {stages : List Staged} {v : SharedValue}

theorem OneType.eq (h : OneType stages) {i j : Nat} {w : SharedValue} (hv : Mentions stages i v)
    (hw : Mentions stages j w) (hname : v.name = w.name) : v = w := by
  have htype := h i j v w hv hw hname
  cases v
  cases w
  exact congr (congrArg SharedValue.mk hname) htype

theorem mem_sharedValuesOf_iff_mentions : v ∈ sharedValuesOf stages ↔ ∃ i, Mentions stages i v :=
  List.mem_eraseDups.trans mem_uses_iff

theorem nodup_sharedValuesOf (stages : List Staged) : (sharedValuesOf stages).Nodup :=
  Positions.nodup_eraseDups _

theorem nodup_names_sharedValuesOf_iff :
    ((sharedValuesOf stages).map (·.name)).Nodup ↔ OneType stages := by
  rw [List.nodup_map_iff_inj_on (nodup_sharedValuesOf stages)]
  simp only [mem_sharedValuesOf_iff_mentions]
  constructor
  · intro h i j v w hv hw hname
    rw [h v ⟨i, hv⟩ w ⟨j, hw⟩ hname]
  · intro h v hv w hw hname
    obtain ⟨i, hv⟩ := hv
    obtain ⟨j, hw⟩ := hw
    exact h.eq hv hw hname

end Stages

namespace Plan

section Planned

variable {p : Plan} {c : Catalog} {s : Spec}

theorem Follows.sharedValues_eq (hp : p.Follows c s) :
    p.sharedValues = sharedValuesOf (stagesOf (c.enabled s)) := by
  rw [sharedValues, hp.transfer_eq]
  cases stagesOf (c.enabled s) with
  | nil => rfl
  | cons st stages => rfl

theorem Follows.zeroSeeded_eq (hp : p.Follows c s) :
    p.zeroSeeded = zeroSeededOf (stagesOf (c.enabled s)) := by
  rw [zeroSeeded, hp.transfer_eq]
  cases stagesOf (c.enabled s) with
  | nil => rfl
  | cons st stages => rfl

theorem declares_of_plan (h : c.plan s = .ok p) : p.Declares (stagesOf (c.enabled s)) := by
  have hp := follows_of_plan h
  refine {
    frame := by rw [hp.declarations_eq, hp.sharedValues_eq]
    mentioned := fun v ↦ by rw [hp.sharedValues_eq, mem_sharedValuesOf_iff_mentions]
    distinct := by rw [hp.sharedValues_eq]; exact nodup_sharedValuesOf _
    names := by rw [hp.sharedValues_eq, nodup_names_sharedValuesOf_iff]
    zero := fun v ↦ by rw [hp.zeroSeeded_eq, mem_zeroSeededOf_iff]
    supplied := fun i v hc ↦ ?_
    typed := fun hone i j v w hc hprod hname ↦ ?_ }
  · refine (supplied_of_not_early hp.not_early hc).imp_left fun hnone ↦ ?_
    rw [hp.zeroSeeded_eq, mem_zeroSeededOf_iff]
    exact ⟨⟨i, hc⟩, hnone⟩
  · obtain rfl := OneType.eq hone (.inr hc) (.inl hprod) hname
    exact ⟨rfl, (supplied_of_not_early hp.not_early hc).resolve_left fun hnone ↦ hnone j hprod⟩

theorem exists_declares_levied : ∃ p, levied.plan leviedToken = .ok p ∧
    p.Declares (stagesOf (levied.enabled leviedToken)) := by
  obtain ⟨p, hp⟩ := exists_plan_levied
  exact ⟨p, hp, declares_of_plan hp⟩

end Planned

/-- The tax hands its fee on in fewer bits than the reflection takes it up. -/
def retyped : Catalog :=
  ⟨[{ Tax.feature with transferStage := some ⟨200, [⟨"feeAmount", "uint128"⟩], []⟩ },
    Reflection.feature]⟩

def retypedToken : Spec :=
  { guardedTax with
    features := Dict.ofList (retyped.features.map fun f ↦ (f.id, ⟨true, .empty⟩)) }

theorem enabled_retyped : retyped.enabled retypedToken = retyped.features :=
  List.filter_eq_self.mpr (by decide +kernel)

theorem exists_plan_retyped : ∃ p, retyped.plan retypedToken = .ok p :=
  exists_plan_of_sorted enabled_retyped (by decide +kernel) rfl (by decide +kernel)
    (by decide +kernel) (by decide +kernel) (by decide +kernel)

/-- The name of the fee is declared with both types, and what the reflection takes up stays zero though
the tax comes before. -/
theorem declared_twice_retyped : retyped.verify = .ok () ∧
    ∃ p, retyped.plan retypedToken = .ok p ∧
      p.frame.declarations = ["uint128 feeAmount;", "uint256 feeAmount;"] ∧
      p.zeroSeeded = [⟨"feeAmount", "uint256"⟩] ∧
      Produces (stagesOf (retyped.enabled retypedToken)) 0 ⟨"feeAmount", "uint128"⟩ ∧
      Consumes (stagesOf (retyped.enabled retypedToken)) 1 ⟨"feeAmount", "uint256"⟩ := by
  obtain ⟨p, hp⟩ := exists_plan_retyped
  have hfollows := follows_of_plan hp
  refine ⟨Catalog.verify_of_defect? (by decide +kernel), p, hp, ?_⟩
  rw [hfollows.declarations_eq, hfollows.zeroSeeded_eq,
    stagesOf_of_sorted enabled_retyped (by decide +kernel)]
  exact ⟨by decide +kernel, by decide +kernel, ⟨_, rfl, by decide⟩, ⟨_, rfl, by decide⟩⟩

end Plan

end TokenContract
