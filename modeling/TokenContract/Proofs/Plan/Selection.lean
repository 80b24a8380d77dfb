import TokenContract.Plan.Composition
import TokenContract.Proofs.Catalog.Soundness
import TokenContract.Proofs.Results

namespace TokenContract

open Results

/-- Whether a feature is present and enabled. -/
def Spec.enables (s : Spec) (f : Feature) : Bool :=
  (s.selection? f.id).isSome

namespace Catalog

variable (c : Catalog) (s : Spec)

def enabled : List Feature :=
  c.features.filter s.enables

def resolved : List (Feature × Resolved) :=
  (c.selected s).map fun (f, selection) ↦ (f, Resolved.ofSelection f selection)

theorem mem_selected_iff {c : Catalog} {s : Spec} {f : Feature} {selection : Selection} :
    (f, selection) ∈ c.selected s ↔ f ∈ c.features ∧ s.selection? f.id = some selection := by
  simp only [selected, List.mem_filterMap, Option.map_eq_some_iff, Prod.mk.injEq]
  constructor
  · intro hx
    obtain ⟨f, hf, t, ht, rfl, rfl⟩ := hx
    exact ⟨hf, ht⟩
  · intro hx
    obtain ⟨hf, ht⟩ := hx
    exact ⟨f, hf, selection, ht, rfl, rfl⟩

theorem map_fst_selected : (c.selected s).map Prod.fst = c.enabled s := by
  unfold selected enabled
  induction c.features with
  | nil => rfl
  | cons f fs ih =>
    cases h : s.selection? f.id with
    | none => simp [Spec.enables, h, ih]
    | some t => simp [Spec.enables, h, ih]

theorem map_fst_resolved : (c.resolved s).map Prod.fst = c.enabled s := by
  rw [← map_fst_selected, resolved, List.map_map]
  rfl

theorem resolved_eq_filterMap : c.resolved s = c.features.filterMap fun f ↦
    ((s.selection? f.id).map (Resolved.ofSelection f)).map (f, ·) := by
  rw [resolved, selected, List.map_filterMap]
  refine List.filterMap_congr fun f _ ↦ ?_
  rw [Option.map_map, Option.map_map]
  rfl

theorem mem_enabled_iff {c : Catalog} {s : Spec} {f : Feature} :
    f ∈ c.enabled s ↔ f ∈ c.features ∧ s.enables f := by
  simp [enabled]

theorem mem_resolved_iff {c : Catalog} {s : Spec} {f : Feature} {r : Resolved} :
    (f, r) ∈ c.resolved s ↔ f ∈ c.features ∧
      ∃ selection, s.selection? f.id = some selection ∧ r = Resolved.ofSelection f selection := by
  simp only [resolved, List.mem_map, Prod.exists, Prod.mk.injEq, mem_selected_iff]
  constructor
  · intro hx
    obtain ⟨f, t, ⟨hf, ht⟩, rfl, rfl⟩ := hx
    exact ⟨hf, t, ht, rfl⟩
  · intro hx
    obtain ⟨hf, t, ht, rfl⟩ := hx
    exact ⟨f, t, ⟨hf, ht⟩, rfl, rfl⟩

theorem Sound.nodup_enabled {c : Catalog} (hc : c.Sound) (s : Spec) :
    ((c.enabled s).map (·.id)).Nodup :=
  hc.distinct.sublist (List.filter_sublist.map _)

theorem zip_enabled_resolved :
    (c.enabled s).zip ((c.resolved s).map Prod.snd) = c.resolved s := by
  rw [← map_fst_resolved, List.zip_map']
  exact List.map_id _

def plannedFeature (f : Feature) (r : Resolved) : PlannedFeature :=
  ⟨f.id, f.kind, r⟩

def plannedFeatures : List PlannedFeature :=
  (c.resolved s).map fun (f, r) ↦ plannedFeature f r

def planOf (transfer : Option Transfer) (scope : Option Scope) (setters : List Binding) : Plan where
  features := c.plannedFeatures s
  hooks h :=
    match contributorsAt (c.enabled s) (ownerOf? (c.enabled s)) transfer setters h with
    | [] => none
    | cs => some cs
  capabilities := ownerOf? (c.enabled s)
  transfer := transfer
  setters := setters
  scope := scope

theorem plan_eq : c.plan s = (do
    c.checkKnown s
    let transfer ← planTransfer (c.enabled s) (ownerOf? (c.enabled s) .swapRouter).isSome
    let scope ← scopeOf (c.plannedFeatures s)
    let setters ← planSetters (c.resolved s) scope
    return c.planOf s transfer scope setters) := by
  have hfeatures : (c.selected s).map (fun (f, t) ↦ plannedFeature f (.ofSelection f t)) =
      c.plannedFeatures s := by
    simp only [plannedFeatures, resolved, List.map_map, Function.comp_def]
  have hparameters : (c.plannedFeatures s).map (·.parameters) = (c.resolved s).map Prod.snd := by
    simp only [plannedFeatures, List.map_map, Function.comp_def, plannedFeature]
  have hzip := c.zip_enabled_resolved s
  rw [← hparameters] at hzip
  simp only [plannedFeature] at hfeatures
  simp only [plan, map_fst_selected, hfeatures, hzip]
  rfl

end Catalog

namespace Plan

/-- The contributors of a hook, none if it is not there. -/
def contributors (p : Plan) (h : Hook) : List Contributor :=
  (p.hooks h).getD []

/-- How a plan follows from the enabled features. -/
structure Follows (p : Plan) (c : Catalog) (s : Spec) : Prop where
  known : c.checkKnown s = .ok ()
  features : p.features = c.plannedFeatures s
  capabilities : p.capabilities = ownerOf? (c.enabled s)
  transfer : planTransfer (c.enabled s) (p.hasCapability .swapRouter) = .ok p.transfer
  scope : scopeOf p.features = .ok p.scope
  setters : planSetters (c.resolved s) p.scope = .ok p.setters
  contributors : ∀ h,
    p.contributors h = contributorsAt (c.enabled s) p.capabilities p.transfer p.setters h
  hooks : ∀ h, p.hooks h ≠ some []

theorem follows_of_plan {c : Catalog} {s : Spec} {p : Plan} (h : c.plan s = .ok p) :
    p.Follows c s := by
  rw [Catalog.plan_eq] at h
  obtain ⟨⟨⟩, hknown, h⟩ := bind_eq_ok_iff.mp h
  obtain ⟨transfer, htransfer, h⟩ := bind_eq_ok_iff.mp h
  obtain ⟨scope, hscope, h⟩ := bind_eq_ok_iff.mp h
  obtain ⟨setters, hsetters, h⟩ := bind_eq_ok_iff.mp h
  cases h
  refine ⟨hknown, rfl, rfl, htransfer, hscope, hsetters, fun h ↦ ?_, fun h ↦ ?_⟩
  · simp only [Plan.contributors, Catalog.planOf]
    split
    · rename_i hnil
      simp [hnil]
    · rfl
  · simp only [Catalog.planOf]
    split
    · simp
    · rename_i hne
      simpa using hne

theorem exists_plan {c : Catalog} {s : Spec} {transfer : Option Transfer} {scope : Option Scope}
    {setters : List Binding} (hknown : c.checkKnown s = .ok ())
    (htransfer : planTransfer (c.enabled s) (ownerOf? (c.enabled s) .swapRouter).isSome =
      .ok transfer)
    (hscope : scopeOf (c.plannedFeatures s) = .ok scope)
    (hsetters : planSetters (c.resolved s) scope = .ok setters) :
    c.plan s = .ok (c.planOf s transfer scope setters) := by
  rw [Catalog.plan_eq, hknown, htransfer]
  simp only [bind, Except.bind, hscope, hsetters]
  rfl

end Plan

end TokenContract
