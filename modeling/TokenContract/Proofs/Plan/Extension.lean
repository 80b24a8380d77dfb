import TokenContract.Proofs.Generation.Regular

namespace TokenContract

open Grouped

/-- `t` enables one feature that `s` does not, and nothing else differs. -/
structure Spec.Gains (s t : Spec) (id : FeatureId) : Prop where
  name : s.name = t.name
  symbol : s.symbol = t.symbol
  totalSupply : s.totalSupply = t.totalSupply
  decimals : s.decimals = t.decimals
  others : ∀ k, k ≠ id → s.features.find? k = t.features.find? k
  off : s.selection? id = none
  on : (t.selection? id).isSome

namespace Plan

def stages (p : Plan) : List (FeatureId × Nat) :=
  p.transfer.elim [] (·.stages)

def featuresAt (p : Plan) (h : Hook) : List FeatureId :=
  (p.contributors h).filterMap Contributor.own?

/-- The setters of all features but one. -/
def settersBut (p : Plan) (id : FeatureId) : List Binding :=
  p.setters.filter fun b ↦ b.contributor.own?.any (· != id)

/-- `q` is `p` with one feature more. -/
structure Extends (p q : Plan) (id : FeatureId) : Prop where
  enabled : p.enabled = q.enabled.filter (· != id)
  features : ∀ h, p.featuresAt h = (q.featuresAt h).filter (· != id)
  stages : p.stages = q.stages.filter (·.1 != id)
  capabilities : ∀ cap, p.hasCapability cap → q.hasCapability cap
  setters : (p.settersBut id).map (fun b ↦ (b.contributor, b.name)) =
    (q.settersBut id).map fun b ↦ (b.contributor, b.name)
  timelocked : id ≠ Scope.featureId → p.settersBut id = q.settersBut id

end Plan

def Spec.choose (s : Spec) (id : FeatureId) (selection : Selection) : Spec :=
  { s with features := s.features.insert id selection }

namespace Spec

theorem gains_choose {s : Spec} {id : FeatureId} (h : s.selection? id = none)
    (parameters : Dict Value) : s.Gains (s.choose id ⟨true, parameters⟩) id where
  name := rfl
  symbol := rfl
  totalSupply := rfl
  decimals := rfl
  others k hk := by rw [choose, Dict.find?_insert, if_neg hk.symm]
  off := h
  on := by rw [selection?, choose, Dict.find?_insert, if_pos rfl]; rfl

end Spec

namespace Spec.Gains

variable {s t : Spec} {id : FeatureId} (h : s.Gains t id)

include h

theorem selection?_eq {k : FeatureId} (hk : k ≠ id) : s.selection? k = t.selection? k := by
  rw [selection?, selection?, h.others k hk]

theorem enables_eq (f : Feature) : s.enables f = (t.enables f && f.id != id) := by
  by_cases hf : f.id = id
  · simp [enables, hf, h.off]
  · simp [enables, hf, h.selection?_eq hf]

theorem enabled_eq (c : Catalog) : c.enabled s = (c.enabled t).filter (·.id != id) := by
  rw [Catalog.enabled, Catalog.enabled, List.filter_filter]
  refine List.filter_congr fun f _ ↦ ?_
  rw [h.enables_eq, Bool.and_comm]

theorem resolved_eq (c : Catalog) : c.resolved s = (c.resolved t).filter (·.1.id != id) := by
  rw [Catalog.resolved_eq_filterMap, Catalog.resolved_eq_filterMap, List.filter_filterMap]
  refine List.filterMap_congr fun f _ ↦ ?_
  by_cases hf : f.id = id
  · simp [hf, h.off, Option.filter_map, Function.comp_def]
  · rw [h.selection?_eq hf]
    cases t.selection? f.id with
    | none => rfl
    | some selection => simp [Option.filter, hf]

theorem bindings_eq (c : Catalog) :
    ((c.resolved s).filter (·.1.id != id)).flatMap (fun (f, r) ↦ f.bindings r) =
      ((c.resolved t).filter (·.1.id != id)).flatMap fun (f, r) ↦ f.bindings r := by
  rw [h.resolved_eq, List.filter_filter]
  simp only [Bool.and_self]

theorem plannedFeatures_eq (c : Catalog) :
    c.plannedFeatures s = (c.plannedFeatures t).filter (·.id != id) := by
  rw [Catalog.plannedFeatures, Catalog.plannedFeatures, h.resolved_eq, List.filter_map]
  rfl

end Spec.Gains

namespace Plan

variable {p q : Plan} {c : Catalog} {s t : Spec} {id : FeatureId}

theorem Follows.stages_eq (hp : p.Follows c s) :
    p.stages = (stagesOf (c.enabled s)).map fun st ↦ (st.feature, st.stage.priority) := by
  rw [stages, hp.transfer_eq, elim_transferOf]

theorem Follows.featuresAt_transfer (hp : p.Follows c s) :
    p.featuresAt .transfer = p.stages.map Prod.fst := by
  rw [featuresAt, hp.contributors_transfer, List.filterMap_map]
  exact congrFun List.filterMap_eq_map _

theorem Follows.featuresAt_admin (hp : p.Follows c s) (hc : c.Sound) :
    p.featuresAt .admin =
      ((c.resolved s).filter fun fr ↦ !(fr.1.bindings fr.2).isEmpty).map (·.1.id) := by
  rw [featuresAt, (arranged_admin hc hp).filterMap_own?, List.map_map]
  rfl

theorem Follows.featuresAt_plain (hp : p.Follows c s) (hc : c.Sound) {h : Hook}
    (ht : h ≠ .transfer) (ha : h ≠ .admin) :
    p.featuresAt h = ((c.enabled s).filter (·.contributesTo h)).map (·.id) :=
  (arranged_of_plain hc hp ht ha).filterMap_own?

theorem Follows.settersBut_eq (hp : p.Follows c s) (id : FeatureId) : p.settersBut id =
    (((c.resolved s).filter (·.1.id != id)).flatMap fun (f, r) ↦ f.bindings r).map
      (Binding.wait p.scope) := by
  have hinherited : (inheritedBindings p.scope).filter
      (fun b ↦ b.contributor.own?.any (· != id)) = [] := by
    refine List.filter_eq_nil_iff.mpr fun b hb ↦ ?_
    rw [contributor_of_mem_inherited hb]
    simp [Contributor.own?]
  have hfeatures : ((c.resolved s).flatMap fun (f, r) ↦ f.bindings r).filter
      (fun b ↦ b.contributor.own?.any (· != id)) =
        ((c.resolved s).filter (·.1.id != id)).flatMap fun (f, r) ↦ f.bindings r := by
    refine filter_flatMap fun fr _ b hb ↦ ?_
    rw [contributor_of_mem_bindings hb]
    rfl
  rw [settersBut, hp.setters_eq, flatMap_setterGroups, List.filter_map]
  simp only [Function.comp_def, Binding.contributor_wait]
  rw [unlockedBindings, List.filter_append, hinherited, List.append_nil, hfeatures]

section Gains

variable (hp : p.Follows c s) (hq : q.Follows c t) (h : s.Gains t id)

include hp hq h

theorem scope_eq_of_gains (hid : id ≠ Scope.featureId) : p.scope = q.scope := by
  have hfind : p.features.find? (·.id == Scope.featureId) =
      q.features.find? (·.id == Scope.featureId) := by
    rw [hp.features, hq.features, h.plannedFeatures_eq, List.find?_filter]
    congr 1
    funext f
    by_cases hf : f.id = Scope.featureId
    · simp [hf, hid.symm]
    · simp [hf]
  have hscope : scopeOf p.features = scopeOf q.features := by
    rw [scopeOf, scopeOf, hfind]
  rw [hp.scope, hq.scope] at hscope
  exact Except.ok.inj hscope

theorem stages_eq_of_gains : p.stages = q.stages.filter (·.1 != id) := by
  rw [hp.stages_eq, hq.stages_eq, h.enabled_eq, stagesOf_filter, List.filter_map]
  rfl

theorem featuresAt_eq_of_gains (hc : c.Sound) (hook : Hook) :
    p.featuresAt hook = (q.featuresAt hook).filter (· != id) := by
  by_cases ht : hook = .transfer
  · subst ht
    rw [hp.featuresAt_transfer, hq.featuresAt_transfer, stages_eq_of_gains hp hq h, List.filter_map]
    rfl
  · by_cases ha : hook = .admin
    · subst ha
      rw [hp.featuresAt_admin hc, hq.featuresAt_admin hc, h.resolved_eq, List.filter_map,
        List.filter_comm]
      rfl
    · rw [hp.featuresAt_plain hc ht ha, hq.featuresAt_plain hc ht ha, h.enabled_eq, List.filter_map,
        List.filter_comm]
      rfl

theorem hasCapability_of_gains {cap : Capability} (hcap : p.hasCapability cap) :
    q.hasCapability cap := by
  rw [hasCapability, hp.capabilities, isSome_ownerOf?_iff] at hcap
  obtain ⟨f, hf, hs, hneeds⟩ := hcap
  rw [h.enables_eq, Bool.and_eq_true] at hs
  rw [hasCapability, hq.capabilities]
  exact isSome_ownerOf?_iff.mpr ⟨f, hf, hs.1, hneeds⟩

theorem extends_of_gains (hc : c.Sound) : p.Extends q id where
  enabled := by
    rw [enabled, enabled, hp.features, hq.features, h.plannedFeatures_eq, List.filter_map]
    rfl
  features := featuresAt_eq_of_gains hp hq h hc
  stages := stages_eq_of_gains hp hq h
  capabilities _ := hasCapability_of_gains hp hq h
  setters := by
    rw [hp.settersBut_eq, hq.settersBut_eq, h.bindings_eq, List.map_map, List.map_map]
    rfl
  timelocked hid := by
    rw [hp.settersBut_eq, hq.settersBut_eq, h.bindings_eq,
      scope_eq_of_gains hp hq h hid]

end Gains

/-- Planned for one feature more, the other features stay as they were. -/
theorem extends_of_plan (hc : c.verify = .ok ()) (h : s.Gains t id) (hp : c.plan s = .ok p)
    (hq : c.plan t = .ok q) : p.Extends q id :=
  extends_of_gains (follows_of_plan hp) (follows_of_plan hq) h (Catalog.verify_eq_ok_iff.mp hc)

theorem exists_extends_guardedTax : Catalog.standard.verify = .ok () ∧
    guardedTax.Gains (guardedTax.choose Antibot.feature.id ⟨true, .empty⟩) Antibot.feature.id ∧
    ∃ p q, Catalog.standard.plan guardedTax = .ok p ∧
      Catalog.standard.plan (guardedTax.choose Antibot.feature.id ⟨true, .empty⟩) = .ok q ∧
      p.Extends q Antibot.feature.id := by
  have hgains : guardedTax.Gains (guardedTax.choose Antibot.feature.id ⟨true, .empty⟩) Antibot.feature.id :=
    Spec.gains_choose (by decide +kernel) _
  have hplanned (s : Spec) (hknown : Catalog.standard.checkKnown s = .ok ())
      (hscope : (scopeOf (Catalog.standard.plannedFeatures s)).toOption.any fun scope ↦
        (planSetters (Catalog.standard.resolved s) scope).toOption.any fun _ ↦ true) :
      ∃ p, Catalog.standard.plan s = .ok p := by
    obtain ⟨scope, hscope, hsetters⟩ := Results.exists_ok_of_any hscope
    obtain ⟨setters, hsetters, -⟩ := Results.exists_ok_of_any hsetters
    have hforward := Catalog.regular_standard.forward_stagesOf s
    exact ⟨_, exists_plan hknown (hforward.planTransfer_eq _) hscope hsetters⟩
  obtain ⟨p, hp⟩ := hplanned guardedTax rfl (by decide +kernel)
  obtain ⟨q, hq⟩ := hplanned (guardedTax.choose Antibot.feature.id ⟨true, .empty⟩) rfl (by decide +kernel)
  exact ⟨Catalog.verify_standard, hgains, p, q, hp, hq,
    extends_of_plan Catalog.verify_standard hgains hp hq⟩

end Plan

end TokenContract
