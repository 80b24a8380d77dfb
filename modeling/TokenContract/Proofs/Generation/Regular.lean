import TokenContract.Proofs.Source.Agreement
import Mathlib.Data.List.Flatten

namespace TokenContract

open Grouped Results

/-- A catalog of features that are written as declared and do not get in each other's way. -/
structure Catalog.Regular (c : Catalog) : Prop where
  sound : c.Sound
  kinds : ∀ f ∈ c.features, f.kind.feature = f
  defaults : ∀ f ∈ c.features, ∀ p ∈ f.parameters, p.admits p.default
  forward : ∀ f ∈ c.features, ∀ g ∈ c.features, ∀ s ∈ f.transferStage.toList,
    ∀ t ∈ g.transferStage.toList, ∀ v ∈ s.produces, v ∈ t.consumes → s.priority < t.priority
  setters : (c.features.flatMap (fun f ↦ f.setters.map (·.name)) ++ inheritedNames).Nodup

theorem Catalog.regular_standard : standard.Regular where
  sound := verify_eq_ok_iff.mp verify_standard
  kinds := by
    intro f hf
    simp only [standard, List.mem_cons, List.not_mem_nil, or_false] at hf
    rcases hf with rfl | rfl | rfl | rfl | rfl
    · rfl
    · rfl
    · rfl
    · rfl
    · rfl
  defaults := by decide +kernel
  forward := by decide +kernel
  setters := by decide +kernel

theorem Resolved.Conforms.flagsRead {f : Feature} {r : Resolved} (h : r.Conforms f)
    (hf : f.Sound) : f.FlagsRead r := by
  intro d hd
  rw [SetterDeclaration.applies]
  cases hflag : d.requiresFlag with
  | none => exact ⟨true, rfl⟩
  | some flag =>
    exact h.exists_boolean (Feature.exists_of_isBooleanParameter (hf.flags d hd flag hflag))

theorem FeatureKind.names_setters {k : FeatureKind} {r : Resolved}
    (h : k.feature.FlagsRead r) :
    (k.setters r).map (·.name) = (k.feature.bindings r).map (·.name) := by
  cases k with
  | tax | reflection | autoLiquidity | timelock => rfl
  | antibot =>
    -- The blacklist is the one part whose setter depends on a parameter.
    obtain ⟨b, hb⟩ : ∃ b, r.boolean "enableBlacklist" = .ok b :=
      h ⟨"setBlacklist", some "enableBlacklist"⟩ (by decide)
    simp only [FeatureKind.setters, Feature.bindings, FeatureKind.feature, Antibot.feature,
      List.filter_cons, SetterDeclaration.applies, hb]
    cases b with
    | false => rfl
    | true => rfl

theorem FeatureKind.eq_timelock {k : FeatureKind} (h : k.feature.id = Scope.featureId) :
    k = .timelock := by
  revert h
  cases k with
  | tax | antibot | reflection | autoLiquidity => decide +kernel
  | timelock => exact fun _ ↦ rfl

theorem names_bindings_sublist (f : Feature) (r : Resolved) :
    ((f.bindings r).map (·.name)).Sublist (f.setters.map (·.name)) := by
  rw [Feature.bindings, List.map_map]
  exact List.filter_sublist.map _

theorem names_inheritedBindings_sublist (scope : Option Scope) :
    ((inheritedBindings scope).map (·.name)).Sublist inheritedNames := by
  rw [inheritedBindings, List.map_map]
  exact (List.map_id _).symm ▸ List.filter_sublist

namespace Catalog.Regular

variable {c : Catalog} {s : Spec} (hc : c.Regular)

include hc

theorem forward_stagesOf (s : Spec) : Forward (stagesOf (c.enabled s)) := by
  intro a ha b hb v hv hu
  obtain ⟨f, hf, -, hfa⟩ := mem_stagesOf_iff.mp ha
  obtain ⟨g, hg, -, hgb⟩ := mem_stagesOf_iff.mp hb
  exact hc.forward f (mem_enabled_iff.mp hf).1 g (mem_enabled_iff.mp hg).1 a.stage
    (Option.mem_toList.mpr hfa) b.stage (Option.mem_toList.mpr hgb) v hv hu

theorem nodup_names (s : Spec) (scope : Option Scope) :
    ((unlockedBindings (c.resolved s) scope).map (·.name)).Nodup := by
  have henabled : (c.resolved s).flatMap (fun fr ↦ fr.1.setters.map (·.name)) =
      (c.enabled s).flatMap fun f ↦ f.setters.map (·.name) := by
    rw [← map_fst_resolved, List.flatMap_map]
  have hfeatures : ((c.resolved s).flatMap fun fr ↦ (fr.1.bindings fr.2).map (·.name)).Sublist
      (c.features.flatMap fun f ↦ f.setters.map (·.name)) := by
    refine (List.Sublist.flatMap_right _ fun fr _ ↦ names_bindings_sublist fr.1 fr.2).trans ?_
    rw [henabled]
    exact List.filter_sublist.flatMap _
  refine hc.setters.sublist ?_
  rw [unlockedBindings, List.map_append, List.map_flatMap]
  exact hfeatures.append (names_inheritedBindings_sublist scope)

section Valid

variable (hs : c.violations s = [])

include hs

theorem conforms {f : Feature} {r : Resolved} (hf : (f, r) ∈ c.resolved s) : r.Conforms f := by
  obtain ⟨hcat, selection, hselection, rfl⟩ := mem_resolved_iff.mp hf
  exact Resolved.conforms_ofSelection (hc.sound.features f hcat).distinct (hc.defaults f hcat)
    ((violations_eq_nil_iff.mp hs).2 f hcat selection hselection)

theorem flagsRead : ∀ fr ∈ c.resolved s, fr.1.FlagsRead fr.2 := by
  intro fr hfr
  have hcat := (mem_resolved_iff.mp hfr).1
  exact (hc.conforms hs hfr).flagsRead (hc.sound.features fr.1 hcat)

theorem exists_scope : ∃ scope, scopeOf (c.plannedFeatures s) = .ok scope := by
  unfold scopeOf
  split
  · exact ⟨none, rfl⟩
  · rename_i f hf
    have hid : f.id = Scope.featureId := by simpa using List.find?_some hf
    obtain ⟨⟨g, r⟩, hg, rfl⟩ := List.mem_map.mp (List.mem_of_find?_eq_some hf)
    change g.id = Scope.featureId at hid
    have hkind := hc.kinds g (mem_resolved_iff.mp hg).1
    have hconforms := hc.conforms hs hg
    rw [← hkind] at hid hconforms
    rw [FeatureKind.eq_timelock hid] at hconforms
    obtain ⟨name, hname, htext⟩ : ∃ name ∈ Scope.options.map Scope.name,
        r.text Scope.parameterId = .ok name := hconforms.exists_choice (by decide +kernel)
    obtain ⟨scope, -, rfl⟩ := List.mem_map.mp hname
    refine ⟨some scope, ?_⟩
    simp only [plannedFeature, htext, bind, Except.bind, Scope.ofName?_name]
    rfl

theorem exists_setters (scope : Option Scope) :
    ∃ setters, planSetters (c.resolved s) scope = .ok setters :=
  ⟨_, planSetters_eq_ok_iff.mpr ⟨hc.flagsRead hs, hc.nodup_names s scope, rfl⟩⟩

theorem exists_plan (hknown : c.checkKnown s = .ok ()) : ∃ p, c.plan s = .ok p := by
  obtain ⟨scope, hscope⟩ := hc.exists_scope hs
  obtain ⟨setters, hsetters⟩ := hc.exists_setters hs scope
  exact ⟨_, Plan.exists_plan hknown ((hc.forward_stagesOf s).planTransfer_eq _) hscope hsetters⟩

theorem agrees {p : Plan} (hp : p.Follows c s) {f : Feature} {r : Resolved}
    (hf : (f, r) ∈ c.resolved s) {e : Environment} {o : Output} (ho : f.kind.output r e = .ok o) :
    p.Agrees f o := by
  have hkind := hc.kinds f (mem_resolved_iff.mp hf).1
  have hof := FeatureKind.ofKind_of_output ho
  have hread : f.kind.feature.FlagsRead r := hkind.symm ▸ hc.flagsRead hs _ hf
  have hgroup : (.feature f.id, (f.bindings r).map (Binding.wait p.scope)) ∈
      setterGroups (c.resolved s) p.scope :=
    List.mem_append_left _ (List.mem_map.mpr ⟨(f, r), hf, rfl⟩)
  have hbound : p.settersOf (.feature f.id) = (f.bindings r).map (Binding.wait p.scope) := by
    rw [Plan.settersOf, hp.setters_eq]
    exact (Plan.groups_resolved hc.sound s p.scope).filter_eq hgroup
  refine ⟨fun h ↦ ?_, fun name ↦ ?_⟩
  · rw [hof.sections, hkind]
  · rw [hof.setters, FeatureKind.names_setters hread, hkind, hbound, List.map_map]
    rfl

theorem exists_assemble {p : Plan} (hplan : c.plan s = .ok p) (settings : Settings) :
    ∃ a, p.assemble s settings = .ok a := by
  have hp := Plan.follows_of_plan hplan
  refine (Plan.exists_assemble_iff_agrees hc.sound hp).mpr fun f hf ↦ ?_
  rw [hp.features] at hf
  obtain ⟨⟨d, r⟩, hd, rfl⟩ := List.mem_map.mp hf
  have hcat := (mem_resolved_iff.mp hd).1
  have hconforms : r.Conforms d.kind.feature := (hc.kinds d hcat).symm ▸ hc.conforms hs hd
  obtain ⟨o, ho⟩ := FeatureKind.exists_output hconforms (s.environment p)
  exact ⟨d, hcat, rfl, o, ho, hc.agrees hs hp hd ho⟩

end Valid

end Catalog.Regular

end TokenContract
