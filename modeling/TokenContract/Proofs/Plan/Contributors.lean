import TokenContract.Proofs.Plan.Selection
import TokenContract.Proofs.Plan.Setters
import TokenContract.Proofs.Plan.Transfer

namespace TokenContract

open Grouped

def baseAt (scope : Option Scope) (h : Hook) : List Contributor :=
  if h = .admin ∧ inheritedBindings scope ≠ [] then [.base] else []

theorem mem_capabilitiesAt_iff {owner? : Capability → Option FeatureId} {h : Hook}
    {x : Contributor} :
    x ∈ capabilitiesAt owner? h ↔
      ∃ cap owner, h ∈ cap.hooks ∧ owner? cap = some owner ∧ x = .capability cap owner := by
  rw [capabilitiesAt, List.mem_filterMap]
  constructor
  · intro hx
    obtain ⟨cap, -, hx⟩ := hx
    split at hx
    · rename_i hh
      obtain ⟨owner, ho, rfl⟩ := Option.map_eq_some_iff.mp hx
      exact ⟨cap, owner, hh, ho, rfl⟩
    · cases hx
  · intro hx
    obtain ⟨cap, owner, hh, ho, rfl⟩ := hx
    exact ⟨cap, cap.mem_all, by rw [if_pos hh, ho]; rfl⟩

theorem nodup_capabilitiesAt (owner? : Capability → Option FeatureId) (h : Hook) :
    (capabilitiesAt owner? h).Nodup := by
  have hall : Capability.all.Nodup := by decide
  refine hall.filterMap fun a b x ha hb ↦ ?_
  cases a
  cases b
  rfl

theorem capabilitiesAt_eq {owner? : Capability → Option FeatureId} {h : Hook} {cap : Capability}
    {owner : FeatureId} (hh : h ∈ cap.hooks) (ho : owner? cap = some owner) :
    capabilitiesAt owner? h = [.capability cap owner] := by
  cases cap
  simp only [capabilitiesAt, Capability.all, List.filterMap_cons, if_pos hh, ho, Option.map_some,
    List.filterMap_nil]

theorem mem_baseAt_iff {scope : Option Scope} {h : Hook} {x : Contributor} :
    x ∈ baseAt scope h ↔
      x = .base ∧ h = .admin ∧ ∃ sc, scope = some sc ∧
        ∃ name ∈ ["transferOwnership", "renounceOwnership"], sc.Matches name := by
  have hne : inheritedBindings scope ≠ [] ↔ ∃ sc, scope = some sc ∧
      ∃ name ∈ ["transferOwnership", "renounceOwnership"], sc.Matches name := by
    cases scope with
    | none => simp [inheritedBindings]
    | some sc =>
      simp only [inheritedBindings, Option.any_some, ne_eq, List.map_eq_nil_iff,
        List.filter_eq_nil_iff, sc.covers_iff, not_forall, not_not, exists_prop, Option.some.injEq,
        exists_eq_left']
      rfl
  rw [← hne, baseAt]
  split
  · rename_i hb
    simp [hb.1, hb.2]
  · rename_i hb
    simp only [List.not_mem_nil, false_iff, not_and]
    intro _ hh hn
    exact hb ⟨hh, hn⟩

namespace Plan

/-- The features `fs` are those among the contributors of a hook, in their order. -/
structure Arranged (p : Plan) (c : Catalog) (s : Spec) (h : Hook) (fs : List Feature) : Prop where
  contributors : p.contributors h =
    capabilitiesAt p.capabilities h ++ fs.map (fun f ↦ .feature f.id) ++ baseAt p.scope h
  mem : ∀ f, f ∈ fs ↔ f ∈ c.enabled s ∧ h ∈ f.hooks ∧
    (h = .admin → ∃ b ∈ p.setters, b.contributor = .feature f.id)
  distinct : (fs.map (·.id)).Nodup
  ordered : h ≠ .transfer → fs.Sublist c.features

variable {p : Plan} {c : Catalog} {s : Spec}

theorem Follows.transfer_eq (hp : p.Follows c s) :
    p.transfer = transferOf (stagesOf (c.enabled s)) (p.hasCapability .swapRouter) :=
  (planTransfer_eq_ok_iff.mp hp.transfer).2.2

theorem Follows.setters_eq (hp : p.Follows c s) :
    p.setters = (setterGroups (c.resolved s) p.scope).flatMap Prod.snd := by
  rw [flatMap_setterGroups]
  exact (planSetters_eq_ok_iff.mp hp.setters).2.2

theorem groups_resolved (hc : c.Sound) (s : Spec) (scope : Option Scope) :
    Groups (·.contributor) (setterGroups (c.resolved s) scope) := by
  refine groups_setterGroups ?_ scope
  have h := hc.nodup_enabled s
  rw [← Catalog.map_fst_resolved, List.map_map] at h
  exact h

theorem arranged_of_plain (hc : c.Sound) (hp : p.Follows c s) {h : Hook} (ht : h ≠ .transfer)
    (ha : h ≠ .admin) : p.Arranged c s h ((c.enabled s).filter (·.contributesTo h)) where
  contributors := by
    have hb : baseAt p.scope h = [] := if_neg fun hb ↦ ha hb.1
    rw [hp.contributors, hb, List.append_nil]
    cases h with
    | transfer => exact absurd rfl ht
    | admin => exact absurd rfl ha
    | imports | state | construction | helpers => rfl
  mem f := by
    rw [List.mem_filter, Feature.contributesTo_iff]
    exact ⟨fun ⟨hf, hh⟩ ↦ ⟨hf, hh, fun e ↦ absurd e ha⟩, fun ⟨hf, hh, _⟩ ↦ ⟨hf, hh⟩⟩
  distinct := (hc.nodup_enabled s).sublist (List.filter_sublist.map _)
  ordered _ := List.filter_sublist.trans List.filter_sublist

theorem exists_arranged_transfer (hc : c.Sound) (hp : p.Follows c s) :
    ∃ fs, p.Arranged c s .transfer fs := by
  have hperm := features_stagesOf_perm (c.enabled s)
  obtain ⟨fs, hfs, hmem⟩ := List.perm_comp_forall₂ (r := fun i f ↦ i = Feature.id f) hperm
    (List.forall₂_map_left_iff.mpr (List.forall₂_same.mpr fun _ _ ↦ rfl))
  have hids : (stagesOf (c.enabled s)).map (·.feature) = fs.map (·.id) := by
    rw [← List.forall₂_eq_eq_eq, List.forall₂_map_right_iff]
    exact hfs
  refine ⟨fs, ?_, fun f ↦ ?_, ?_, fun h ↦ absurd rfl h⟩
  · have hstages := stages_transferOf (stagesOf (c.enabled s)) (p.hasCapability .swapRouter)
    rw [← hp.transfer_eq, hids] at hstages
    have hmap := congrArg (List.map Contributor.feature) hstages
    rw [List.map_map, List.map_map] at hmap
    rw [hp.contributors, contributorsAt, baseAt, if_neg (by simp), List.append_nil]
    exact congrArg (_ ++ ·) hmap
  · rw [hmem.mem_iff, List.mem_filter]
    constructor
    · intro hx
      obtain ⟨hf, hstage⟩ := hx
      have hsound := hc.features f (Catalog.mem_enabled_iff.mp hf).1
      exact ⟨hf, hsound.stage.mpr hstage, by simp⟩
    · intro hx
      obtain ⟨hf, hh, -⟩ := hx
      have hsound := hc.features f (Catalog.mem_enabled_iff.mp hf).1
      exact ⟨hf, hsound.stage.mp hh⟩
  · have hnodup := (hc.nodup_enabled s).sublist
      ((List.filter_sublist (p := (·.transferStage.isSome))).map Feature.id)
    exact (hmem.map Feature.id).nodup_iff.mpr hnodup

theorem mem_setters_of_mem_bindings (hp : p.Follows c s) {f : Feature} {r : Resolved}
    (hf : (f, r) ∈ c.resolved s) {b : Binding} (hb : b ∈ f.bindings r) :
    b.wait p.scope ∈ p.setters := by
  rw [hp.setters_eq, flatMap_setterGroups]
  refine List.mem_map_of_mem (List.mem_append_left _ ?_)
  exact List.mem_flatMap.mpr ⟨(f, r), hf, hb⟩

theorem exists_binding_of_contributor (hp : p.Follows c s) {b : Binding} (hb : b ∈ p.setters)
    {id : FeatureId} (hid : b.contributor = .feature id) :
    ∃ f r, (f, r) ∈ c.resolved s ∧ f.id = id ∧ ∃ a ∈ f.bindings r, a.wait p.scope = b := by
  rw [hp.setters_eq, flatMap_setterGroups] at hb
  obtain ⟨a, ha, rfl⟩ := List.mem_map.mp hb
  rw [Binding.contributor_wait] at hid
  rcases List.mem_append.mp ha with ha | ha
  · obtain ⟨⟨f, r⟩, hf, ha⟩ := List.mem_flatMap.mp ha
    rw [contributor_of_mem_bindings ha] at hid
    exact ⟨f, r, hf, by injection hid, a, ha, rfl⟩
  · rw [contributor_of_mem_inherited ha] at hid
    cases hid

theorem setterContributors_eq (hc : c.Sound) (hp : p.Follows c s) :
    (p.setters.map (·.contributor)).eraseDups =
      (((c.resolved s).filter fun fr ↦ !(fr.1.bindings fr.2).isEmpty).map Prod.fst).map
        (fun f ↦ .feature f.id) ++ baseAt p.scope .admin := by
  have hfeatures : (((c.resolved s).map fun fr ↦ (Contributor.feature fr.1.id,
      (fr.1.bindings fr.2).map (Binding.wait p.scope))).filter (!·.2.isEmpty)).map Prod.fst =
      (((c.resolved s).filter fun fr ↦ !(fr.1.bindings fr.2).isEmpty).map Prod.fst).map
        (fun f ↦ .feature f.id) := by
    rw [List.filter_map, List.map_map, List.map_map]
    simp only [Function.comp_def, List.isEmpty_map]
  have hbase : ([(Contributor.base, (inheritedBindings p.scope).map (Binding.wait p.scope))].filter
      (!·.2.isEmpty)).map Prod.fst = baseAt p.scope .admin := by
    by_cases hb : inheritedBindings p.scope = []
    · simp [baseAt, hb]
    · simp [baseAt, hb]
  rw [hp.setters_eq, (groups_resolved hc s p.scope).eraseDups_eq, setterGroups, List.filter_append,
    List.map_append, hbase, ← hfeatures]

theorem arranged_admin (hc : c.Sound) (hp : p.Follows c s) :
    p.Arranged c s .admin
      (((c.resolved s).filter fun fr ↦ !(fr.1.bindings fr.2).isEmpty).map Prod.fst) where
  contributors := by
    rw [hp.contributors, contributorsAt, List.append_assoc, ← setterContributors_eq hc hp]
  mem f := by
    rw [List.mem_map]
    constructor
    · intro hx
      obtain ⟨⟨f, r⟩, hfr, rfl⟩ := hx
      obtain ⟨hr, hb⟩ := List.mem_filter.mp hfr
      have hf : f ∈ c.enabled s := by
        rw [← Catalog.map_fst_resolved]
        exact List.mem_map_of_mem (f := Prod.fst) hr
      obtain ⟨b, hb⟩ := List.exists_mem_of_ne_nil _ (by simpa using hb)
      have hsetters : f.setters ≠ [] := by
        obtain ⟨d, hd, -⟩ := List.mem_map.mp hb
        exact List.ne_nil_of_mem (List.mem_of_mem_filter hd)
      have hsound := hc.features f (Catalog.mem_enabled_iff.mp hf).1
      refine ⟨hf, hsound.setters.mpr hsetters, fun _ ↦ ⟨b.wait p.scope, ?_, ?_⟩⟩
      · exact mem_setters_of_mem_bindings hp hr hb
      · rw [Binding.contributor_wait]
        exact contributor_of_mem_bindings hb
    · intro hx
      obtain ⟨hf, -, hb⟩ := hx
      obtain ⟨b, hb, hid⟩ := hb rfl
      obtain ⟨g, r, hr, hg, a, ha, -⟩ := exists_binding_of_contributor hp hb hid
      obtain rfl : g = f := hc.eq_of_id_eq (Catalog.mem_resolved_iff.mp hr).1
        (Catalog.mem_enabled_iff.mp hf).1 hg
      have hne := List.ne_nil_of_mem ha
      exact ⟨(g, r), List.mem_filter.mpr ⟨hr, by simpa using hne⟩, rfl⟩
  distinct := by
    have h := hc.nodup_enabled s
    rw [← Catalog.map_fst_resolved] at h
    exact h.sublist ((List.filter_sublist.map _).map _)
  ordered _ := by
    have h : ((c.resolved s).map Prod.fst).Sublist c.features := by
      rw [Catalog.map_fst_resolved]
      exact List.filter_sublist
    exact (List.filter_sublist.map _).trans h

theorem exists_arranged (hc : c.Sound) (hp : p.Follows c s) (h : Hook) :
    ∃ fs, p.Arranged c s h fs := by
  by_cases ht : h = .transfer
  · exact ht ▸ exists_arranged_transfer hc hp
  · by_cases ha : h = .admin
    · exact ⟨_, ha ▸ arranged_admin hc hp⟩
    · exact ⟨_, arranged_of_plain hc hp ht ha⟩

end Plan

end TokenContract
