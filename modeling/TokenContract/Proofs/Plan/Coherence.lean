import TokenContract.Proofs.Plan.Contributors

namespace TokenContract

def Contributor.own? : Contributor → Option FeatureId
  | .feature id => some id
  | .base | .capability _ _ => none

/-- A plan whose parts agree with each other and with the enabled features of the catalog. -/
structure Plan.Coherent (p : Plan) (c : Catalog) (s : Spec) : Prop where
  features : p.features.map (fun f ↦ (f.id, f.kind)) =
    (c.features.filter s.enables).map fun f ↦ (f.id, f.kind)
  enabled : p.enabled = (c.features.filter s.enables).map (·.id)
  feature : ∀ h id, .feature id ∈ p.contributors h ↔
    ∃ f ∈ c.features, f.id = id ∧ s.enables f ∧ h ∈ f.hooks ∧
      (h = .admin → ∃ b ∈ p.setters, b.contributor = .feature id)
  once : ∀ h, (p.contributors h).Nodup
  ordered : ∀ h, h ≠ .transfer →
    ((p.contributors h).filterMap Contributor.own?).Sublist (c.features.map (·.id))
  active : p.hasCapability .swapRouter ↔
    ∃ f ∈ c.features, s.enables f ∧ .swapRouter ∈ f.capabilities
  owner : ∀ id, p.capabilities .swapRouter = some id ↔
    ∃ l f m, c.features = l ++ f :: m ∧ f.id = id ∧ s.enables f ∧ .swapRouter ∈ f.capabilities ∧
      ∀ g ∈ l, s.enables g → .swapRouter ∉ g.capabilities
  router : ∀ id, p.capabilities .swapRouter = some id →
    ∀ h ∈ [Hook.imports, .state, .construction, .helpers],
      ∃ cs, p.contributors h = .capability .swapRouter id :: cs
  elsewhere : ∀ h cap id, .capability cap id ∈ p.contributors h →
    cap = .swapRouter ∧ p.capabilities .swapRouter = some id ∧
      h ∈ [Hook.imports, .state, .construction, .helpers]
  scope : ∀ sc, p.scope = some sc ↔ ∃ f ∈ p.features, f.id = Scope.featureId ∧
    ∃ name, f.parameters.text Scope.parameterId = .ok name ∧ Scope.ofName? name = some sc
  base : ∀ h, .base ∈ p.contributors h ↔
    h = .admin ∧ ∃ sc, p.scope = some sc ∧
      ∃ name ∈ ["transferOwnership", "renounceOwnership"], sc.Matches name
  last : .base ∈ p.contributors .admin → ∃ cs, p.contributors .admin = cs ++ [.base]
  staged : p.transfer.isSome ↔ p.isActive .transfer
  stages : ∀ t, p.transfer = some t →
    p.contributors .transfer = t.stages.map fun stage ↦ .feature stage.1
  hooks : ∀ h, p.hooks h ≠ some []

/-- A token with a tax whose setters, like those of the ownership, wait behind the timelock. -/
def guardedTax : Spec where
  name := "Guarded"
  symbol := "GRD"
  totalSupply := "1000000"
  decimals := 18
  features := Dict.ofList [(Tax.feature.id, ⟨true, Dict.ofList []⟩),
    (Timelock.feature.id, ⟨true, Dict.ofList []⟩)]

namespace Catalog

theorem ids_plannedFeatures (c : Catalog) (s : Spec) :
    (c.plannedFeatures s).map (fun f ↦ (f.id, f.kind)) =
      (c.enabled s).map fun f ↦ (f.id, f.kind) := by
  rw [← map_fst_resolved, plannedFeatures, List.map_map, List.map_map]
  rfl

theorem Sound.nodup_planned {c : Catalog} (hc : c.Sound) (s : Spec) :
    ((c.plannedFeatures s).map (·.id)).Nodup := by
  have h := hc.nodup_enabled s
  rw [← map_fst_resolved, List.map_map] at h
  rw [plannedFeatures, List.map_map]
  exact h

end Catalog

theorem ownerOf?_eq_some_iff {c : Catalog} {s : Spec} {cap : Capability} {id : FeatureId} :
    ownerOf? (c.enabled s) cap = some id ↔
      ∃ l f m, c.features = l ++ f :: m ∧ f.id = id ∧ s.enables f ∧ cap ∈ f.capabilities ∧
        ∀ g ∈ l, s.enables g → cap ∉ g.capabilities := by
  rw [ownerOf?, Catalog.enabled, List.find?_filter, Option.map_eq_some_iff]
  constructor
  · intro h
    obtain ⟨f, hf, hid⟩ := h
    obtain ⟨hneeds, l, m, he, hl⟩ := List.find?_eq_some_iff_append.mp hf
    have hneeds := of_decide_eq_true hneeds
    refine ⟨l, f, m, he, hid, hneeds.1, of_decide_eq_true hneeds.2, fun g hg hs hcap ↦ ?_⟩
    have hnot := hl g hg
    simp [hs, hcap] at hnot
  · intro h
    obtain ⟨l, f, m, he, hid, hs, hcap, hl⟩ := h
    refine ⟨f, List.find?_eq_some_iff_append.mpr ⟨?_, l, m, he, fun g hg ↦ ?_⟩, hid⟩
    · simp [hs, hcap]
    · by_cases hg' : s.enables g = true
      · simp [hg', hl g hg hg']
      · simp [hg']

theorem isSome_ownerOf?_iff {c : Catalog} {s : Spec} {cap : Capability} :
    (ownerOf? (c.enabled s) cap).isSome ↔
      ∃ f ∈ c.features, s.enables f ∧ cap ∈ f.capabilities := by
  rw [ownerOf?, Option.isSome_map, List.find?_isSome]
  simp only [Catalog.mem_enabled_iff, decide_eq_true_eq, and_assoc]

theorem scopeOf_eq_some_iff {features : List PlannedFeature} {scope : Option Scope}
    (hd : (features.map (·.id)).Nodup) (h : scopeOf features = .ok scope) (sc : Scope) :
    scope = some sc ↔ ∃ f ∈ features, f.id = Scope.featureId ∧
      ∃ name, f.parameters.text Scope.parameterId = .ok name ∧ Scope.ofName? name = some sc := by
  rw [scopeOf] at h
  cases hf : features.find? (·.id == Scope.featureId) with
  | none =>
    rw [hf] at h
    cases h
    have hnone : ∀ f ∈ features, f.id ≠ Scope.featureId := fun f hm he ↦
      List.find?_eq_none.mp hf f hm (beq_iff_eq.mpr he)
    constructor
    · intro hs
      cases hs
    · intro hs
      obtain ⟨f, hm, he, -⟩ := hs
      exact absurd he (hnone f hm)
  | some f =>
    have hm := List.mem_of_find?_eq_some hf
    have hid : f.id = Scope.featureId := by simpa using List.find?_some hf
    rw [hf] at h
    obtain ⟨name, hname, h⟩ := Results.bind_eq_ok_iff.mp h
    cases hsc : Scope.ofName? name with
    | none =>
      rw [hsc] at h
      cases h
    | some sd =>
      rw [hsc] at h
      cases h
      constructor
      · intro hs
        cases hs
        exact ⟨f, hm, hid, name, hname, hsc⟩
      · intro hs
        obtain ⟨g, hg, he, other, hother, hsd⟩ := hs
        obtain rfl : g = f := List.inj_on_of_nodup_map hd hg hm (he.trans hid.symm)
        rw [hname] at hother
        cases hother
        exact hsc ▸ hsd

namespace Plan

variable {p : Plan} {c : Catalog} {s : Spec} {h : Hook} {fs : List Feature}

theorem Arranged.mem_feature_iff (ha : p.Arranged c s h fs) {id : FeatureId} :
    .feature id ∈ p.contributors h ↔ ∃ f ∈ fs, f.id = id := by
  have hcap : .feature id ∉ capabilitiesAt p.capabilities h := fun hm ↦ by
    obtain ⟨_, _, -, -, he⟩ := mem_capabilitiesAt_iff.mp hm
    cases he
  have hbase : .feature id ∉ baseAt p.scope h := fun hm ↦ by
    have he := (mem_baseAt_iff.mp hm).1
    cases he
  rw [ha.contributors]
  simp only [List.mem_append, hcap, hbase, false_or, or_false, List.mem_map,
    Contributor.feature.injEq]

theorem Arranged.mem_capability_iff (ha : p.Arranged c s h fs) {cap : Capability}
    {id : FeatureId} :
    .capability cap id ∈ p.contributors h ↔ h ∈ cap.hooks ∧ p.capabilities cap = some id := by
  have hbase : .capability cap id ∉ baseAt p.scope h := fun hm ↦ by
    have he := (mem_baseAt_iff.mp hm).1
    cases he
  have hfeature : .capability cap id ∉ fs.map fun f ↦ Contributor.feature f.id := fun hm ↦ by
    obtain ⟨f, -, he⟩ := List.mem_map.mp hm
    cases he
  rw [ha.contributors, List.mem_append, or_iff_left hbase, List.mem_append,
    or_iff_left hfeature, mem_capabilitiesAt_iff]
  constructor
  · intro hm
    obtain ⟨_, _, hh, ho, he⟩ := hm
    cases he
    exact ⟨hh, ho⟩
  · intro hm
    exact ⟨cap, id, hm.1, hm.2, rfl⟩

theorem Arranged.mem_base_iff (ha : p.Arranged c s h fs) :
    .base ∈ p.contributors h ↔
      h = .admin ∧ ∃ sc, p.scope = some sc ∧
        ∃ name ∈ ["transferOwnership", "renounceOwnership"], sc.Matches name := by
  have hcap : .base ∉ capabilitiesAt p.capabilities h := fun hm ↦ by
    obtain ⟨_, _, -, -, he⟩ := mem_capabilitiesAt_iff.mp hm
    cases he
  rw [ha.contributors]
  simp only [List.mem_append, hcap, false_or, List.mem_map, reduceCtorEq, and_false, exists_false,
    mem_baseAt_iff, true_and]

theorem Arranged.nodup (ha : p.Arranged c s h fs) : (p.contributors h).Nodup := by
  have hfeatures : (fs.map fun f ↦ Contributor.feature f.id).Nodup := by
    have hinj : Function.Injective Contributor.feature := fun i j he ↦ by injection he
    have hd := ha.distinct.map hinj
    rw [List.map_map] at hd
    exact hd
  have hbase : (baseAt p.scope h).Nodup := by
    rw [baseAt]
    split
    · exact List.nodup_singleton _
    · exact List.nodup_nil
  rw [ha.contributors]
  refine List.nodup_append.mpr ⟨List.nodup_append.mpr ⟨nodup_capabilitiesAt .., hfeatures, ?_⟩,
    hbase, ?_⟩
  · intro x hx y hy he
    obtain ⟨_, _, -, -, rfl⟩ := mem_capabilitiesAt_iff.mp hx
    obtain ⟨f, -, rfl⟩ := List.mem_map.mp hy
    cases he
  · intro x hx y hy he
    have hy := (mem_baseAt_iff.mp hy).1
    subst he hy
    rcases List.mem_append.mp hx with hx | hx
    · obtain ⟨_, _, -, -, he⟩ := mem_capabilitiesAt_iff.mp hx
      cases he
    · obtain ⟨f, -, he⟩ := List.mem_map.mp hx
      cases he

theorem Arranged.filterMap_own? (ha : p.Arranged c s h fs) :
    (p.contributors h).filterMap Contributor.own? = fs.map (·.id) := by
  have hcap : (capabilitiesAt p.capabilities h).filterMap Contributor.own? = [] := by
    refine List.filterMap_eq_nil_iff.mpr fun x hx ↦ ?_
    obtain ⟨_, _, -, -, rfl⟩ := mem_capabilitiesAt_iff.mp hx
    rfl
  have hbase : (baseAt p.scope h).filterMap Contributor.own? = [] := by
    refine List.filterMap_eq_nil_iff.mpr fun x hx ↦ ?_
    rw [(mem_baseAt_iff.mp hx).1]
    rfl
  rw [ha.contributors, List.filterMap_append, List.filterMap_append, hcap, hbase,
    List.filterMap_map, List.nil_append, List.append_nil]
  exact congrFun List.filterMap_eq_map fs

theorem Arranged.exists_router (ha : p.Arranged c s h fs) {cap : Capability} {id : FeatureId}
    (ho : p.capabilities cap = some id) (hh : h ∈ cap.hooks) :
    ∃ cs, p.contributors h = .capability cap id :: cs := by
  rw [ha.contributors, capabilitiesAt_eq hh ho]
  exact ⟨_, rfl⟩

theorem Arranged.exists_base (ha : p.Arranged c s h fs) (hb : .base ∈ p.contributors h) :
    ∃ cs, p.contributors h = cs ++ [.base] := by
  have hbase : baseAt p.scope h = [.base] := by
    have hm : .base ∈ baseAt p.scope h := mem_baseAt_iff.mpr ⟨rfl, ha.mem_base_iff.mp hb⟩
    rw [baseAt] at hm ⊢
    split at hm
    · rename_i hadmin
      rw [if_pos hadmin]
    · cases hm
  rw [ha.contributors, hbase]
  exact ⟨_, rfl⟩

theorem Follows.isActive_iff (hp : p.Follows c s) (h : Hook) :
    p.isActive h ↔ p.contributors h ≠ [] := by
  have hne := hp.hooks h
  rw [isActive, Plan.contributors]
  cases hh : p.hooks h with
  | none => simp
  | some cs =>
    rw [hh] at hne
    simpa using hne

theorem Follows.contributors_transfer (hp : p.Follows c s) :
    p.contributors .transfer = (p.transfer.elim [] (·.stages)).map fun stage ↦ .feature stage.1 :=
  hp.contributors .transfer

theorem Follows.isSome_transfer_iff (hp : p.Follows c s) :
    p.transfer.isSome ↔ p.isActive .transfer := by
  have hstages := stages_transferOf (stagesOf (c.enabled s)) (p.hasCapability .swapRouter)
  rw [← hp.transfer_eq] at hstages
  rw [hp.isActive_iff, hp.contributors_transfer, hp.transfer_eq, isSome_transferOf,
    ← hp.transfer_eq, ne_eq, ne_eq, List.map_eq_nil_iff, ← List.map_eq_nil_iff (f := Prod.fst),
    hstages, List.map_eq_nil_iff]

theorem Follows.mem_feature_iff (hp : p.Follows c s) (hc : c.Sound) (h : Hook) {id : FeatureId} :
    .feature id ∈ p.contributors h ↔ ∃ f ∈ c.features, f.id = id ∧ s.enables f ∧ h ∈ f.hooks ∧
      (h = .admin → ∃ b ∈ p.setters, b.contributor = .feature id) := by
  obtain ⟨fs, ha⟩ := exists_arranged hc hp h
  rw [ha.mem_feature_iff]
  constructor
  · intro hm
    obtain ⟨f, hf, rfl⟩ := hm
    obtain ⟨he, hh, hsetter⟩ := (ha.mem f).mp hf
    obtain ⟨hcat, hs⟩ := Catalog.mem_enabled_iff.mp he
    exact ⟨f, hcat, rfl, hs, hh, hsetter⟩
  · intro hm
    obtain ⟨f, hcat, rfl, hs, hh, hsetter⟩ := hm
    exact ⟨f, (ha.mem f).mpr ⟨Catalog.mem_enabled_iff.mpr ⟨hcat, hs⟩, hh, hsetter⟩, rfl⟩

/-- Whatever a sound catalog plans is coherent. -/
theorem coherent_of_plan (hc : c.verify = .ok ()) (hplan : c.plan s = .ok p) :
    p.Coherent c s := by
  have hsound := Catalog.verify_eq_ok_iff.mp hc
  have hp := follows_of_plan hplan
  have harranged := exists_arranged hsound hp
  have henabled : p.features.map (fun f ↦ (f.id, f.kind)) =
      (c.enabled s).map fun f ↦ (f.id, f.kind) := by
    rw [hp.features, Catalog.ids_plannedFeatures]
  refine {
    features := henabled
    enabled := ?_
    feature := fun h id ↦ ?_
    once := fun h ↦ ?_
    ordered := fun h ht ↦ ?_
    active := ?_
    owner := fun id ↦ ?_
    router := fun id ho h hh ↦ ?_
    elsewhere := fun h cap id hm ↦ ?_
    scope := ?_
    base := fun h ↦ ?_
    last := fun hb ↦ ?_
    staged := hp.isSome_transfer_iff
    stages := fun t ht ↦ ?_
    hooks := hp.hooks }
  · have hids := congrArg (List.map Prod.fst) henabled
    rw [List.map_map, List.map_map] at hids
    exact hids
  · exact hp.mem_feature_iff hsound h
  · obtain ⟨fs, ha⟩ := harranged h
    exact ha.nodup
  · obtain ⟨fs, ha⟩ := harranged h
    rw [ha.filterMap_own?]
    exact (ha.ordered ht).map _
  · rw [hasCapability, hp.capabilities]
    exact isSome_ownerOf?_iff
  · rw [hp.capabilities]
    exact ownerOf?_eq_some_iff
  · obtain ⟨fs, ha⟩ := harranged h
    exact ha.exists_router ho hh
  · obtain ⟨fs, ha⟩ := harranged h
    obtain ⟨hh, ho⟩ := ha.mem_capability_iff.mp hm
    cases cap
    exact ⟨rfl, ho, hh⟩
  · refine scopeOf_eq_some_iff ?_ hp.scope
    rw [hp.features]
    exact hsound.nodup_planned s
  · obtain ⟨fs, ha⟩ := harranged h
    exact ha.mem_base_iff
  · obtain ⟨fs, ha⟩ := harranged .admin
    exact ha.exists_base hb
  · rw [hp.contributors_transfer, ht]
    rfl

theorem exists_coherent_guardedTax :
    Catalog.standard.verify = .ok () ∧ ∃ p, Catalog.standard.plan guardedTax = .ok p ∧
      p.Coherent Catalog.standard guardedTax := by
  have hok : (Catalog.standard.plan guardedTax).isOk = true := by decide +kernel
  cases hplan : Catalog.standard.plan guardedTax with
  | error d =>
    rw [hplan] at hok
    cases hok
  | ok p => exact ⟨Catalog.verify_standard, p, rfl, coherent_of_plan Catalog.verify_standard hplan⟩

end Plan

end TokenContract
