import TokenContract.Proofs.Generation.Outcome
import TokenContract.Proofs.Source.Agreement
import TokenContract.Proofs.Source.Completeness
import TokenContract.Proofs.Text.Lines

namespace TokenContract

open Results

namespace Timelock

/-- The lines that declare what the guard of a setter calls, and the hooks where they stand. -/
def declarations : List (Hook × String) := [
  (.helpers, "function _createTimelock(bytes32 functionId) private \x7b"),
  (.helpers, "function _timelockExpired(bytes32 functionId) private view returns (bool) \x7b"),
  (.state, "mapping(bytes32 => uint256) public timelockExpiry;")]

theorem unbroken_declarations : ∀ d ∈ declarations, Text.Unbroken d.2.toList := by
  simp only [declarations, List.forall_mem_cons, List.not_mem_nil, false_imp_iff, implies_true,
    and_true]
  refine ⟨?_, ?_, ?_⟩
  · exact Text.unbroken_of_eq rfl (by decide +kernel)
  · exact Text.unbroken_of_eq rfl (by decide +kernel)
  · exact Text.unbroken_of_eq rfl (by decide +kernel)

theorem mem_section {r : Resolved} {e : Environment} {o : Output} (h : output r e = .ok o) :
    ∀ d ∈ declarations, ∃ ls, o.sections d.1 = some ls ∧ d.2 ∈ ls := by
  obtain ⟨delay, -, h⟩ := bind_eq_ok_iff.mp h
  cases h
  simp only [declarations, List.forall_mem_cons, List.not_mem_nil, false_imp_iff, implies_true,
    and_true]
  refine ⟨⟨_, rfl, ?_⟩, ⟨_, rfl, ?_⟩, ⟨_, rfl, ?_⟩⟩
  · decide +kernel
  · decide +kernel
  · have hexpiry : "mapping(bytes32 => uint256) public timelockExpiry;" =
        s!"mapping(bytes32 => uint256) public {timelockExpiry};" := by
      decide +kernel
    rw [hexpiry]
    exact List.mem_cons_of_mem _ List.mem_cons_self

theorem exists_text {r : Resolved} {e : Environment} {o : Output} (h : output r e = .ok o) :
    ∀ d ∈ declarations, ∃ text, o.text? d.1 = some text ∧ d.2 ∈ Text.lines text := by
  intro d hd
  obtain ⟨ls, hls, hm⟩ := mem_section h d hd
  have hne : ∀ d ∈ declarations, d.2 ≠ "" := by decide +kernel
  refine ⟨Text.joinLines ls, ?_, Text.mem_lines_joinLines hm (unbroken_declarations d hd) (hne d hd)⟩
  rw [Output.text?, hls]
  rfl

end Timelock

/-- A contract that declares whatever the guards of setters call. -/
def Assembly.DeclaresTimelock (a : Assembly) : Prop :=
  ∀ d ∈ Timelock.declarations, ∃ x ∈ a.fragments, x.hook = d.1 ∧ d.2 ∈ Text.lines x.text

theorem isSome_scope_iff {features : List PlannedFeature} {scope : Option Scope}
    (h : scopeOf features = .ok scope) :
    scope.isSome ↔ ∃ f ∈ features, f.id = Scope.featureId := by
  rw [scopeOf] at h
  cases hf : features.find? (·.id == Scope.featureId) with
  | none =>
    rw [hf] at h
    cases h
    simpa using hf
  | some f =>
    have hid : f.id = Scope.featureId := by simpa using List.find?_some hf
    rw [hf] at h
    obtain ⟨name, -, h⟩ := bind_eq_ok_iff.mp h
    split at h
    · cases h
      exact iff_of_true rfl ⟨f, List.mem_of_find?_eq_some hf, hid⟩
    · cases h

namespace Plan

/-- What becomes of the timelock. Setters wait as the feature with its id says, and features of its
kind declare what guards call. Where id and kind go together, the setters in the scope of such a
feature are guarded, and guards find what they call. -/
structure Timelocks (p : Plan) (c : Catalog) (s : Spec) (a : Assembly) : Prop where
  planned : p.scope.isSome ↔ ∃ f ∈ c.features, s.enables f ∧ f.id = Scope.featureId
  setters : List.Forall₂ (fun b x ↦ p.Renders (s.environment p) b x.text ∧
      (b.timelocked ↔ ∃ sc, p.scope = some sc ∧ sc.Matches b.name))
    p.setters (a.fragments.filter (·.hook == .admin))
  guarded : (∀ f ∈ c.features, s.enables f → f.kind = .timelock → f.id = Scope.featureId) →
    ∀ f ∈ p.features, f.kind = .timelock → ∃ name sc,
      f.parameters.text Scope.parameterId = .ok name ∧ Scope.ofName? name = some sc ∧
        ∀ b ∈ p.setters, sc.Matches b.name → b.timelocked
  declared : (∃ f ∈ c.features, s.enables f ∧ f.kind = .timelock) → a.DeclaresTimelock
  called : (∀ f ∈ c.features, s.enables f → f.id = Scope.featureId → f.kind = .timelock) →
    (∃ b ∈ p.setters, b.timelocked) → a.DeclaresTimelock

variable {p : Plan} {c : Catalog} {s : Spec} {settings : Settings} {a : Assembly}

theorem Follows.exists_feature_iff (hp : p.Follows c s) (q : FeatureId → FeatureKind → Prop) :
    (∃ f ∈ p.features, q f.id f.kind) ↔ ∃ f ∈ c.features, s.enables f ∧ q f.id f.kind := by
  have hids : p.features.map (fun f ↦ (f.id, f.kind)) =
      (c.enabled s).map fun f ↦ (f.id, f.kind) := by
    rw [hp.features, Catalog.ids_plannedFeatures]
  constructor
  · intro h
    obtain ⟨f, hf, hq⟩ := h
    obtain ⟨g, hg, he⟩ := List.mem_map.mp (hids ▸ List.mem_map_of_mem hf)
    obtain ⟨hcat, hs⟩ := Catalog.mem_enabled_iff.mp hg
    obtain ⟨hid, hkind⟩ := Prod.mk.inj he
    exact ⟨g, hcat, hs, by rwa [hid, hkind]⟩
  · intro h
    obtain ⟨g, hcat, hs, hq⟩ := h
    have hg := List.mem_map_of_mem (f := fun f : Feature ↦ (f.id, f.kind))
      (Catalog.mem_enabled_iff.mpr ⟨hcat, hs⟩)
    obtain ⟨f, hf, he⟩ := List.mem_map.mp (hids ▸ hg)
    obtain ⟨hid, hkind⟩ := Prod.mk.inj he
    exact ⟨f, hf, by rwa [hid, hkind]⟩

theorem Follows.timelocked_iff (hp : p.Follows c s) {b : Binding} (hb : b ∈ p.setters) :
    b.timelocked ↔ ∃ sc, p.scope = some sc ∧ sc.Matches b.name := by
  rw [hp.setters_eq, flatMap_setterGroups] at hb
  obtain ⟨b', -, rfl⟩ := List.mem_map.mp hb
  exact b'.timelocked_wait_iff p.scope

theorem declares_of_planned (ha : p.assemble s settings = .ok a)
    (hd : (p.features.map (·.id)).Nodup) {f : PlannedFeature} (hf : f ∈ p.features)
    (hkind : f.kind = .timelock) : a.DeclaresTimelock := by
  obtain ⟨o, ho⟩ := (complete_of_assemble ha).written f hf
  have hout : Timelock.output f.parameters (s.environment p) = .ok o := by
    rw [write, hkind] at ho
    exact ho
  intro d hd'
  obtain ⟨text, htext, hline⟩ := Timelock.exists_text hout d hd'
  exact ⟨_, section_mem_fragments (last_of_nodup hd hf) ha ho htext, rfl, hline⟩

theorem timelocks_of_assemble (hc : c.Sound) (hp : p.Follows c s)
    (ha : p.assemble s settings = .ok a) : p.Timelocks c s a := by
  have hd : (p.features.map (·.id)).Nodup := hp.features ▸ hc.nodup_planned s
  have hplanned : p.scope.isSome ↔ ∃ f ∈ c.features, s.enables f ∧ f.id = Scope.featureId := by
    rw [isSome_scope_iff hp.scope]
    exact hp.exists_feature_iff fun id _ ↦ id = Scope.featureId
  have hdeclared (h : ∃ f ∈ c.features, s.enables f ∧ f.kind = .timelock) :
      a.DeclaresTimelock := by
    obtain ⟨f, hf, hkind⟩ := (hp.exists_feature_iff fun _ kind ↦ kind = .timelock).mpr h
    exact declares_of_planned ha hd hf hkind
  refine ⟨hplanned, ?_, ?_, hdeclared, ?_⟩
  · have hsetters := (assembled_of_assemble hc hp ha).setters
    have hall := (List.forall₂_and_left _ _).mpr ⟨fun b hb ↦ hp.timelocked_iff hb, hsetters⟩
    exact hall.imp fun b x hx ↦ ⟨hx.2.2, hx.1⟩
  · intro hsame f hf hkind
    obtain ⟨d, hcat, hs, hid, hd'⟩ := (hp.exists_feature_iff fun id kind ↦
      id = f.id ∧ kind = .timelock).mp ⟨f, hf, rfl, hkind⟩
    have hfid : f.id = Scope.featureId := hid.symm.trans (hsame d hcat hs hd')
    obtain ⟨sc, hsc⟩ := Option.isSome_iff_exists.mp ((isSome_scope_iff hp.scope).mpr ⟨f, hf, hfid⟩)
    obtain ⟨g, hg, hgid, name, hname, hof⟩ := (scopeOf_eq_some_iff hd hp.scope sc).mp hsc
    obtain rfl := List.inj_on_of_nodup_map hd hg hf (hgid.trans hfid.symm)
    refine ⟨name, sc, hname, hof, ?_⟩
    intro b hb hmatches
    exact (hp.timelocked_iff hb).mpr ⟨sc, hsc, hmatches⟩
  · intro hsame hwaits
    obtain ⟨b, hb, hb'⟩ := hwaits
    obtain ⟨sc, hsc, -⟩ := (hp.timelocked_iff hb).mp hb'
    obtain ⟨f, hf, hs, hid⟩ := hplanned.mp (Option.isSome_of_eq_some hsc)
    exact hdeclared ⟨f, hf, hs, hsame f hf hs hid⟩

end Plan

namespace Catalog

variable {c : Catalog} {s : Spec} {settings : Settings}

/-- Whatever is generated with a sound catalog, its timelock is as planned and as declared. -/
theorem timelocks_of_generate (hc : c.verify = .ok ()) {art : Artifact}
    (h : c.generate s settings = .ok art) : ∃ p a, c.plan s = .ok p ∧
      p.assemble s settings = .ok a ∧ art = .ofAssembly a ∧ p.Timelocks c s a := by
  obtain ⟨p, a, hp, ha, hart⟩ := exists_assemble_of_generate h
  refine ⟨p, a, hp, ha, hart, ?_⟩
  exact Plan.timelocks_of_assemble (verify_eq_ok_iff.mp hc) (Plan.follows_of_plan hp) ha

def token (c : Catalog) : Spec :=
  { guardedTax with
    features := Dict.ofList (c.features.map fun f ↦
      (f.id, ⟨true, Dict.ofList (f.parameters.map fun p ↦ (p.id, p.default))⟩)) }

def paired : Catalog :=
  ⟨[Tax.feature, Timelock.feature]⟩

theorem timelocks_paired :
    standard.verify = .ok () ∧ ∃ art, standard.generate paired.token {} = .ok art ∧
      ∃ p a, standard.plan paired.token = .ok p ∧ p.assemble paired.token {} = .ok a ∧
        art = .ofAssembly a ∧ p.Timelocks standard paired.token a := by
  have hvs : standard.violations paired.token = [] := by decide +kernel
  have hok : (standard.assembly paired.token {}).toOption.any fun _ ↦ true := by decide +kernel
  obtain ⟨a, ha, -⟩ := exists_ok_of_any hok
  obtain ⟨p, hp, ha⟩ := bind_eq_ok_iff.mp ha
  have hgen := generate_of_assemble hvs hp ha
  exact ⟨verify_standard, _, hgen, timelocks_of_generate verify_standard hgen⟩

/-- A catalog whose feature of the kind of the timelock has another id. -/
def renamed : Catalog :=
  ⟨[Tax.feature, { Timelock.feature with id := "lock" }]⟩

/-- A catalog whose feature with the id of the timelock has another kind. -/
def misnamed : Catalog :=
  ⟨[{ Antibot.feature with
      id := Scope.featureId
      parameters := Antibot.feature.parameters ++ [Parameter.select Scope.parameterId
        "Functions to Timelock" (Scope.options.map Scope.name) Scope.all.name] }]⟩

/-- Setters are left open though a feature of the kind of the timelock is enabled, and setters are
guarded though nothing declares what the guards call. -/
theorem open_or_undeclared :
    (renamed.verify = .ok () ∧ ∃ p a, renamed.plan renamed.token = .ok p ∧
      p.assemble renamed.token {} = .ok a ∧
      renamed.generate renamed.token {} = .ok (.ofAssembly a) ∧
      (∃ f ∈ renamed.features, renamed.token.enables f ∧ f.kind = .timelock) ∧
      p.scope = none ∧ p.setters ≠ [] ∧ ∀ b ∈ p.setters, b.timelocked = false) ∧
    misnamed.verify = .ok () ∧ ∃ p a, misnamed.plan misnamed.token = .ok p ∧
      p.assemble misnamed.token {} = .ok a ∧
      misnamed.generate misnamed.token {} = .ok (.ofAssembly a) ∧
      (∀ f ∈ misnamed.features, f.kind ≠ .timelock) ∧
      (∃ b ∈ p.setters, b.timelocked) ∧ ¬a.DeclaresTimelock := by
  constructor
  · have hvs : renamed.violations renamed.token = [] := by decide +kernel
    have hall : (renamed.plan renamed.token).toOption.any fun p ↦
        (p.assemble renamed.token {}).toOption.any fun _ ↦
          p.scope.isNone && !p.setters.isEmpty && p.setters.all (!·.timelocked) := by
      decide +kernel
    obtain ⟨p, hp, hall⟩ := exists_ok_of_any hall
    obtain ⟨a, ha, hopen⟩ := exists_ok_of_any hall
    refine ⟨verify_of_defect? (by decide +kernel), p, a, hp, ha, generate_of_assemble hvs hp ha,
      by decide +kernel, ?_⟩
    simpa [and_assoc] using hopen
  · have hvs : misnamed.violations misnamed.token = [] := by decide +kernel
    have hall : (misnamed.plan misnamed.token).toOption.any fun p ↦
        (p.assemble misnamed.token {}).toOption.any fun a ↦
          p.setters.any (·.timelocked) && a.fragments.all (·.hook != .helpers) := by
      decide +kernel
    obtain ⟨p, hp, hall⟩ := exists_ok_of_any hall
    obtain ⟨a, ha, hcalls⟩ := exists_ok_of_any hall
    obtain ⟨hwaits, hnone⟩ := Bool.and_eq_true_iff.mp hcalls
    refine ⟨verify_of_defect? (by decide +kernel), p, a, hp, ha, generate_of_assemble hvs hp ha,
      by decide +kernel, by simpa using hwaits, ?_⟩
    intro hdeclares
    obtain ⟨x, hx, hhook, -⟩ := hdeclares _ List.mem_cons_self
    have hnot := List.all_eq_true.mp hnone x hx
    simp [hhook] at hnot

end Catalog

end TokenContract
