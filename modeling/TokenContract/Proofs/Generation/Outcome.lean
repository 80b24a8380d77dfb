import TokenContract.Generation
import TokenContract.Proofs.Generation.Regular

namespace TokenContract

open Results

namespace Catalog

variable {c : Catalog} {s : Spec}

/-- The first key of a specification that names no feature of a catalog. -/
structure FirstUnknown (c : Catalog) (s : Spec) (k : FeatureId) : Prop where
  mem : k ∈ s.features.keys
  unknown : ∀ f ∈ c.features, f.id ≠ k
  first : ∀ j ∈ s.features.keys, j < k → ∃ f ∈ c.features, f.id = j

theorem isSome_find?_iff {k : FeatureId} : (c.find? k).isSome ↔ ∃ f ∈ c.features, f.id = k := by
  rw [find?, List.find?_isSome]
  simp only [beq_iff_eq]

theorem exists_get {k : FeatureId} (h : ∃ f ∈ c.features, f.id = k) : ∃ f, c.get k = .ok f := by
  obtain ⟨f, hf⟩ := Option.isSome_iff_exists.mp (isSome_find?_iff.mpr h)
  exact ⟨f, by rw [get, hf]⟩

theorem get_of_unknown {k : FeatureId} (h : ∀ f ∈ c.features, f.id ≠ k) :
    c.get k = .error (.unknownFeature k) := by
  have hnone : c.find? k = none := List.find?_eq_none.mpr fun f hf he ↦ h f hf (beq_iff_eq.mp he)
  rw [get, hnone]

theorem forM_get_append {known : List FeatureId}
    (h : ∀ j ∈ known, ∃ f ∈ c.features, f.id = j) (rest : List FeatureId) :
    (forM (known ++ rest) fun id ↦ do let _ ← c.get id) =
      (forM rest fun id ↦ do let _ ← c.get id) := by
  induction known with
  | nil => rfl
  | cons j known ih =>
    obtain ⟨f, hf⟩ := exists_get (h j List.mem_cons_self)
    rw [List.cons_append, List.forM_cons, hf]
    exact ih fun i hi ↦ h i (List.mem_cons_of_mem j hi)

theorem checkKnown_of_forall (h : ∀ k ∈ s.features.keys, ∃ f ∈ c.features, f.id = k) :
    c.checkKnown s = .ok () := by
  have happend := forM_get_append h []
  rw [List.append_nil] at happend
  rw [checkKnown, List.forM_eq_forM, happend]
  rfl

theorem FirstUnknown.checkKnown_eq {k : FeatureId} (h : c.FirstUnknown s k) :
    c.checkKnown s = .error (.unknownFeature k) := by
  obtain ⟨known, rest, hkeys⟩ := List.append_of_mem h.mem
  have hknown : ∀ j ∈ known, ∃ f ∈ c.features, f.id = j := fun j hj ↦
    h.first j (hkeys ▸ List.mem_append_left _ hj) ((Dict.keys_pairwise hkeys).1 j hj)
  rw [checkKnown, List.forM_eq_forM, hkeys, forM_get_append hknown (k :: rest), List.forM_cons, get_of_unknown h.unknown]
  rfl

theorem exists_firstUnknown {j : FeatureId} (hj : j ∈ s.features.keys)
    (h : ∀ f ∈ c.features, f.id ≠ j) : ∃ k, c.FirstUnknown s k := by
  have hnone : (c.find? j).isSome = false := by
    rw [Bool.eq_false_iff, ne_eq, isSome_find?_iff]
    intro hex
    obtain ⟨f, hf, he⟩ := hex
    exact h f hf he
  have hfound : (s.features.keys.find? fun k ↦ !(c.find? k).isSome).isSome :=
    List.find?_isSome.mpr ⟨j, hj, by simp [hnone]⟩
  obtain ⟨k, hk⟩ := Option.isSome_iff_exists.mp hfound
  obtain ⟨hunknown, known, rest, hkeys, hknown⟩ := List.find?_eq_some_iff_append.mp hk
  refine ⟨k, List.mem_of_find?_eq_some hk, fun f hf he ↦ ?_, fun i hi hlt ↦ ?_⟩
  · rw [isSome_find?_iff.mpr ⟨f, hf, he⟩] at hunknown
    cases hunknown
  · have hrest := (Dict.keys_pairwise hkeys).2
    rw [hkeys] at hi
    rcases List.mem_append.mp hi with hi | hi
    · exact isSome_find?_iff.mp (by simpa using hknown i hi)
    · rcases List.mem_cons.mp hi with rfl | hi
      · exact absurd hlt (String.lt_irrefl i)
      · exact absurd (String.lt_trans hlt (hrest i hi)) (String.lt_irrefl i)

theorem validate_eq_ok_iff : c.validate s = .ok () ↔ c.violations s = [] := by
  unfold validate
  cases c.violations s with
  | nil => simp
  | cons v vs => simp

theorem validate_of_ne_nil (h : c.violations s ≠ []) :
    c.validate s = .error (.invalid (c.violations s)) := by
  unfold validate
  cases hvs : c.violations s with
  | nil => exact absurd hvs h
  | cons v vs => rfl

theorem generate_of_ne_nil (h : c.violations s ≠ []) (settings : Settings) :
    c.generate s settings = .error (.invalid (c.violations s)) := by
  rw [generate, validate_of_ne_nil h]
  rfl

theorem generate_of_plan_error (h : c.violations s = []) {d : Defect} (hd : c.plan s = .error d)
    (settings : Settings) : c.generate s settings = .error (.defect d) := by
  rw [generate, validate_eq_ok_iff.mpr h, assembly, hd]
  rfl

theorem generate_of_assemble (h : c.violations s = []) {p : Plan} (hp : c.plan s = .ok p)
    {settings : Settings} {a : Assembly} (ha : p.assemble s settings = .ok a) :
    c.generate s settings = .ok (.ofAssembly a) := by
  have hassembly : c.assembly s settings = .ok a := by
    rw [assembly, hp]
    exact ha
  rw [generate, validate_eq_ok_iff.mpr h, hassembly]
  rfl

theorem admissible_of_validate (h : c.validate s = .ok ()) : s.Admissible :=
  Spec.admissible_iff.mpr (violations_eq_nil_iff.mp (validate_eq_ok_iff.mp h)).1

theorem validate_of_generate {settings : Settings} {art : Artifact}
    (h : c.generate s settings = .ok art) : c.validate s = .ok () := by
  obtain ⟨_, hvalid, -⟩ := bind_eq_ok_iff.mp h
  exact hvalid

theorem admissible_of_generate {settings : Settings} {art : Artifact}
    (h : c.generate s settings = .ok art) : s.Admissible :=
  admissible_of_validate (validate_of_generate h)

theorem exists_assemble_of_generate {settings : Settings} {art : Artifact}
    (h : c.generate s settings = .ok art) : ∃ p a, c.plan s = .ok p ∧
      p.assemble s settings = .ok a ∧ art = .ofAssembly a := by
  obtain ⟨_, -, h⟩ := bind_eq_ok_iff.mp h
  obtain ⟨a, ha, h⟩ := bind_eq_ok_iff.mp h
  cases h
  cases hassembly : c.assembly s settings with
  | error d =>
    rw [hassembly] at ha
    cases ha
  | ok b =>
    rw [hassembly] at ha
    cases ha
    obtain ⟨p, hp, ha⟩ := bind_eq_ok_iff.mp hassembly
    exact ⟨p, a, hp, ha, rfl⟩

theorem FirstUnknown.plan_eq {k : FeatureId} (h : c.FirstUnknown s k) :
    c.plan s = .error (.unknownFeature k) := by
  rw [Catalog.plan_eq, h.checkKnown_eq]
  rfl

/-- What becomes of a specification. -/
structure Decides (c : Catalog) (s : Spec) (settings : Settings) : Prop where
  accepted : (∃ a, c.generate s settings = .ok a) ↔
    c.validate s = .ok () ∧ ∀ k ∈ s.features.keys, ∃ f ∈ c.features, f.id = k
  planned : (∃ a, c.generate s settings = .ok a) ↔ c.validate s = .ok () ∧ ∃ p, c.plan s = .ok p
  rejected : ∀ e, c.validate s = .error e →
    e = .invalid (c.violations s) ∧ c.generate s settings = .error e
  unknown : c.validate s = .ok () → ∀ j ∈ s.features.keys, (∀ f ∈ c.features, f.id ≠ j) →
    ∃ k, c.FirstUnknown s k ∧ c.generate s settings = .error (.defect (.unknownFeature k))
  defect : ∀ d, c.generate s settings = .error (.defect d) →
    c.validate s = .ok () ∧ ∃ k, c.FirstUnknown s k ∧ d = .unknownFeature k

theorem Regular.generate_cases (hc : c.Regular) (s : Spec) (settings : Settings) :
    (c.violations s ≠ [] ∧ c.generate s settings = .error (.invalid (c.violations s))) ∨
    (c.violations s = [] ∧ ∃ k, c.FirstUnknown s k ∧
      c.generate s settings = .error (.defect (.unknownFeature k))) ∨
    (c.violations s = [] ∧ (∀ k ∈ s.features.keys, ∃ f ∈ c.features, f.id = k) ∧
      (∃ p, c.plan s = .ok p) ∧ ∃ a, c.generate s settings = .ok a) := by
  by_cases hvs : c.violations s = []
  · by_cases hknown : ∀ k ∈ s.features.keys, ∃ f ∈ c.features, f.id = k
    · obtain ⟨p, hp⟩ := hc.exists_plan hvs (checkKnown_of_forall hknown)
      obtain ⟨a, ha⟩ := hc.exists_assemble hvs hp settings
      exact .inr (.inr ⟨hvs, hknown, ⟨p, hp⟩, _, generate_of_assemble hvs hp ha⟩)
    · push Not at hknown
      obtain ⟨j, hj, hunknown⟩ := hknown
      obtain ⟨k, hk⟩ := exists_firstUnknown hj hunknown
      exact .inr (.inl ⟨hvs, k, hk, generate_of_plan_error hvs hk.plan_eq settings⟩)
  · exact .inl ⟨hvs, generate_of_ne_nil hvs settings⟩

section Decides

variable {settings : Settings}

theorem decides_of_ne_nil (hvs : c.violations s ≠ []) : c.Decides s settings := by
  have hvalidate := validate_of_ne_nil hvs
  have hgen := generate_of_ne_nil hvs settings
  constructor
  · simp [hgen, hvalidate]
  · simp [hgen, hvalidate]
  · intro e he
    rw [hvalidate] at he
    cases he
    exact ⟨rfl, hgen⟩
  · intro hok
    rw [hvalidate] at hok
    cases hok
  · intro d hd
    rw [hgen] at hd
    cases hd

theorem decides_of_firstUnknown (hvs : c.violations s = []) {k : FeatureId}
    (hk : c.FirstUnknown s k) : c.Decides s settings := by
  have hvalidate := validate_eq_ok_iff.mpr hvs
  have hgen := generate_of_plan_error hvs hk.plan_eq settings
  have hnone : ¬∃ a, c.generate s settings = .ok a := by simp [hgen]
  constructor
  · refine ⟨fun hex ↦ absurd hex hnone, fun hall ↦ ?_⟩
    obtain ⟨f, hf, hid⟩ := hall.2 k hk.mem
    exact absurd hid (hk.unknown f hf)
  · refine ⟨fun hex ↦ absurd hex hnone, fun hall ↦ ?_⟩
    obtain ⟨p, hp⟩ := hall.2
    rw [hk.plan_eq] at hp
    cases hp
  · intro e he
    rw [hvalidate] at he
    cases he
  · exact fun _ _ _ _ ↦ ⟨k, hk, hgen⟩
  · intro d hd
    rw [hgen] at hd
    cases hd
    exact ⟨hvalidate, k, hk, rfl⟩

theorem decides_of_generated (hvs : c.violations s = [])
    (hknown : ∀ k ∈ s.features.keys, ∃ f ∈ c.features, f.id = k) {p : Plan}
    (hp : c.plan s = .ok p) {a : Artifact} (hgen : c.generate s settings = .ok a) :
    c.Decides s settings := by
  have hvalidate := validate_eq_ok_iff.mpr hvs
  constructor
  · exact ⟨fun _ ↦ ⟨hvalidate, hknown⟩, fun _ ↦ ⟨a, hgen⟩⟩
  · exact ⟨fun _ ↦ ⟨hvalidate, p, hp⟩, fun _ ↦ ⟨a, hgen⟩⟩
  · intro e he
    rw [hvalidate] at he
    cases he
  · intro _ j hj hunknown
    obtain ⟨f, hf, hid⟩ := hknown j hj
    exact absurd hid (hunknown f hf)
  · intro d hd
    rw [hgen] at hd
    cases hd

end Decides

theorem Regular.decides (hc : c.Regular) (s : Spec) (settings : Settings) :
    c.Decides s settings := by
  rcases hc.generate_cases s settings with
    ⟨hvs, -⟩ | ⟨hvs, k, hk, -⟩ | ⟨hvs, hknown, ⟨p, hp⟩, a, hgen⟩
  · exact decides_of_ne_nil hvs
  · exact decides_of_firstUnknown hvs hk
  · exact decides_of_generated hvs hknown hp hgen

end Catalog

end TokenContract
