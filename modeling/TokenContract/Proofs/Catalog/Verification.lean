import TokenContract.Proofs.Catalog.Soundness

namespace TokenContract

namespace Parameter

/-- What the schema of a parameter has to be. A default that is no text counts as the empty one
among choices, and a bound that is not a number excludes nothing. -/
def Lawful (p : Parameter) : Prop :=
  match p.type with
  | .select => p.options ≠ [] ∧ p.default.asText?.getD "" ∈ p.options
  | .number => ∃ x, p.default = .number x ∧
    (∀ min max, p.min = some min → p.max = some max → ¬max < min) ∧
    (∀ min, p.min = some min → ¬x < min) ∧ ∀ max, p.max = some max → ¬max < x
  | .boolean => ∃ b, p.default = .bool b
  | .text => ∃ t, p.default = .text t

inductive Breach (p : Parameter) : Flaw → Prop
  | noOptions : p.type = .select → p.options = [] → Breach p (.noOptions p.id)
  | defaultNotOption : p.type = .select → p.options ≠ [] →
      p.default.asText?.getD "" ∉ p.options → Breach p (.defaultNotOption p.id)
  | defaultNotNumber : p.type = .number → (∀ x, p.default ≠ .number x) →
      Breach p (.defaultNotNumber p.id)
  | boundsCrossed {x min max : Binary64} : p.type = .number → p.default = .number x →
      p.min = some min → p.max = some max → max < min → Breach p (.boundsCrossed p.id min max)
  | defaultOutOfBounds {x : Binary64} : p.type = .number → p.default = .number x →
      (∀ min max, p.min = some min → p.max = some max → ¬max < min) →
      (∃ min, p.min = some min ∧ x < min) ∨ (∃ max, p.max = some max ∧ max < x) →
      Breach p (.defaultOutOfBounds p.id)
  | defaultNotBoolean : p.type = .boolean → (∀ b, p.default ≠ .bool b) →
      Breach p (.defaultNotBoolean p.id)
  | defaultNotText : p.type = .text → (∀ t, p.default ≠ .text t) → Breach p (.defaultNotText p.id)

variable {p : Parameter} {w : Flaw}

theorem crossedBounds_eq_some_iff {min max : Binary64} : p.crossedBounds = some (min, max) ↔
    p.min = some min ∧ p.max = some max ∧ max < min := by
  unfold crossedBounds
  cases hmin : p.min with
  | none => simp
  | some l =>
    cases hmax : p.max with
    | none => simp
    | some u =>
      simp only [Option.ite_none_right_eq_some, Option.some.injEq, Prod.mk.injEq]
      constructor
      · rintro ⟨hlt, rfl, rfl⟩
        exact ⟨rfl, rfl, hlt⟩
      · rintro ⟨rfl, rfl, hlt⟩
        exact ⟨hlt, rfl, rfl⟩

theorem crossedBounds_eq_none_iff : p.crossedBounds = none ↔
    ∀ min max, p.min = some min → p.max = some max → ¬max < min := by
  rw [Option.eq_none_iff_forall_ne_some]
  simp only [Prod.forall, ne_eq, crossedBounds_eq_some_iff, not_and]

theorem flaw?_eq_none_iff : p.flaw? = none ↔ p.Lawful := by
  unfold flaw? Lawful
  cases p.type with
  | select =>
    by_cases ho : p.options = []
    · simp [ho]
    · simp [ho]
  | number =>
    cases hd : p.default with
    | number x =>
      cases hc : p.crossedBounds with
      | some bounds =>
        have hcrossed := crossedBounds_eq_some_iff.mp hc
        have hnot : ¬∀ min max, p.min = some min → p.max = some max → ¬max < min :=
          fun h ↦ h _ _ hcrossed.1 hcrossed.2.1 hcrossed.2.2
        simp [Value.asNumber?, hnot]
      | none =>
        have hcrossed := crossedBounds_eq_none_iff.mp hc
        simpa [Value.asNumber?, inBounds_iff] using fun _ _ ↦ hcrossed
    | bool b | text t => simp [Value.asNumber?]
  | boolean =>
    cases p.default with
    | bool b => simp [Value.asBool?]
    | number x | text t => simp [Value.asBool?]
  | text =>
    cases p.default with
    | text t => simp [Value.asText?]
    | number x | bool b => simp [Value.asText?]

theorem breach_of_flaw? (h : p.flaw? = some w) : p.Breach w := by
  unfold flaw? at h
  cases ht : p.type with
  | select =>
    simp only [ht] at h
    split at h
    · rename_i ho
      cases h
      exact .noOptions ht ho
    · rename_i ho
      split at h
      · cases h
      · rename_i hd
        cases h
        exact .defaultNotOption ht ho hd
  | number =>
    simp only [ht] at h
    cases hd : p.default with
    | number x =>
      simp only [hd, Value.asNumber?] at h
      cases hc : p.crossedBounds with
      | some bounds =>
        obtain ⟨hmin, hmax, hlt⟩ := crossedBounds_eq_some_iff.mp hc
        simp only [hc] at h
        cases h
        exact .boundsCrossed ht hd hmin hmax hlt
      | none =>
        simp only [hc, Option.ite_none_left_eq_some, inBounds_iff, not_and_or, not_forall, not_not,
          exists_prop, Option.some.injEq] at h
        obtain ⟨hout, rfl⟩ := h
        exact .defaultOutOfBounds ht hd (crossedBounds_eq_none_iff.mp hc) hout
    | bool b | text t =>
      simp only [hd, Value.asNumber?] at h
      cases h
      exact .defaultNotNumber ht (by simp [hd])
  | boolean =>
    simp only [ht, Option.ite_none_left_eq_some, Option.some.injEq] at h
    obtain ⟨hd, rfl⟩ := h
    refine .defaultNotBoolean ht fun b hb ↦ hd ?_
    rw [hb]
    rfl
  | text =>
    simp only [ht, Option.ite_none_left_eq_some, Option.some.injEq] at h
    obtain ⟨hd, rfl⟩ := h
    refine .defaultNotText ht fun t hb ↦ hd ?_
    rw [hb]
    rfl

theorem flaw?_of_breach (h : p.Breach w) : p.flaw? = some w := by
  unfold flaw?
  cases h with
  | noOptions ht ho => simp [ht, ho]
  | defaultNotOption ht ho hd => simp [ht, ho, hd]
  | defaultNotNumber ht hd =>
    cases hv : p.default with
    | number x => exact absurd hv (hd x)
    | bool b | text t => simp [ht, Value.asNumber?]
  | boundsCrossed ht hd hmin hmax hlt =>
    have hc := crossedBounds_eq_some_iff.mpr ⟨hmin, hmax, hlt⟩
    simp [ht, hd, Value.asNumber?, hc]
  | @defaultOutOfBounds x ht hd hle hout =>
    have hc := crossedBounds_eq_none_iff.mpr hle
    have hb : p.inBounds x = false := by
      rw [Bool.eq_false_iff, ne_eq, inBounds_iff, not_and_or]
      simpa only [not_forall, not_not, exists_prop] using hout
    simp [ht, hd, Value.asNumber?, hc, hb]
  | defaultNotBoolean ht hd =>
    cases hv : p.default with
    | bool b => exact absurd hv (hd b)
    | number x | text t => simp [ht, Value.asBool?]
  | defaultNotText ht hd =>
    cases hv : p.default with
    | text t => exact absurd hv (hd t)
    | number x | bool b => simp [ht, Value.asText?]

theorem flaw?_eq_some_iff : p.flaw? = some w ↔ p.Breach w :=
  ⟨breach_of_flaw?, flaw?_of_breach⟩

end Parameter

namespace Feature

/-- The rules for a feature, in the order in which they are looked at. -/
inductive Rule
  | parameters
  | hooks
  | stage
  | setters
  | flags

def Rule.all : List Rule :=
  [.parameters, .hooks, .stage, .setters, .flags]

/-- The flag that a setter waits for, if any, is a boolean parameter. -/
def KeepsFlag (f : Feature) (d : SetterDeclaration) : Prop :=
  ∀ flag, d.requiresFlag = some flag → ∃ p, f.parameter? flag = some p ∧ p.type = .boolean

def Keeps (f : Feature) : Rule → Prop
  | .parameters => (f.parameters.map (·.id)).Nodup ∧ ∀ p ∈ f.parameters, p.Lawful
  | .hooks => f.hooks.Nodup
  | .stage => .transfer ∈ f.hooks ↔ f.transferStage.isSome
  | .setters => .admin ∈ f.hooks ↔ f.setters ≠ []
  | .flags => ∀ d ∈ f.setters, f.KeepsFlag d

def Lawful (f : Feature) : Prop :=
  ∀ r, f.Keeps r

/-- How a feature breaks a rule: the first parameter, hook or setter against it is told. -/
def Breaks (f : Feature) (w : Flaw) : Rule → Prop
  | .parameters => ∃ before p, Reached (·.id) Parameter.Lawful f.parameters before p ∧
    (p.id ∈ before.map (·.id) ∧ w = .repeatedParameter p.id ∨
      p.id ∉ before.map (·.id) ∧ p.Breach w)
  | .hooks => ∃ before h after, f.hooks = before ++ h :: after ∧ before.Nodup ∧ h ∈ before ∧
    w = .repeatedHook h
  | .stage => ¬f.Keeps .stage ∧ w = .stageApartFromHook
  | .setters => ¬f.Keeps .setters ∧ w = .settersApartFromHook
  | .flags => ∃ before d after flag, f.setters = before ++ d :: after ∧
    (∀ e ∈ before, f.KeepsFlag e) ∧ ¬f.KeepsFlag d ∧ d.requiresFlag = some flag ∧
    w = .flagNotBoolean d.name flag

/-- What is told of the first rule that a feature breaks. -/
def FirstBreach (f : Feature) (w : Flaw) : Prop :=
  ∃ earlier r later, Rule.all = earlier ++ r :: later ∧ (∀ q ∈ earlier, f.Keeps q) ∧ f.Breaks w r

/-- Why a feature is refused after others whose names are taken. -/
def Refused (f : Feature) (taken : List FeatureId) (d : Defect) : Prop :=
  f.id ∈ taken ∧ d = .duplicateFeature f.id ∨
    f.id ∉ taken ∧ ∃ w, f.FirstBreach w ∧ d = .invalidCatalog f.id w.message

def flawOf? (f : Feature) : Rule → Option Flaw
  | .parameters => parameterFlaw? [] f.parameters
  | .hooks => hookFlaw? [] f.hooks
  | .stage =>
    if f.contributesTo .transfer = f.transferStage.isSome then none else some .stageApartFromHook
  | .setters =>
    if f.contributesTo .admin = !f.setters.isEmpty then none else some .settersApartFromHook
  | .flags => f.setters.findSome? f.flagFlaw?

variable {f : Feature} {w : Flaw} {r : Rule}

theorem flaw?_eq_findSome? (f : Feature) : f.flaw? = Rule.all.findSome? f.flawOf? := by
  have hcons (r : Rule) (rs : List Rule) :
      (r :: rs).findSome? f.flawOf? = (f.flawOf? r).or (rs.findSome? f.flawOf?) := by
    rw [List.findSome?_cons]
    cases f.flawOf? r with
    | none => rfl
    | some w => rfl
  simp only [Rule.all, hcons, List.findSome?_nil, Option.or_none]
  simp only [flaw?, flawOf?, Option.orElse_eq_orElse, Option.orElse_eq_or]

theorem parameterFlaw?_nil_eq_some_iff {ps : List Parameter} : parameterFlaw? [] ps = some w ↔
    ∃ before p, Reached (·.id) Parameter.Lawful ps before p ∧
      (p.id ∈ before.map (·.id) ∧ w = .repeatedParameter p.id ∨
        p.id ∉ before.map (·.id) ∧ p.Breach w) := by
  simp only [parameterFlaw?_eq, firstFault_nil_eq_some_iff, Parameter.flaw?_eq_none_iff,
    Parameter.flaw?_eq_some_iff]

theorem hookFlaw?_nil_eq_some_iff {hs : List Hook} : hookFlaw? [] hs = some w ↔
    ∃ before h after, hs = before ++ h :: after ∧ before.Nodup ∧ h ∈ before ∧
      w = .repeatedHook h := by
  simp only [hookFlaw?_eq, firstFault_eq_some_iff, fresh_nil_iff, List.map_id', List.not_mem_nil,
    false_or, reduceCtorEq, and_false, or_false, implies_true, and_true]

theorem flagFlaw?_eq_none_iff_keepsFlag {d : SetterDeclaration} :
    f.flagFlaw? d = none ↔ f.KeepsFlag d := by
  simp only [flagFlaw?_eq_none_iff, KeepsFlag, isBooleanParameter, Option.any_eq_true, beq_iff_eq]

theorem flagFlaw?_eq_some_iff {d : SetterDeclaration} : f.flagFlaw? d = some w ↔
    ¬f.KeepsFlag d ∧ ∃ flag, d.requiresFlag = some flag ∧ w = .flagNotBoolean d.name flag := by
  rw [← flagFlaw?_eq_none_iff_keepsFlag, flagFlaw?]
  cases d.requiresFlag with
  | none => simp
  | some flag =>
    rw [ite_eq_left_iff, Option.ite_none_left_eq_some]
    simp [eq_comm (a := w)]

theorem flawOf?_eq_none_iff : f.flawOf? r = none ↔ f.Keeps r := by
  cases r with
  | parameters =>
    simp only [flawOf?, Keeps, parameterFlaw?_eq_none_iff, fresh_nil_iff,
      Parameter.flaw?_eq_none_iff]
  | hooks => simp only [flawOf?, Keeps, hookFlaw?_eq_none_iff, fresh_nil_iff, List.map_id']
  | stage =>
    simp only [flawOf?, Keeps, ite_eq_left_iff, reduceCtorEq, imp_false, not_not,
      contributesTo_eq_stage_iff]
  | setters =>
    simp only [flawOf?, Keeps, ite_eq_left_iff, reduceCtorEq, imp_false, not_not,
      contributesTo_eq_setters_iff]
  | flags =>
    simp only [flawOf?, Keeps, List.findSome?_eq_none_iff, flagFlaw?_eq_none_iff_keepsFlag]

theorem findSome?_flagFlaw?_eq_some_iff : f.setters.findSome? f.flagFlaw? = some w ↔
    ∃ before d after flag, f.setters = before ++ d :: after ∧ (∀ e ∈ before, f.KeepsFlag e) ∧
      ¬f.KeepsFlag d ∧ d.requiresFlag = some flag ∧ w = .flagNotBoolean d.name flag := by
  simp only [List.findSome?_eq_some_iff, flagFlaw?_eq_some_iff, flagFlaw?_eq_none_iff_keepsFlag]
  constructor
  · intro h
    obtain ⟨before, d, after, hsplit, ⟨hnot, flag, hflag, hw⟩, hbefore⟩ := h
    exact ⟨before, d, after, flag, hsplit, hbefore, hnot, hflag, hw⟩
  · intro h
    obtain ⟨before, d, after, flag, hsplit, hbefore, hnot, hflag, hw⟩ := h
    exact ⟨before, d, after, hsplit, ⟨hnot, flag, hflag, hw⟩, hbefore⟩

theorem flawOf?_eq_some_iff : f.flawOf? r = some w ↔ f.Breaks w r := by
  cases r with
  | parameters => exact parameterFlaw?_nil_eq_some_iff
  | hooks => exact hookFlaw?_nil_eq_some_iff
  | stage =>
    simp only [flawOf?, Breaks, Keeps, Option.ite_none_left_eq_some, contributesTo_eq_stage_iff,
      Option.some.injEq, eq_comm (a := w)]
  | setters =>
    simp only [flawOf?, Breaks, Keeps, Option.ite_none_left_eq_some, contributesTo_eq_setters_iff,
      Option.some.injEq, eq_comm (a := w)]
  | flags => exact findSome?_flagFlaw?_eq_some_iff

theorem flaw?_eq_none_iff_lawful : f.flaw? = none ↔ f.Lawful := by
  have hall (r : Rule) : r ∈ Rule.all := by
    cases r <;> simp [Rule.all]
  simp only [flaw?_eq_findSome?, List.findSome?_eq_none_iff, flawOf?_eq_none_iff, hall,
    true_imp_iff, Lawful]

theorem flaw?_eq_some_iff : f.flaw? = some w ↔ f.FirstBreach w := by
  simp only [flaw?_eq_findSome?, List.findSome?_eq_some_iff, flawOf?_eq_some_iff,
    flawOf?_eq_none_iff, FirstBreach, and_comm]

end Feature

namespace Catalog

structure Verdict (fs : List Feature) : Prop where
  accepted : ∀ c, ofFeatures fs = .ok c ↔
    c = ⟨fs⟩ ∧ (fs.map (·.id)).Nodup ∧ ∀ f ∈ fs, f.Lawful
  refused : ∀ d, ofFeatures fs = .error d ↔
    ∃ before f, Reached (·.id) Feature.Lawful fs before f ∧ f.Refused (before.map (·.id)) d

theorem ofFeatures_eq_ok_iff {fs : List Feature} {c : Catalog} :
    ofFeatures fs = .ok c ↔ c = ⟨fs⟩ ∧ featureDefect? [] fs = none := by
  rw [ofFeatures, verify, defect?]
  cases featureDefect? [] fs with
  | none => simp [bind, Except.bind, pure, Except.pure, eq_comm]
  | some d => simp [bind, Except.bind]

theorem ofFeatures_eq_error_iff {fs : List Feature} {d : Defect} :
    ofFeatures fs = .error d ↔ featureDefect? [] fs = some d := by
  rw [ofFeatures, verify, defect?]
  cases featureDefect? [] fs with
  | none => simp [bind, Except.bind, pure, Except.pure]
  | some e => simp [bind, Except.bind]

theorem verdict_ofFeatures (fs : List Feature) : Verdict fs where
  accepted c := by
    simp only [ofFeatures_eq_ok_iff, featureDefect?_eq, firstFault_eq_none_iff, fresh_nil_iff,
      Feature.defect?, Option.map_eq_none_iff, Feature.flaw?_eq_none_iff_lawful]
  refused d := by
    simp only [ofFeatures_eq_error_iff, featureDefect?_eq, firstFault_nil_eq_some_iff,
      Feature.defect?, Option.map_eq_none_iff, Feature.flaw?_eq_none_iff_lawful,
      Option.map_eq_some_iff, Feature.flaw?_eq_some_iff, Feature.Refused, eq_comm (a := d)]

-- A name that is taken comes before whatever else is wrong with a feature.
example : ofFeatures [{ id := "levy", kind := .tax },
    { id := "levy", kind := .tax, hooks := [.helpers, .helpers] }] =
      .error (.duplicateFeature "levy") := by
  rfl

end Catalog

end TokenContract
