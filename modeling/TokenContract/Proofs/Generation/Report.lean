import TokenContract.Proofs.Generation.Outcome
import TokenContract.Proofs.Plan.Extension

namespace TokenContract

/-- What a field of the token, or a parameter that a feature declares, holds. A supply is judged
together with the decimals. -/
inductive Entry
  | name (name : String)
  | symbol (symbol : String)
  | totalSupply (supply : String) (decimals : Nat)
  | decimals (decimals : Nat)
  | parameter (feature : FeatureId) (p : Parameter) (given : Option Value)

namespace Entry

def address : Entry → String × String
  | name _ => ("token", "name")
  | symbol _ => ("token", "symbol")
  | totalSupply .. => ("token", "totalSupply")
  | decimals _ => ("token", "decimals")
  | parameter feature p _ => (feature, p.id)

def Violated : Entry → Prop
  | name n => ¬IsName n
  | symbol s => ¬IsSymbol s
  | totalSupply supply d => ¬IsSupply supply d
  | decimals d => 18 < d
  | parameter _ p given => p.Violated given

def objection? : Entry → Option Objection
  | name n => nameObjection? n
  | symbol s => symbolObjection? s
  | totalSupply supply d => supplyObjection? supply d
  | decimals d => decimalsObjection? d
  | parameter _ p given => p.objection? given

def violation? (e : Entry) : Option Violation :=
  e.objection?.map fun o ↦ ⟨e.address.1, e.address.2, o.message⟩

theorem objection?_eq_none_iff {e : Entry} : e.objection? = none ↔ ¬e.Violated := by
  cases e with
  | name n => exact nameObjection?_eq_none_iff.trans not_not.symm
  | symbol s => exact symbolObjection?_eq_none_iff.trans not_not.symm
  | totalSupply supply d => exact supplyObjection?_eq_none_iff.trans not_not.symm
  | decimals d => exact decimalsObjection?_eq_none_iff.trans Nat.not_lt.symm
  | parameter feature p given => exact Parameter.objection?_eq_none_iff

theorem isSome_violation?_iff {e : Entry} : e.violation?.isSome ↔ e.Violated := by
  rw [violation?, Option.isSome_map, Option.isSome_iff_ne_none, ne_eq, objection?_eq_none_iff,
    not_not]

instance (e : Entry) : Decidable e.Violated :=
  decidable_of_iff _ isSome_violation?_iff

theorem map_address_violation? (e : Entry) :
    e.violation?.map (fun v ↦ (v.feature, v.parameter)) =
      if e.Violated then some e.address else none := by
  by_cases h : e.Violated
  · have hsome := isSome_violation?_iff.mpr h
    rw [violation?, Option.isSome_map] at hsome
    obtain ⟨o, ho⟩ := Option.isSome_iff_exists.mp hsome
    rw [if_pos h, violation?, ho]
    rfl
  · rw [if_neg h, violation?, objection?_eq_none_iff.mpr h]
    rfl

end Entry

def Spec.entries (s : Spec) : List Entry :=
  [.name s.name, .symbol s.symbol, .totalSupply s.totalSupply s.decimals.toNat,
    .decimals s.decimals.toNat]

theorem Spec.admissible_iff_entries {s : Spec} : s.Admissible ↔ ∀ e ∈ s.entries, ¬e.Violated := by
  simp only [admissible_iff, ← Entry.objection?_eq_none_iff, tokenFields, entries,
    List.forall_mem_cons, List.not_mem_nil, false_imp_iff, implies_true, and_true]
  rfl

theorem Spec.address_of_mem_entries {s : Spec} {e : Entry} (h : e ∈ s.entries) :
    e.address.1 = "token" := by
  simp only [entries, List.mem_cons, List.not_mem_nil, or_false] at h
  rcases h with rfl | rfl | rfl | rfl <;> rfl

def Feature.entries (f : Feature) (s : Spec) : List Entry :=
  f.parameters.map fun p ↦ .parameter f.id p ((s.selection? f.id).bind (·.parameters.find? p.id))

namespace Catalog

variable {c : Catalog} {s : Spec}

def entries (c : Catalog) (s : Spec) : List Entry :=
  s.entries ++ (c.enabled s).flatMap (·.entries s)

def reported (c : Catalog) (s : Spec) : List Violation :=
  match c.validate s with
  | .ok () => []
  | .error e => e.violations?.getD []

/-- What is reported are the violated entries, each by itself, and a selection that has no part in them
changes nothing. -/
structure Reports (c : Catalog) (s : Spec) : Prop where
  violated : (c.reported s).map (fun v ↦ (v.feature, v.parameter)) =
    ((c.entries s).filter fun e ↦ e.Violated).map Entry.address
  own : c.reported s = (c.entries s).filterMap Entry.violation?
  disabled : ∀ id selection, s.selection? id = none → selection.enabled = false →
    c.reported (s.choose id selection) = c.reported s
  unknown : ∀ id selection, (∀ f ∈ c.features, f.id ≠ id) →
    c.reported (s.choose id selection) = c.reported s
  undeclared : ∀ id selection parameters, s.features.find? id = some selection →
    (∀ f ∈ c.features, f.id = id → ∀ p ∈ f.parameters,
      parameters.find? p.id = selection.parameters.find? p.id) →
    c.reported (s.choose id { selection with parameters }) = c.reported s

theorem reported_eq (c : Catalog) (s : Spec) : c.reported s = c.violations s := by
  rw [reported]
  by_cases h : c.violations s = []
  · rw [validate_eq_ok_iff.mpr h, h]
  · rw [validate_of_ne_nil h]
    rfl

theorem filterMap_featureFields (s : Spec) (f : Feature) :
    (featureFields s f).filterMap Field.violation? =
      if s.enables f then (f.entries s).filterMap Entry.violation? else [] := by
  rw [featureFields, Spec.enables]
  cases h : s.selection? f.id with
  | none => simp
  | some selection =>
    rw [Option.isSome_some, if_pos rfl, Feature.entries, h, List.filterMap_map]
    exact List.filterMap_map

theorem reported_eq_filterMap (c : Catalog) (s : Spec) :
    c.reported s = (c.entries s).filterMap Entry.violation? := by
  have htoken : s.tokenFields.filterMap Field.violation? = s.entries.filterMap Entry.violation? := rfl
  rw [reported_eq, violations_eq, entries, List.filterMap_append, htoken, enabled,
    List.filterMap_flatMap]
  refine congrArg _ ?_
  induction c.features with
  | nil => rfl
  | cons f fs ih =>
    rw [List.flatMap_cons, ih, filterMap_featureFields, List.filter_cons]
    split
    · rw [List.flatMap_cons]
    · rfl

theorem map_address_reported (c : Catalog) (s : Spec) :
    (c.reported s).map (fun v ↦ (v.feature, v.parameter)) =
      ((c.entries s).filter fun e ↦ e.Violated).map Entry.address := by
  rw [reported_eq_filterMap, List.map_filterMap, ← List.filterMap_eq_filter, List.map_filterMap]
  refine List.filterMap_congr fun e _ ↦ ?_
  rw [Entry.map_address_violation?]
  by_cases h : e.Violated
  · simp [Option.guard, h]
  · simp [Option.guard, h]

theorem reported_choose {id : FeatureId} {selection : Selection}
    (h : ∀ f ∈ c.features, f.id = id →
      featureFields (s.choose id selection) f = featureFields s f) :
    c.reported (s.choose id selection) = c.reported s := by
  rw [reported_eq, reported_eq, violations_eq, violations_eq]
  refine congrArg _ (List.flatMap_congr fun f hf ↦ congrArg _ ?_)
  by_cases hid : f.id = id
  · exact h f hf hid
  · rw [featureFields, featureFields, Spec.selection?, Spec.choose, Dict.find?_insert,
      if_neg (Ne.symm hid)]
    rfl

theorem selection?_choose (s : Spec) (id : FeatureId) (selection : Selection) :
    (s.choose id selection).selection? id = (some selection).filter (·.enabled) := by
  rw [Spec.selection?, Spec.choose, Dict.find?_insert, if_pos rfl]

theorem reports (c : Catalog) (s : Spec) : c.Reports s where
  violated := map_address_reported c s
  own := reported_eq_filterMap c s
  disabled id selection hnone hoff := reported_choose fun f _ hid ↦ by
    subst hid
    rw [featureFields, featureFields, selection?_choose, hnone, Option.filter, hoff]
    rfl
  unknown id selection hunknown := reported_choose fun f hf hid ↦ absurd hid (hunknown f hf)
  undeclared id selection parameters hfind hsame := reported_choose fun f hf hid ↦ by
    have hfields : f.fields { selection with parameters } = f.fields selection :=
      List.map_congr_left fun p hp ↦ by rw [hsame f hf hid p hp]
    subst hid
    rw [featureFields, featureFields, selection?_choose, Spec.selection?, hfind]
    obtain ⟨enabled, given⟩ := selection
    cases enabled with
    | false => rfl
    | true => exact hfields

theorem spares_iff {scope : String} : (∀ v ∈ c.reported s, v.feature ≠ scope) ↔
    ∀ e ∈ c.entries s, e.address.1 = scope → ¬e.Violated := by
  have haddresses := congrArg (∀ a ∈ ·, a.1 ≠ scope) (map_address_reported c s)
  simp only [List.forall_mem_map, List.mem_filter, decide_eq_true_eq] at haddresses
  rw [haddresses]
  exact forall_congr' fun e ↦ ⟨fun h he hscope hv ↦ h ⟨he, hv⟩ hscope,
    fun h he hscope ↦ h he.1 hscope he.2⟩

/-- Nothing is reported of the token if and only if its own rules let it pass. A feature may have the
name under which the token is reported, and then that holds for its parameters too. -/
theorem spares_token_iff (c : Catalog) (s : Spec) : (∀ v ∈ c.reported s, v.feature ≠ "token") ↔
    s.Admissible ∧ ∀ f ∈ c.features, f.id = "token" → ∀ selection,
      s.selection? f.id = some selection →
        ∀ p ∈ f.parameters, ¬p.Violated (selection.parameters.find? p.id) := by
  rw [spares_iff, entries, List.forall_mem_append, Spec.admissible_iff_entries]
  refine and_congr ?_ ?_
  · exact forall₂_congr fun e he ↦ by rw [Spec.address_of_mem_entries he]; simp
  · simp only [List.forall_mem_flatMap, mem_enabled_iff, and_imp, Feature.entries, List.forall_mem_map,
      Entry.address, Entry.Violated]
    refine forall₂_congr fun f _ ↦ ?_
    cases h : s.selection? f.id with
    | none => simp [Spec.enables, h]
    | some selection =>
      simp only [Spec.enables, h, Option.isSome_some, Option.bind_some, true_imp_iff,
        Option.some.injEq, forall_eq']
      exact ⟨fun hp hid p hmem ↦ hp p hmem hid, fun hp p hmem hid ↦ hp hid p hmem⟩

def underscored : Spec :=
  { guardedTax with name := "_", features := .empty }

theorem spares_underscored : (∀ v ∈ standard.reported underscored, v.feature ≠ "token") ∧
    ¬∃ c ∈ (Text.trim underscored.name).toList, c.isAlphanum := by
  have hnone : standard.reported underscored = [] := by
    rw [reported_eq]
    decide +kernel
  have htrim : (Text.trim underscored.name).toList = ['_'] := by
    rw [Text.toList_trim]
    decide +kernel
  rw [hnone, htrim]
  simp

end Catalog

end TokenContract
