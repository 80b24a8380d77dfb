import TokenContract.Proofs.Generation.Congruence
import TokenContract.Proofs.Generation.Outcome
import TokenContract.Proofs.Plan.Extension
import TokenContract.Proofs.Text.Blank
import Mathlib.Logic.Relation

namespace TokenContract

/-- One edit of what a generation with the catalog `c` does not look at. Read backwards, each of them
takes away or changes back. -/
inductive Spec.Edit (c : Catalog) : Spec → Spec → Prop
  | name (s : Spec) {before after : String} :
    Text.blank before → Text.blank after → Edit c s { s with name := before ++ s.name ++ after }
  | symbol (s : Spec) {before after : String} :
    Text.blank before → Text.blank after → Edit c s { s with symbol := before ++ s.symbol ++ after }
  | supply (s : Spec) {before after : String} :
    Text.blank before → Text.blank after →
      Edit c s { s with totalSupply := before ++ s.totalSupply ++ after }
  | disabled {s : Spec} {id : FeatureId} {selection : Selection} (parameters : Dict Value) :
    s.features.find? id = some selection → selection.enabled = false →
      Edit c s (s.choose id { selection with parameters })
  | unselected {s : Spec} {f : Feature} (parameters : Dict Value) :
    f ∈ c.features → s.features.find? f.id = none → Edit c s (s.choose f.id ⟨false, parameters⟩)
  /-- Other parameters for a feature, but for those that the catalog declares for it. -/
  | undeclared {s : Spec} {id : FeatureId} {selection : Selection} (parameters : Dict Value) :
    s.features.find? id = some selection →
      (∀ f ∈ c.features, f.id = id → ∀ p ∈ f.parameters,
        parameters.find? p.id = selection.parameters.find? p.id) →
      Edit c s (s.choose id { selection with parameters })
  | blank {s : Spec} {id : FeatureId} {selection : Selection} (parameter : String) {text : String} :
    s.features.find? id = some selection → selection.parameters.find? parameter = none →
      Text.blank text → Edit c s
        (s.choose id { selection with parameters := selection.parameters.insert parameter (.text text) })

/-- What a feature sees of a selection: the values of its parameters that are not blank. -/
def Feature.view (f : Feature) (s : Selection) : List (Option Value) :=
  f.parameters.map fun p ↦ (s.parameters.find? p.id).filter (!·.isBlank)

/-- What a generation sees of a specification. -/
structure View where
  name : String
  contractName : String
  symbol : String
  totalSupply : String
  decimals : UInt8
  known : Except Defect Unit
  choices : List (Option (List (Option Value)))

def Catalog.view (c : Catalog) (s : Spec) : View where
  name := Text.trim s.name
  contractName := s.contractName
  symbol := Text.trim s.symbol
  totalSupply := Text.trim s.totalSupply
  decimals := s.decimals
  known := c.checkKnown s
  choices := c.features.map fun f ↦ (s.selection? f.id).map f.view

theorem identifierOf_append {before after : String} (hbefore : Text.blank before = true)
    (hafter : Text.blank after = true) (name : String) :
    identifierOf (before ++ name ++ after) = identifierOf name := by
  have hnone {t : String} (ht : Text.blank t = true) : t.toList.filter isNameChar = [] := by
    refine List.filter_eq_nil_iff.mpr fun ch hch hchar ↦ ?_
    have hblank := List.all_eq_true.mp ht ch hch
    rw [isBlank_of_isNameChar hchar] at hblank
    cases hblank
  rw [identifierOf, identifierOf, String.toList_append, String.toList_append, List.filter_append,
    List.filter_append, hnone hbefore, hnone hafter, List.nil_append, List.append_nil]

namespace Feature

variable {f : Feature} {a b : Selection}

theorem fields_eq_of_view (h : f.view a = f.view b) : f.fields a = f.fields b := by
  refine List.map_congr_left fun p hp ↦ ?_
  rw [Parameter.objection?, Parameter.objection?, List.map_inj_left.mp h p hp]

theorem resolved_eq_of_view (h : f.view a = f.view b) :
    Resolved.ofSelection f a = Resolved.ofSelection f b := by
  refine congrArg (fun values ↦ Resolved.mk f.id (Dict.ofList values))
    (List.map_congr_left fun p hp ↦ ?_)
  rw [Resolved.valueOf_eq, Resolved.valueOf_eq, List.map_inj_left.mp h p hp]

end Feature

namespace Catalog

variable {c : Catalog} {s t : Spec}

section View

variable (h : c.view s = c.view t)

include h

theorem rel_of_view {f : Feature} (hf : f ∈ c.features) :
    Option.Rel (fun a b ↦ f.view a = f.view b) (s.selection? f.id) (t.selection? f.id) := by
  have hchoice := List.map_inj_left.mp (congrArg View.choices h) f hf
  cases hs : s.selection? f.id with
  | none =>
    rw [hs, Option.map_none, eq_comm, Option.map_eq_none_iff] at hchoice
    rw [hchoice]
    exact .none
  | some a =>
    rw [hs, Option.map_some, eq_comm, Option.map_eq_some_iff] at hchoice
    obtain ⟨b, hb, hview⟩ := hchoice
    rw [hb]
    exact .some hview.symm

theorem tokenFields_eq_of_view : s.tokenFields = t.tokenFields := by
  have hname := congrArg (String.toList ∘ View.name) h
  have hsymbol := congrArg (String.toList ∘ View.symbol) h
  have hsupply := congrArg (String.toList ∘ View.totalSupply) h
  have hidentifier : identifierOf s.name = identifierOf t.name := congrArg View.contractName h
  have hdecimals : s.decimals = t.decimals := congrArg View.decimals h
  simp only [Function.comp_apply, view, Text.toList_trim] at hname hsymbol hsupply
  simp only [Spec.tokenFields, nameObjection?, symbolObjection?, supplyObjection?, hname, hsymbol,
    hsupply, hidentifier, hdecimals]

theorem violations_eq_of_view : c.violations s = c.violations t := by
  rw [violations_eq, violations_eq, tokenFields_eq_of_view h]
  refine congrArg _ (List.flatMap_congr fun f hf ↦ congrArg _ ?_)
  have hrel := rel_of_view h hf
  unfold featureFields
  generalize s.selection? f.id = a at hrel ⊢
  generalize t.selection? f.id = b at hrel ⊢
  cases hrel with
  | none => rfl
  | some hab => exact Feature.fields_eq_of_view hab

theorem resolved_eq_of_view : c.resolved s = c.resolved t := by
  rw [resolved_eq_filterMap, resolved_eq_filterMap]
  refine List.filterMap_congr fun f hf ↦ congrArg _ ?_
  have hrel := rel_of_view h hf
  generalize s.selection? f.id = a at hrel ⊢
  generalize t.selection? f.id = b at hrel ⊢
  cases hrel with
  | none => rfl
  | some hab => exact congrArg some (Feature.resolved_eq_of_view hab)

theorem header_eq_of_view (settings : Settings) : s.header settings = t.header settings := by
  have hname := congrArg View.name h
  have hsymbol := congrArg View.symbol h
  have hsupply := congrArg View.totalSupply h
  have hcontract := congrArg View.contractName h
  have hdecimals := congrArg View.decimals h
  simp only [view] at hname hsymbol hsupply hcontract hdecimals
  simp only [Spec.header, Spec.supplyExpression, hname, hsymbol, hsupply, hcontract, hdecimals]

theorem generate_eq_of_view (settings : Settings) :
    c.generate s settings = c.generate t settings :=
  generate_congr (violations_eq_of_view h) (congrArg View.known h)
    (fun _ ↦ resolved_eq_of_view h) (header_eq_of_view h settings)

end View

theorem checkKnown_congr (h : ∀ k, (∀ f ∈ c.features, f.id ≠ k) →
    (k ∈ s.features.keys ↔ k ∈ t.features.keys)) : c.checkKnown s = c.checkKnown t := by
  have hlater {j : FeatureId} (hs : ∀ k ∈ s.features.keys, k < j → ∃ f ∈ c.features, f.id = k) :
      ∀ k ∈ t.features.keys, k < j → ∃ f ∈ c.features, f.id = k := by
    intro k hk hlt
    by_contra hunknown
    push Not at hunknown
    obtain ⟨f, hf, hid⟩ := hs k ((h k hunknown).mpr hk) hlt
    exact hunknown f hf hid
  by_cases hknown : ∀ k ∈ s.features.keys, ∃ f ∈ c.features, f.id = k
  · have hknown' : ∀ k ∈ t.features.keys, ∃ f ∈ c.features, f.id = k := by
      intro k hk
      by_contra hunknown
      push Not at hunknown
      obtain ⟨f, hf, hid⟩ := hknown k ((h k hunknown).mpr hk)
      exact hunknown f hf hid
    rw [checkKnown_of_forall hknown, checkKnown_of_forall hknown']
  · push Not at hknown
    obtain ⟨j, hj, hunknown⟩ := hknown
    obtain ⟨k, hk⟩ := exists_firstUnknown hj hunknown
    have hk' : c.FirstUnknown t k := ⟨(h k hk.unknown).mp hk.mem, hk.unknown, hlater hk.first⟩
    rw [hk.checkKnown_eq, hk'.checkKnown_eq]

theorem view_choose {id : FeatureId} {selection : Selection}
    (hknown : id ∈ s.features.keys ∨ ∃ f ∈ c.features, f.id = id)
    (h : ∀ f ∈ c.features, f.id = id →
      (s.selection? id).map f.view = ((some selection).filter (·.enabled)).map f.view) :
    c.view s = c.view (s.choose id selection) := by
  have hkeys : c.checkKnown s = c.checkKnown (s.choose id selection) := by
    refine checkKnown_congr fun k hunknown ↦ ?_
    rw [Spec.choose, Dict.mem_keys_insert, iff_or_self]
    rintro rfl
    refine hknown.resolve_right fun hex ↦ ?_
    obtain ⟨f, hf, hid⟩ := hex
    exact hunknown f hf hid
  have hchoices : (c.view s).choices = (c.view (s.choose id selection)).choices := by
    refine List.map_inj_left.mpr fun f hf ↦ ?_
    rw [Spec.selection?, Spec.selection?, Spec.choose, Dict.find?_insert]
    split
    · rename_i hid
      subst hid
      exact h f hf rfl
    · rfl
  simp only [view, hkeys] at hchoices ⊢
  rw [hchoices]
  rfl

theorem map_view_eq {id : FeatureId} {selection : Selection} {parameters : Dict Value}
    (hfind : s.features.find? id = some selection) {f : Feature}
    (h : f.view selection = f.view { selection with parameters }) : (s.selection? id).map f.view =
      ((some { selection with parameters }).filter (·.enabled)).map f.view := by
  rw [Spec.selection?, hfind]
  cases henabled : selection.enabled with
  | false => simp [Option.filter, henabled]
  | true =>
    rw [henabled] at h
    simp [Option.filter, henabled, h]

theorem view_eq_of_edit (h : s.Edit c t) : c.view s = c.view t := by
  have hchosen {id : FeatureId} {selection : Selection} (hfind : s.features.find? id = some selection) :
      id ∈ s.features.keys :=
    Dict.mem_keys_iff.mpr (Option.isSome_of_eq_some hfind)
  cases h with
  | name hbefore hafter =>
    simp only [view, Spec.contractName, Text.trim_append hbefore hafter,
      identifierOf_append hbefore hafter]
    rfl
  | symbol hbefore hafter =>
    simp only [view, Text.trim_append hbefore hafter]
    rfl
  | supply hbefore hafter =>
    simp only [view, Text.trim_append hbefore hafter]
    rfl
  | disabled parameters hfind hoff =>
    refine view_choose (.inl (hchosen hfind)) fun f hf _ ↦ ?_
    simp [Spec.selection?, hfind, Option.filter, hoff]
  | unselected parameters hf hfind =>
    refine view_choose (.inr ⟨_, hf, rfl⟩) fun f hf _ ↦ ?_
    simp [Spec.selection?, hfind, Option.filter]
  | undeclared parameters hfind hsame =>
    refine view_choose (.inl (hchosen hfind)) fun f hf hid ↦ ?_
    refine map_view_eq hfind (List.map_congr_left fun p hp ↦ ?_)
    rw [hsame f hf hid p hp]
  | blank parameter hfind hnone hblank =>
    refine view_choose (.inl (hchosen hfind)) fun f hf hid ↦ ?_
    refine map_view_eq hfind (List.map_congr_left fun p hp ↦ ?_)
    rw [Dict.find?_insert]
    split
    · rename_i he
      rw [← he, hnone]
      simp [Option.filter, Value.isBlank, hblank]
    · rfl

theorem generate_eq_of_edits (h : Relation.EqvGen (Spec.Edit c) s t) (settings : Settings) :
    c.generate s settings = c.generate t settings := by
  refine generate_eq_of_view ?_ settings
  induction h with
  | rel s t hedit => exact view_eq_of_edit hedit
  | refl s => rfl
  | symm s t _ ih => exact ih.symm
  | trans s t u _ _ ih₁ ih₂ => exact ih₁.trans ih₂

theorem generate_eq_edited :
    let note : Dict Value := Dict.ofList [("note", .text "to be checked")]
    let wallet : Dict Value := note.insert "marketingWallet" (.text "\t")
    let named := { guardedTax with name := "\u3000" ++ guardedTax.name ++ " " }
    let further := named.choose Antibot.feature.id ⟨false, note⟩
    let noted := further.choose Tax.feature.id ⟨true, note⟩
    let edited := noted.choose Tax.feature.id ⟨true, wallet⟩
    Relation.EqvGen (Spec.Edit standard) guardedTax edited ∧
      standard.generate guardedTax {} = standard.generate edited {} := by
  intro note wallet named further noted edited
  have hnamed : Spec.Edit standard guardedTax named :=
    .name guardedTax (by decide +kernel) (by decide +kernel)
  have hfurther : Spec.Edit standard named further :=
    .unselected note (by decide +kernel) (by decide +kernel)
  have hplain : further.features.find? Tax.feature.id = some ⟨true, .empty⟩ := by decide +kernel
  have hnoted : Spec.Edit standard further noted := .undeclared note hplain (by decide +kernel)
  have hnote : noted.features.find? Tax.feature.id = some ⟨true, note⟩ := by decide +kernel
  have hedited : Spec.Edit standard noted edited :=
    .blank "marketingWallet" hnote (by decide +kernel) (by decide +kernel)
  have hedits : Relation.EqvGen (Spec.Edit standard) guardedTax edited :=
    .trans _ _ _ (.rel _ _ hnamed) (.trans _ _ _ (.rel _ _ hfurther)
      (.trans _ _ _ (.rel _ _ hnoted) (.rel _ _ hedited)))
  exact ⟨hedits, generate_eq_of_edits hedits {}⟩

end Catalog

end TokenContract
