import TokenContract.Proofs.Generation.Congruence
import TokenContract.Proofs.Spec.Alike
import TokenContract.Proofs.Validation
import Mathlib.Data.Option.Basic

namespace TokenContract

theorem Dict.Related.keys_eq {α : Type} {R : α → α → Prop} {d e : Dict α} (h : d.Related R e) :
    d.keys = e.keys := by
  rw [keys, keys, ← List.forall₂_eq_eq_eq, List.forall₂_map_left_iff, List.forall₂_map_right_iff]
  exact h.imp fun _ _ hab ↦ hab.1

theorem Dict.Related.find? {α : Type} {R : α → α → Prop} {d e : Dict α} (h : d.Related R e)
    (k : String) : Option.Rel R (d.find? k) (e.find? k) := by
  unfold Dict.find?
  unfold Dict.Related at h
  generalize d.entries = as at h ⊢
  generalize e.entries = bs at h ⊢
  induction h with
  | nil => exact .none
  | cons hab _ ih =>
    obtain ⟨hkey, hr⟩ := hab
    rw [List.find?_cons, List.find?_cons, ← hkey]
    split
    · exact .some hr
    · exact ih

theorem Value.Alike.isBlank_eq {v w : Value} (h : v.Alike w) : v.isBlank = w.isBlank := by
  obtain rfl | ⟨x, y, rfl, rfl, -, -⟩ := h
  · rfl
  · rfl

theorem Parameter.numberObjection?_of_not_finite (p : Parameter) {x : Binary64}
    (hx : x.isFinite = false) : p.numberObjection? x = some .notFinite := by
  simp [numberObjection?, hx]

theorem Parameter.message_valueObjection? (p : Parameter) {v w : Value} (h : v.Alike w) :
    (p.valueObjection? v).map Objection.message = (p.valueObjection? w).map Objection.message := by
  obtain rfl | ⟨x, y, rfl, rfl, hx, hy⟩ := h
  · rfl
  · cases htype : p.type with
    | number => simp only [valueObjection?, htype, numberObjection?_of_not_finite, hx, hy]
    | boolean | select | text =>
      simp only [valueObjection?, htype, Option.map_some]
      rfl

theorem Parameter.eq_of_valueObjection?_eq_none {p : Parameter} {v w : Value} (h : v.Alike w)
    (hv : p.valueObjection? v = none) : v = w := by
  obtain rfl | ⟨x, y, rfl, rfl, hx, hy⟩ := h
  · rfl
  · cases htype : p.type with
    | number => simp [valueObjection?, htype, numberObjection?_of_not_finite, hx] at hv
    | boolean | select | text => simp [valueObjection?, htype] at hv

theorem Parameter.message_objection? (p : Parameter) {g g' : Option Value}
    (h : Option.Rel Value.Alike g g') :
    (p.objection? g).map Objection.message = (p.objection? g').map Objection.message := by
  cases h with
  | none => rfl
  | some h =>
    rename_i v w
    cases hv : v.isBlank with
    | true =>
      have hw : w.isBlank = true := h.isBlank_eq ▸ hv
      simp only [objection?, Option.filter, hv, hw, Bool.not_true, Bool.false_eq_true, if_false]
    | false =>
      have hw : w.isBlank = false := h.isBlank_eq ▸ hv
      simp only [objection?, Option.filter, hv, hw, Bool.not_false, if_true]
      exact p.message_valueObjection? h

theorem Resolved.valueOf_eq_of_objection?_eq_none {p : Parameter} {s t : Selection}
    (h : s.Alike t) (hp : p.objection? (s.parameters.find? p.id) = none) :
    valueOf p s = valueOf p t := by
  have hrel := h.parameters.find? p.id
  unfold valueOf
  generalize s.parameters.find? p.id = g at hrel hp ⊢
  generalize t.parameters.find? p.id = g' at hrel ⊢
  cases hrel with
  | none => rfl
  | some hvw =>
    rename_i v w
    cases hv : v.isBlank with
    | true =>
      have hw : w.isBlank = true := hvw.isBlank_eq ▸ hv
      simp only [hv, hw, if_true]
    | false =>
      simp only [Parameter.objection?, Option.filter, hv, Bool.not_false, if_true] at hp
      obtain rfl := Parameter.eq_of_valueObjection?_eq_none hvw hp
      rfl

namespace Spec.Alike

variable {s t : Spec}

theorem selection? (h : s.Alike t) (id : FeatureId) :
    Option.Rel Selection.Alike (s.selection? id) (t.selection? id) := by
  have hrel := h.features.find? id
  unfold Spec.selection?
  generalize s.features.find? id = a at hrel ⊢
  generalize t.features.find? id = b at hrel ⊢
  cases hrel with
  | none => exact .none
  | some hab =>
    simp only [Option.filter, hab.enabled]
    split
    · exact .some hab
    · exact .none

theorem tokenFields_eq (h : s.Alike t) : s.tokenFields = t.tokenFields := by
  simp only [tokenFields, h.name, h.symbol, h.totalSupply, h.decimals]

theorem featureFields_eq (h : s.Alike t) (f : Feature) :
    (Catalog.featureFields s f).filterMap Field.violation? =
      (Catalog.featureFields t f).filterMap Field.violation? := by
  unfold Catalog.featureFields
  have hrel := h.selection? f.id
  generalize s.selection? f.id = a at hrel ⊢
  generalize t.selection? f.id = b at hrel ⊢
  cases hrel with
  | none => rfl
  | some hab =>
    simp only [Feature.fields, List.filterMap_map]
    refine List.filterMap_congr fun p _ ↦ ?_
    have hmessage := p.message_objection? (hab.parameters.find? p.id)
    have hreason := congrArg (Option.map (Violation.mk f.id p.id)) hmessage
    rw [Option.map_map, Option.map_map] at hreason
    exact hreason

theorem violations_eq (h : s.Alike t) (c : Catalog) : c.violations s = c.violations t := by
  rw [Catalog.violations_eq, Catalog.violations_eq, h.tokenFields_eq]
  exact congrArg _ (List.flatMap_congr fun f _ ↦ h.featureFields_eq f)

theorem resolved_eq (h : s.Alike t) {c : Catalog} (hs : c.violations s = []) :
    c.resolved s = c.resolved t := by
  have hfine := (Catalog.violations_eq_nil_iff.mp hs).2
  have hat : ∀ f ∈ c.features, (s.selection? f.id).map (Resolved.ofSelection f) =
      (t.selection? f.id).map (Resolved.ofSelection f) := fun f hf ↦ by
    have hrel := h.selection? f.id
    have hparameters := hfine f hf
    generalize s.selection? f.id = a at hrel hparameters ⊢
    generalize t.selection? f.id = b at hrel ⊢
    cases hrel with
    | none => rfl
    | some hab =>
      have hvalues := List.map_congr_left fun p hp ↦ congrArg (Prod.mk p.id)
        (Resolved.valueOf_eq_of_objection?_eq_none hab (hparameters _ rfl p hp))
      simp only [Option.map_some, Resolved.ofSelection, hvalues]
  rw [Catalog.resolved_eq_filterMap, Catalog.resolved_eq_filterMap]
  exact List.filterMap_congr fun f hf ↦ congrArg _ (hat f hf)

theorem generate_eq (h : s.Alike t) (c : Catalog) (settings : Settings) :
    c.generate s settings = c.generate t settings := by
  have hknown : c.checkKnown s = c.checkKnown t := by
    rw [Catalog.checkKnown, Catalog.checkKnown, h.features.keys_eq]
  have hheader : s.header settings = t.header settings := by
    simp only [header, contractName, supplyExpression, h.name, h.symbol, h.totalSupply, h.decimals]
  -- Unequal values can only be left where no feature looks, and the plan does not look there.
  exact Catalog.generate_congr (h.violations_eq c) hknown h.resolved_eq hheader

end Spec.Alike

namespace Spec

/-- The bytes of the canonical text decide the result for every catalog and all settings. They tell
all but which numbers that are not finite the parameters are. -/
theorem generate_eq_of_bytes_eq {s t : Spec} (h : s.canonical.toUTF8 = t.canonical.toUTF8) :
    s.Alike t ∧ ∀ (c : Catalog) (settings : Settings),
      c.generate s settings = c.generate t settings := by
  have halike := alike_of_canonical_eq (String.toByteArray_inj.mp h)
  exact ⟨halike, halike.generate_eq⟩

def strewn (x : Binary64) : Spec where
  name := "Strewn"
  symbol := "STR"
  totalSupply := "1000000"
  decimals := 18
  features := Dict.ofList [
    ("antibot", ⟨false, Dict.ofList [("maxTxAmount", .number x), ("enableBlacklist", .number x)]⟩),
    ("timelock", ⟨true, Dict.ofList [("functionsToTimelock", .text "all"), ("note", .number x)]⟩)]

def misplaced (x : Binary64) : Spec :=
  { strewn x with
    features := Dict.ofList [("timelock", ⟨true,
      Dict.ofList [("functionsToTimelock", .number x), ("delayHours", .number x)]⟩)] }

theorem generate_eq_strewn :
    (strewn .nan ≠ strewn (.infinite true) ∧
      (strewn .nan).canonical.toUTF8 = (strewn (.infinite true)).canonical.toUTF8 ∧
      ∃ art, Catalog.standard.generate (strewn .nan) {} = .ok art ∧
        Catalog.standard.generate (strewn (.infinite true)) {} = .ok art) ∧
    misplaced (.infinite false) ≠ misplaced (.infinite true) ∧
      (misplaced (.infinite false)).canonical.toUTF8 =
        (misplaced (.infinite true)).canonical.toUTF8 ∧
      ∃ vs, vs.length = 2 ∧
        Catalog.standard.generate (misplaced (.infinite false)) {} = .error (.invalid vs) ∧
        Catalog.standard.generate (misplaced (.infinite true)) {} = .error (.invalid vs) := by
  have hbytes {s t : Spec} (h : Json.compactChars s.toJson = Json.compactChars t.toJson) :
      s.canonical.toUTF8 = t.canonical.toUTF8 := congrArg (fun cs ↦ (String.ofList cs).toUTF8) h
  have hstrewn := hbytes (s := strewn .nan) (t := strewn (.infinite true)) (by decide +kernel)
  have hmisplaced := hbytes (s := misplaced (.infinite false)) (t := misplaced (.infinite true))
    (by decide +kernel)
  refine ⟨⟨by decide +kernel, hstrewn, ?_⟩, by decide +kernel, hmisplaced, ?_⟩
  · have hok : (Catalog.standard.generate (strewn .nan) {}).toOption.any fun _ ↦ true := by
      decide +kernel
    obtain ⟨art, hart, -⟩ := Results.exists_ok_of_any hok
    exact ⟨art, hart, (generate_eq_of_bytes_eq hstrewn).2 .standard {} ▸ hart⟩
  · refine ⟨Catalog.standard.violations (misplaced (.infinite false)), by decide +kernel, ?_⟩
    have hinvalid : Catalog.standard.generate (misplaced (.infinite false)) {} =
        .error (.invalid (Catalog.standard.violations (misplaced (.infinite false)))) := by
      rw [Catalog.generate, Catalog.validate]
      rfl
    exact ⟨hinvalid, (generate_eq_of_bytes_eq hmisplaced).2 .standard {} ▸ hinvalid⟩

end Spec

end TokenContract
