import TokenContract.Catalog.Resolved
import TokenContract.Proofs.Catalog.Soundness
import TokenContract.Proofs.Dict
import TokenContract.Proofs.Validation

namespace TokenContract

namespace Parameter

variable {p : Parameter} {v : Value} {s : Selection}

/-- Whether a parameter may have a value in the end. A text that must be an address may also be
blank. -/
def admits (p : Parameter) (v : Value) : Bool :=
  match p.type, v with
  | .number, .number _ => true
  | .boolean, .bool _ => true
  | .select, .text s => s ∈ p.options
  | .text, .text s => !p.address || Text.blank s || Address.isAddress s
  | _, _ => false

theorem admits_of_valueObjection? (h : p.valueObjection? v = none) : p.admits v := by
  have haccepts := valueObjection?_eq_none_iff.mp h
  unfold Accepts at haccepts
  unfold admits
  cases ht : p.type with
  | number =>
    rw [ht] at haccepts
    obtain ⟨x, rfl, -⟩ := haccepts
    rfl
  | boolean =>
    rw [ht] at haccepts
    obtain ⟨b, rfl⟩ := haccepts
    rfl
  | select =>
    rw [ht] at haccepts
    obtain ⟨t, hoption, rfl⟩ := haccepts
    exact decide_eq_true hoption
  | text =>
    rw [ht] at haccepts
    obtain ⟨t, rfl, haddress⟩ := haccepts
    cases ha : p.address with
    | false => rfl
    | true => simp [Address.isAddress_iff.mpr (haddress ha)]

theorem admits_valueOf (hdefault : p.admits p.default)
    (h : p.objection? (s.parameters.find? p.id) = none) : p.admits (Resolved.valueOf p s) := by
  unfold Resolved.valueOf
  generalize s.parameters.find? p.id = given at h ⊢
  cases given with
  | none => exact hdefault
  | some v =>
    cases hv : v.isBlank with
    | true => simpa only [hv, if_true] using hdefault
    | false =>
      simp only [objection?, Option.filter, hv, Bool.not_false, if_true] at h
      simpa only [hv, Bool.false_eq_true, if_false] using admits_of_valueObjection? h

theorem exists_number (ht : p.type = .number) (h : p.admits v) : ∃ x, v.asNumber? = some x := by
  cases v with
  | number x => exact ⟨x, rfl⟩
  | bool b | text s => simp [admits, ht] at h

theorem exists_bool (ht : p.type = .boolean) (h : p.admits v) : ∃ b, v.asBool? = some b := by
  cases v with
  | bool b => exact ⟨b, rfl⟩
  | number x | text s => simp [admits, ht] at h

theorem exists_choice (ht : p.type = .select) (h : p.admits v) :
    ∃ s ∈ p.options, v.asText? = some s := by
  cases v with
  | text s => exact ⟨s, by simpa [admits, ht] using h, rfl⟩
  | bool b | number x => simp [admits, ht] at h

theorem exists_address (ht : p.type = .text) (ha : p.address = true) (h : p.admits v) :
    ∃ s, v.asText? = some s ∧ (Text.blank s ∨ Address.isAddress s) := by
  cases v with
  | text s => exact ⟨s, rfl, by simpa [admits, ht, ha] using h⟩
  | bool b | number x => simp [admits, ht] at h

end Parameter

theorem Feature.exists_of_isBooleanParameter {f : Feature} {id : String} (h : f.isBooleanParameter id) :
    ∃ p ∈ f.parameters, p.id = id ∧ p.type = .boolean := by
  rw [isBooleanParameter, Option.any_eq_true] at h
  obtain ⟨p, hp, ht⟩ := h
  exact ⟨p, List.mem_of_find?_eq_some hp, by simpa using List.find?_some hp, by simpa using ht⟩

namespace Resolved

variable {f : Feature} {r : Resolved} {s : Selection}

/-- A value that it may have for each parameter of a feature. -/
def Conforms (r : Resolved) (f : Feature) : Prop :=
  ∀ p ∈ f.parameters, ∃ v, r.values.find? p.id = some v ∧ p.admits v

theorem find?_ofSelection (hd : (f.parameters.map (·.id)).Nodup) {p : Parameter}
    (hp : p ∈ f.parameters) : (ofSelection f s).values.find? p.id = some (valueOf p s) := by
  refine (Dict.find?_ofList_iff ?_).mpr ?_
  · rw [List.map_map]
    exact hd
  · exact List.mem_map.mpr ⟨p, hp, rfl⟩

theorem conforms_ofSelection (hd : (f.parameters.map (·.id)).Nodup)
    (hdefault : ∀ p ∈ f.parameters, p.admits p.default)
    (h : ∀ p ∈ f.parameters, p.objection? (s.parameters.find? p.id) = none) :
    (ofSelection f s).Conforms f := by
  intro p hp
  exact ⟨valueOf p s, find?_ofSelection hd hp, Parameter.admits_valueOf (hdefault p hp) (h p hp)⟩

theorem get_eq_ok {α : Type} {read : Value → Option α} {id : String} {v : Value} {a : α}
    (hv : r.values.find? id = some v) (ha : read v = some a) : r.get read id = .ok a := by
  simp only [get, hv, Option.bind_some, ha]

namespace Conforms

variable (h : r.Conforms f) {id : String}

include h

theorem exists_number (hp : ∃ p ∈ f.parameters, p.id = id ∧ p.type = .number) :
    ∃ x, r.number id = .ok x := by
  obtain ⟨p, hp, rfl, ht⟩ := hp
  obtain ⟨v, hv, hadmits⟩ := h p hp
  obtain ⟨x, hx⟩ := p.exists_number ht hadmits
  exact ⟨x, get_eq_ok hv hx⟩

theorem exists_natural (hp : ∃ p ∈ f.parameters, p.id = id ∧ p.type = .number) :
    ∃ n, r.natural id = .ok n := by
  obtain ⟨x, hx⟩ := h.exists_number hp
  exact ⟨x.toWord, by rw [natural, hx]; rfl⟩

theorem exists_basisPoints (hp : ∃ p ∈ f.parameters, p.id = id ∧ p.type = .number) :
    ∃ n, r.basisPoints id = .ok n := by
  obtain ⟨x, hx⟩ := h.exists_number hp
  exact ⟨(x * 100).toWord, by rw [basisPoints, hx]; rfl⟩

theorem exists_boolean (hp : ∃ p ∈ f.parameters, p.id = id ∧ p.type = .boolean) :
    ∃ b, r.boolean id = .ok b := by
  obtain ⟨p, hp, rfl, ht⟩ := hp
  obtain ⟨v, hv, hadmits⟩ := h p hp
  obtain ⟨b, hb⟩ := p.exists_bool ht hadmits
  exact ⟨b, get_eq_ok hv hb⟩

theorem exists_choice {options : List String}
    (hp : ∃ p ∈ f.parameters, p.id = id ∧ p.type = .select ∧ p.options = options) :
    ∃ s ∈ options, r.text id = .ok s := by
  obtain ⟨p, hp, rfl, ht, rfl⟩ := hp
  obtain ⟨v, hv, hadmits⟩ := h p hp
  obtain ⟨s, hs, htext⟩ := p.exists_choice ht hadmits
  exact ⟨s, hs, get_eq_ok hv htext⟩

theorem exists_address
    (hp : ∃ p ∈ f.parameters, p.id = id ∧ p.type = .text ∧ p.address = true) :
    ∃ s, r.text id = .ok s ∧ (Text.blank s ∨ Address.isAddress s) := by
  obtain ⟨p, hp, rfl, ht, ha⟩ := hp
  obtain ⟨v, hv, hadmits⟩ := h p hp
  obtain ⟨s, htext, hs⟩ := p.exists_address ht ha hadmits
  exact ⟨s, get_eq_ok hv htext, hs⟩

end Conforms

end Resolved

end TokenContract
