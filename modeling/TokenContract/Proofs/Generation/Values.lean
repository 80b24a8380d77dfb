import TokenContract.Proofs.Catalog.Verification
import TokenContract.Proofs.Generation.Outcome

namespace TokenContract

namespace Value

variable {v : Value}

theorem asNumber?_eq_some_iff {x : Binary64} : v.asNumber? = some x ↔ v = .number x := by
  cases v with
  | number y => simp [asNumber?]
  | bool b | text s => simp [asNumber?]

theorem asBool?_eq_some_iff {b : Bool} : v.asBool? = some b ↔ v = .bool b := by
  cases v with
  | bool a => simp [asBool?]
  | number x | text s => simp [asBool?]

theorem asText?_eq_some_iff {s : String} : v.asText? = some s ↔ v = .text s := by
  cases v with
  | text t => simp [asText?]
  | bool b | number x => simp [asText?]

end Value

namespace Parameter

variable {p : Parameter} {v : Value}

/-- Whether a value is what a parameter declares. -/
def Fits (p : Parameter) (v : Value) : Prop :=
  p.admits v ∧ ∀ x, v = .number x → x.isFinite ∧ p.inBounds x

/-- A default that the check of a catalog lets pass though it is not what the parameter declares. -/
inductive Stray (p : Parameter) : Prop
  | number (x : Binary64) : p.type = .number → p.default = .number x → x.isFinite = false →
      p.inBounds x → Stray p
  | choice : p.type = .select → p.default.asText? = none → "" ∈ p.options → Stray p
  | address (t : String) : p.type = .text → p.address = true → p.default = .text t →
      Text.blank t = false → Address.isAddress t = false → Stray p

theorem of_numberObjection? {x : Binary64} (h : p.numberObjection? x = none) :
    x.isFinite ∧ p.inBounds x := by
  obtain ⟨hfinite, hmin, hmax, -⟩ := numberObjection?_eq_none_iff.mp h
  exact ⟨hfinite, inBounds_iff.mpr ⟨hmin, hmax⟩⟩

theorem type_of_admits_number {x : Binary64} (h : p.admits (.number x)) : p.type = .number := by
  cases ht : p.type with
  | number => rfl
  | text | boolean | select => simp [admits, ht] at h

theorem fits_of_valueObjection? (h : p.valueObjection? v = none) : p.Fits v := by
  have hadmits := admits_of_valueObjection? h
  refine ⟨hadmits, ?_⟩
  rintro x rfl
  have ht := type_of_admits_number hadmits
  exact of_numberObjection? (by simpa only [valueObjection?, ht] using h)

theorem fits_of_admits (h : p.admits v) (hn : p.type ≠ .number) : p.Fits v :=
  ⟨h, fun _ hx ↦ absurd (type_of_admits_number (hx ▸ h)) hn⟩

theorem fits_default_or_stray (h : p.flaw? = none) : p.Fits p.default ∨ p.Stray := by
  have hlawful := flaw?_eq_none_iff.mp h
  unfold Lawful at hlawful
  cases ht : p.type with
  | number =>
    rw [ht] at hlawful
    obtain ⟨x, hd, -, hmin, hmax⟩ := hlawful
    have hbounds := inBounds_iff.mpr ⟨hmin, hmax⟩
    cases hfinite : x.isFinite with
    | false => exact .inr (.number x ht hd hfinite hbounds)
    | true =>
      rw [hd]
      refine .inl ⟨by simp [admits, ht], fun y hy ↦ ?_⟩
      obtain rfl := Value.number.inj hy
      exact ⟨hfinite, hbounds⟩
  | boolean =>
    rw [ht] at hlawful
    obtain ⟨b, hd⟩ := hlawful
    rw [hd]
    exact .inl (fits_of_admits (by simp [admits, ht]) (by simp [ht]))
  | select =>
    -- A default that is no text passes for the empty one.
    rw [ht] at hlawful
    obtain ⟨-, hoption⟩ := hlawful
    cases hd : p.default with
    | text t =>
      rw [hd] at hoption
      have hmem : t ∈ p.options := hoption
      exact .inl (fits_of_admits (by simpa [admits, ht] using hmem) (by simp [ht]))
    | bool b | number x =>
      rw [hd] at hoption
      exact .inr (.choice ht (by rw [hd]; rfl) hoption)
  | text =>
    rw [ht] at hlawful
    obtain ⟨t, hd⟩ := hlawful
    by_cases hadmits : p.admits (.text t)
    · rw [hd]
      exact .inl (fits_of_admits hadmits (by simp [ht]))
    · simp only [admits, ht, Bool.or_eq_true, Bool.not_eq_true', not_or, Bool.not_eq_false,
        Bool.not_eq_true] at hadmits
      exact .inr (.address t ht hadmits.1.1 hd hadmits.1.2 hadmits.2)

theorem Stray.not_fits (h : p.Stray) : ¬p.Fits p.default := by
  intro hfits
  cases h with
  | number x ht hd hfinite _ =>
    rw [(hfits.2 x hd).1] at hfinite
    cases hfinite
  | choice ht hd _ =>
    obtain ⟨t, -, htext⟩ := exists_choice ht hfits.1
    rw [hd] at htext
    cases htext
  | address t ht ha hd hblank haddress =>
    obtain ⟨u, hu, hor⟩ := exists_address ht ha hfits.1
    rw [hd] at hu
    cases hu
    simp [hblank, haddress] at hor

theorem fits_default_iff (h : p.flaw? = none) : p.Fits p.default ↔ ¬p.Stray :=
  ⟨fun hfits hstray ↦ hstray.not_fits hfits, (fits_default_or_stray h).resolve_right⟩

theorem fits_valueOf_iff {s : Selection} (hdefault : p.flaw? = none)
    (h : p.objection? (s.parameters.find? p.id) = none) : p.Fits (Resolved.valueOf p s) ↔
      ¬(p.Stray ∧ ∀ v, s.parameters.find? p.id = some v → v.isBlank) := by
  rw [Resolved.valueOf_eq]
  rw [objection?] at h
  cases hgiven : (s.parameters.find? p.id).filter (!·.isBlank) with
  | some v =>
    obtain ⟨hv, hblank⟩ := Option.filter_eq_some_iff.mp hgiven
    rw [hgiven] at h
    refine iff_of_true (fits_of_valueObjection? h) fun hleft ↦ ?_
    rw [hleft.2 v hv] at hblank
    cases hblank
  | none =>
    have hblank : ∀ v, s.parameters.find? p.id = some v → v.isBlank := by
      simpa using Option.filter_eq_none_iff.mp hgiven
    rw [Option.getD_none, fits_default_iff hdefault, and_iff_left hblank]

end Parameter

namespace Resolved

variable {r : Resolved} {p : Parameter} {v : Value}

/-- Whether reading a parameter by its type gives a value as declared. -/
def Reads (r : Resolved) (p : Parameter) : Prop :=
  match p.type with
  | .number => ∃ x, r.number p.id = .ok x ∧ x.isFinite ∧
    (∀ m, p.min = some m → ¬x < m) ∧ ∀ m, p.max = some m → ¬m < x
  | .boolean => ∃ b, r.boolean p.id = .ok b
  | .select => ∃ t ∈ p.options, r.text p.id = .ok t
  | .text => ∃ t, r.text p.id = .ok t ∧ (p.address → Text.blank t ∨ Address.isAddress t)

theorem get_eq_ok_iff {α : Type} {read : Value → Option α} {id : String} {a : α}
    (hv : r.values.find? id = some v) : r.get read id = .ok a ↔ read v = some a := by
  refine ⟨fun h ↦ ?_, get_eq_ok hv⟩
  rw [get, hv, Option.bind_some] at h
  cases hread : read v with
  | none =>
    rw [hread] at h
    cases h
  | some b =>
    rw [hread] at h
    exact congrArg some (Except.ok.inj h)

theorem reads_iff_fits (hv : r.values.find? p.id = some v) : r.Reads p ↔ p.Fits v := by
  unfold Reads
  cases ht : p.type with
  | number =>
    simp only [number, get_eq_ok_iff hv, ← Parameter.inBounds_iff]
    constructor
    · intro hx
      obtain ⟨x, hx, hfinite, hbounds⟩ := hx
      obtain rfl := Value.asNumber?_eq_some_iff.mp hx
      refine ⟨by simp [Parameter.admits, ht], fun y hy ↦ ?_⟩
      obtain rfl := Value.number.inj hy
      exact ⟨hfinite, hbounds⟩
    · intro h
      obtain ⟨x, hx⟩ := p.exists_number ht h.1
      exact ⟨x, hx, h.2 x (Value.asNumber?_eq_some_iff.mp hx)⟩
  | boolean =>
    simp only [boolean, get_eq_ok_iff hv]
    constructor
    · intro hb
      obtain ⟨b, hb⟩ := hb
      obtain rfl := Value.asBool?_eq_some_iff.mp hb
      exact Parameter.fits_of_admits (by simp [Parameter.admits, ht]) (by simp [ht])
    · exact fun h ↦ p.exists_bool ht h.1
  | select =>
    simp only [text, get_eq_ok_iff hv]
    constructor
    · intro hs
      obtain ⟨s, hoption, hs⟩ := hs
      obtain rfl := Value.asText?_eq_some_iff.mp hs
      exact Parameter.fits_of_admits (by simpa [Parameter.admits, ht] using hoption) (by simp [ht])
    · exact fun h ↦ p.exists_choice ht h.1
  | text =>
    simp only [text, get_eq_ok_iff hv]
    constructor
    · intro hs
      obtain ⟨s, hs, hor⟩ := hs
      obtain rfl := Value.asText?_eq_some_iff.mp hs
      refine Parameter.fits_of_admits ?_ (by simp [ht])
      cases ha : p.address with
      | false => simp [Parameter.admits, ht, ha]
      | true => simpa [Parameter.admits, ht, ha] using hor ha
    · intro h
      cases v with
      | text s => exact ⟨s, rfl, by simpa [Parameter.admits, ht, or_iff_not_imp_left] using h.1⟩
      | bool b | number x => simpa [Parameter.admits, ht] using h.1

end Resolved

namespace Catalog

variable {c : Catalog} {s : Spec} {f : Feature} {selection : Selection} {p : Parameter}

/-- What a valid specification gives a parameter is read as declared, unless the parameter is left
to a stray default. -/
theorem reads_iff_of_validate (hc : c.verify = .ok ()) (hs : c.validate s = .ok ())
    (hf : f ∈ c.features) (hselection : s.selection? f.id = some selection)
    (hp : p ∈ f.parameters) :
    (Resolved.ofSelection f selection).Reads p ↔
      ¬(p.Stray ∧ ∀ v, selection.parameters.find? p.id = some v → v.isBlank) := by
  have hsound := (verify_eq_ok_iff.mp hc).features f hf
  have hobjection := (violations_eq_nil_iff.mp (validate_eq_ok_iff.mp hs)).2 f hf selection
    hselection p hp
  rw [Resolved.reads_iff_fits (Resolved.find?_ofSelection hsound.distinct hp)]
  exact Parameter.fits_valueOf_iff (hsound.parameters p hp) hobjection

/-- A number, a choice and an address, each with a default that is not what it declares. -/
def strayParameters : List Parameter := [
  (Parameter.number "amount" "Amount" .nan).within 0 10 1,
  { Parameter.select "choice" "Choice" [""] "" with default := .bool true },
  { (Parameter.text "account" "Account").ofAddress with default := .text "nobody" }]

def strayFeature : Feature where
  id := "stray"
  kind := .reflection
  parameters := strayParameters

def strayToken (parameters : Dict Value) : Spec where
  name := "Stray"
  symbol := "STR"
  totalSupply := "1000000"
  decimals := 18
  features := Dict.ofList [(strayFeature.id, ⟨true, parameters⟩)]

theorem verify_strayFeature : (⟨[strayFeature]⟩ : Catalog).verify = .ok () := by
  apply verify_of_defect?
  decide +kernel

theorem reads_strayToken_seven :
    let seven := Dict.ofList [("amount", .number 7)]
    let amount := (Parameter.number "amount" "Amount" .nan).within 0 10 1
    (⟨[strayFeature]⟩ : Catalog).verify = .ok () ∧
      (⟨[strayFeature]⟩ : Catalog).validate (strayToken seven) = .ok () ∧
      (strayToken seven).selection? strayFeature.id = some ⟨true, seven⟩ ∧
      amount ∈ strayFeature.parameters ∧
      (Resolved.ofSelection strayFeature ⟨true, seven⟩).Reads amount := by
  intro seven amount
  have hs : (⟨[strayFeature]⟩ : Catalog).validate (strayToken seven) = .ok () :=
    validate_eq_ok_iff.mpr (by decide +kernel)
  have hselection : (strayToken seven).selection? strayFeature.id = some ⟨true, seven⟩ := by
    decide +kernel
  have hp : amount ∈ strayFeature.parameters := List.mem_cons_self
  refine ⟨verify_strayFeature, hs, hselection, hp, ?_⟩
  refine (reads_iff_of_validate verify_strayFeature hs List.mem_cons_self hselection hp).mpr ?_
  intro hleft
  have hblank := hleft.2 (.number 7) (by decide +kernel)
  cases hblank

theorem stray_of_mem_strayParameters : ∀ p ∈ strayParameters, p.Stray := by
  simp only [strayParameters, List.forall_mem_cons, List.not_mem_nil, false_imp_iff, implies_true,
    and_true]
  refine ⟨.number .nan rfl rfl ?_ ?_, .choice rfl rfl ?_, .address "nobody" rfl rfl rfl ?_ ?_⟩ <;>
    decide +kernel

theorem not_reads_strayToken :
    (⟨[strayFeature]⟩ : Catalog).verify = .ok () ∧
      (⟨[strayFeature]⟩ : Catalog).validate (strayToken .empty) = .ok () ∧
      (strayToken .empty).selection? strayFeature.id = some ⟨true, .empty⟩ ∧
      ∀ p ∈ strayFeature.parameters,
        ¬(Resolved.ofSelection strayFeature ⟨true, .empty⟩).Reads p := by
  refine ⟨verify_strayFeature, validate_eq_ok_iff.mpr (by decide +kernel), by decide +kernel,
    fun p hp hreads ↦ ?_⟩
  have hdistinct : (strayFeature.parameters.map (·.id)).Nodup := by decide +kernel
  have hfits := (Resolved.reads_iff_fits (Resolved.find?_ofSelection hdistinct hp)).mp hreads
  have hdefault : Resolved.valueOf p ⟨true, .empty⟩ = p.default := rfl
  rw [hdefault] at hfits
  exact (stray_of_mem_strayParameters p hp).not_fits hfits

end Catalog

end TokenContract
