import TokenContract.Validation
import TokenContract.Proofs.Address
import TokenContract.Proofs.Solidity.Constant
import TokenContract.Proofs.Spec.Identifier
import TokenContract.Proofs.Text.Blank

namespace TokenContract

open Solidity (numeral)
open Text (isBlank isControl mem_of_mem_trimChars mem_trimChars toList_trim trim trimChars)

theorem ite_some_eq_none_iff {α : Type} {p : Prop} [Decidable p] {a : α} {o : Option α} :
    (if p then some a else o) = none ↔ ¬p ∧ o = none := by
  by_cases hp : p
  · simp [hp]
  · simp [hp]

section Attributes

/-- A name that can stand in a string literal, with a character for the identifier. -/
structure IsName (name : String) : Prop where
  nonempty : trim name ≠ ""
  plain : ∀ c ∈ (trim name).toList, c ≠ '"' ∧ c ≠ '\\' ∧ isControl c = false
  usable : ∃ c ∈ (trim name).toList, c.isAlphanum ∨ c = '_'

structure IsSymbol (symbol : String) : Prop where
  nonempty : trim symbol ≠ ""
  alphanum : ∀ c ∈ (trim symbol).toList, c.isAlphanum
  short : (trim symbol).length ≤ 11

/-- A supply in digits of a positive number, with few enough of them for the decimals. -/
structure IsSupply (supply : String) (decimals : Nat) : Prop where
  nonempty : trim supply ≠ ""
  digits : ∀ c ∈ (trim supply).toList, c.isDigit
  positive : 0 < numeral (trim supply).toList
  fits : (Nat.digits 10 (numeral (trim supply).toList)).length + decimals ≤ 77

structure Spec.Admissible (s : Spec) : Prop where
  name : IsName s.name
  symbol : IsSymbol s.symbol
  totalSupply : IsSupply s.totalSupply s.decimals.toNat
  decimals : s.decimals.toNat ≤ 18

theorem isBlank_of_isNameChar {c : Char} (h : isNameChar c = true) : isBlank c = false := by
  rcases isNameChar_iff.mp h with halphanum | rfl
  · exact Text.isBlank_of_isAlphanum halphanum
  · decide

theorem identifierOf_ne_empty_iff {name : String} : identifierOf name ≠ "" ↔
    ∃ c ∈ (trim name).toList, c.isAlphanum ∨ c = '_' := by
  simp only [← isNameChar_iff, toList_trim, ne_eq, identifierOf_eq_empty_iff, List.filter_eq_nil_iff]
  push Not
  refine exists_congr fun c ↦ and_congr_left fun hc ↦ ?_
  exact ⟨fun hmem ↦ mem_trimChars hmem (isBlank_of_isNameChar hc), mem_of_mem_trimChars⟩

theorem nameObjection?_eq_none_iff {name : String} :
    nameObjection? name = none ↔ IsName name := by
  have hplain : ¬(trimChars name.toList).any isForbidden = true ↔
      ∀ c ∈ (trim name).toList, c ≠ '"' ∧ c ≠ '\\' ∧ isControl c = false := by
    simp [isForbidden, and_assoc]
  have hempty : ¬trimChars name.toList = [] ↔ trim name ≠ "" := by
    rw [← toList_trim, String.toList_eq_nil_iff]
  simp only [nameObjection?, ite_some_eq_none_iff, and_true]
  rw [hempty, hplain, ← ne_eq, identifierOf_ne_empty_iff]
  exact ⟨fun ⟨hne, hplain, husable⟩ ↦ ⟨hne, hplain, husable⟩,
    fun h ↦ ⟨h.nonempty, h.plain, h.usable⟩⟩

theorem symbolObjection?_eq_none_iff {symbol : String} :
    symbolObjection? symbol = none ↔ IsSymbol symbol := by
  have halphanum : ¬(!(trimChars symbol.toList).all Char.isAlphanum) = true ↔
      ∀ c ∈ (trim symbol).toList, c.isAlphanum := by
    simp
  have hempty : ¬trimChars symbol.toList = [] ↔ trim symbol ≠ "" := by
    rw [← toList_trim, String.toList_eq_nil_iff]
  have hshort : ¬maxSymbolLength < (trimChars symbol.toList).length ↔ (trim symbol).length ≤ 11 := by
    rw [← toList_trim, String.length_toList, Nat.not_lt, maxSymbolLength]
  simp only [symbolObjection?, ite_some_eq_none_iff, and_true]
  rw [hempty, halphanum, hshort]
  exact ⟨fun ⟨hne, halphanum, hshort⟩ ↦ ⟨hne, halphanum, hshort⟩,
    fun h ↦ ⟨h.nonempty, h.alphanum, h.short⟩⟩

theorem numeral_ne_zero_iff {ds : List Char} (h : ∀ c ∈ ds, c.isDigit) :
    numeral ds ≠ 0 ↔ ds.dropWhile (· == '0') ≠ [] := by
  rw [← Nat.digits_ne_nil_iff_ne_zero (b := 10), ← List.length_pos_iff, ← List.length_pos_iff,
    Solidity.length_digits_numeral h]

theorem supplyObjection?_eq_none_iff {supply : String} {decimals : Nat} :
    supplyObjection? supply decimals = none ↔ IsSupply supply decimals := by
  have hrule : supplyObjection? supply decimals = none ↔
      (∀ c ∈ (trim supply).toList, c.isDigit) ∧
        (trim supply).toList.dropWhile (· == '0') ≠ [] ∧
        ((trim supply).toList.dropWhile (· == '0')).length + decimals ≤ 77 := by
    rw [toList_trim]
    cases hdigits : (trimChars supply.toList).dropWhile (· == '0') with
    | nil =>
      simp only [supplyObjection?, hdigits, ite_some_eq_none_iff]
      simp
    | cons d ds =>
      have hempty : trimChars supply.toList ≠ [] := fun hnil ↦ by
        rw [hnil] at hdigits
        cases hdigits
      simp only [supplyObjection?, hdigits, ite_some_eq_none_iff]
      simp [hempty, maxSupplyDigits]
  rw [hrule]
  constructor
  · intro h
    obtain ⟨hdigits, hne, hfits⟩ := h
    rw [← Solidity.length_digits_numeral hdigits] at hfits
    refine ⟨fun hempty ↦ hne ?_, hdigits,
      Nat.pos_of_ne_zero ((numeral_ne_zero_iff hdigits).mpr hne), hfits⟩
    rw [hempty]
    rfl
  · intro h
    exact ⟨h.digits, (numeral_ne_zero_iff h.digits).mp h.positive.ne',
      Solidity.length_digits_numeral h.digits ▸ h.fits⟩

theorem decimalsObjection?_eq_none_iff {decimals : Nat} :
    decimalsObjection? decimals = none ↔ decimals ≤ 18 := by
  rw [decimalsObjection?, ite_some_eq_none_iff, and_iff_left rfl, Nat.not_lt, maxDecimals]

theorem Spec.admissible_iff {s : Spec} :
    s.Admissible ↔ ∀ f ∈ s.tokenFields, f.objection? = none := by
  simp only [tokenFields, List.forall_mem_cons, List.not_mem_nil, false_imp_iff, implies_true,
    and_true, nameObjection?_eq_none_iff, symbolObjection?_eq_none_iff,
    supplyObjection?_eq_none_iff, decimalsObjection?_eq_none_iff]
  exact ⟨fun h ↦ ⟨h.name, h.symbol, h.totalSupply, h.decimals⟩,
    fun ⟨hname, hsymbol, hsupply, hdecimals⟩ ↦ ⟨hname, hsymbol, hsupply, hdecimals⟩⟩

end Attributes

namespace Parameter

variable {p : Parameter}

/-- A number that lies a whole number of steps above the least, give or take a millionth of a step. -/
def OnGrid (least step x : Binary64) : Prop :=
  let steps := (x - least) / step
  ¬0.000001 < (steps - steps.round).abs

/-- Whether a value keeps to what a parameter says of its type, its bounds, its step, its options and
of addresses. -/
def Accepts (p : Parameter) (v : Value) : Prop :=
  match p.type with
  | .number => ∃ x, v = .number x ∧ x.isFinite ∧ (∀ m, p.min = some m → ¬x < m) ∧
    (∀ m, p.max = some m → ¬m < x) ∧
      ∀ step, p.step = some step → 0 < step → OnGrid (p.min.getD 0) step x
  | .boolean => ∃ b, v = .bool b
  | .select => ∃ t ∈ p.options, v = .text t
  | .text => ∃ t, v = .text t ∧ (p.address → ∃ ds, Address.Spells t ds)

/-- A parameter is violated if it is mandatory and has no value or a blank one, or if it has a value
that is not blank and that it does not accept. -/
def Violated (p : Parameter) (given : Option Value) : Prop :=
  (p.required ∧ ∀ v, given = some v → v.isBlank) ∨
    ∃ v, given = some v ∧ v.isBlank = false ∧ ¬p.Accepts v

theorem onStep_iff {step x : Binary64} : p.onStep step x = true ↔ OnGrid (p.min.getD 0) step x := by
  rw [onStep, Bool.not_eq_true', decide_eq_false_iff_not]
  rfl

theorem numberObjection?_eq_none_iff {x : Binary64} : p.numberObjection? x = none ↔
    x.isFinite ∧ (∀ m, p.min = some m → ¬x < m) ∧ (∀ m, p.max = some m → ¬m < x) ∧
      ∀ step, p.step = some step → 0 < step → OnGrid (p.min.getD 0) step x := by
  rw [numberObjection?, ite_some_eq_none_iff]
  simp only [Option.orElse_eq_orElse, Option.orElse_eq_or, Option.or_eq_none_iff,
    Option.map_eq_none_iff, Option.filter_eq_none_iff]
  simp [onStep_iff]

theorem valueObjection?_eq_none_iff {v : Value} : p.valueObjection? v = none ↔ p.Accepts v := by
  unfold valueObjection? Accepts
  cases ht : p.type with
  | number =>
    cases v with
    | number x => simp [numberObjection?_eq_none_iff]
    | bool b | text t => simp
  | boolean =>
    cases v with
    | bool b => simp
    | number x | text t => simp
  | select =>
    cases v with
    | text t => simp
    | bool b | number x => simp
  | text =>
    cases v with
    | text t => simp [Address.isAddress_iff]
    | bool b | number x => simp

theorem objection?_eq_none_iff {given : Option Value} :
    p.objection? given = none ↔ ¬p.Violated given := by
  cases given with
  | none => simp [objection?, Violated]
  | some v =>
    cases hv : v.isBlank with
    | true => simp [objection?, Violated, Option.filter, hv]
    | false => simp [objection?, Violated, Option.filter, hv, valueObjection?_eq_none_iff]

end Parameter

theorem Field.violation?_eq_none_iff {f : Field} : f.violation? = none ↔ f.objection? = none :=
  Option.map_eq_none_iff

namespace Catalog

def featureFields (s : Spec) (f : Feature) : List Field :=
  match s.selection? f.id with
  | some selection => f.fields selection
  | none => []

theorem violations_eq (c : Catalog) (s : Spec) :
    c.violations s = s.tokenFields.filterMap Field.violation? ++
      c.features.flatMap fun f ↦ (featureFields s f).filterMap Field.violation? := by
  rw [violations, fields, List.filterMap_append, List.filterMap_flatMap]
  rfl

theorem violations_eq_nil_iff {c : Catalog} {s : Spec} :
    c.violations s = [] ↔ (∀ f ∈ s.tokenFields, f.objection? = none) ∧
      ∀ f ∈ c.features, ∀ selection, s.selection? f.id = some selection →
        ∀ p ∈ f.parameters, p.objection? (selection.parameters.find? p.id) = none := by
  rw [violations_eq, List.append_eq_nil_iff, List.filterMap_eq_nil_iff, List.flatMap_eq_nil_iff]
  refine and_congr (forall₂_congr fun _ _ ↦ Field.violation?_eq_none_iff) ?_
  refine forall₂_congr fun f _ ↦ ?_
  rw [List.filterMap_eq_nil_iff, featureFields]
  cases hs : s.selection? f.id with
  | none => simp
  | some selection => simp [Feature.fields, Field.violation?_eq_none_iff]

end Catalog

end TokenContract
