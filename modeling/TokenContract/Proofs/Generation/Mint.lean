import TokenContract.Proofs.Generation.Supply

namespace TokenContract

open Solidity (constant? numeral)
open Text (trim)

/-- The number that the supply expression of a specification denotes, as a word of the language
holds it. -/
structure Spec.Mints (s : Spec) (n : Nat) : Prop where
  count : n = numeral (trim s.totalSupply).toList * 10 ^ s.decimals.toNat
  value : constant? s.supplyExpression = some (n : ℚ)
  positive : 0 < n
  fits : n < 2 ^ 256

namespace Spec

variable {s : Spec}

def padded (s : Spec) (zeros : Nat) : Spec :=
  { s with totalSupply := String.ofList (List.replicate zeros '0' ++ (trim s.totalSupply).toList) }

theorem Admissible.mints (h : s.Admissible) : s.Mints s.units :=
  ⟨rfl, h.supplied.constant?_supplyExpression, h.supplied.units_pos, h.units_lt⟩

theorem numeral_replicate_append (zeros : Nat) (ds : List Char) :
    numeral (List.replicate zeros '0' ++ ds) = numeral ds := by
  induction zeros with
  | zero => rfl
  | succ zeros ih =>
    rw [← ih, List.replicate_succ, List.cons_append, numeral, Nat.ofDigitChars_cons]
    rfl

theorem isDigit_of_mem_padded {ds : List Char} (h : ∀ c ∈ ds, c.isDigit) {zeros : Nat} :
    ∀ c ∈ List.replicate zeros '0' ++ ds, c.isDigit := by
  intro c hc
  rcases List.mem_append.mp hc with hzero | hdigit
  · rw [List.eq_of_mem_replicate hzero]
    rfl
  · exact h c hdigit

theorem trim_padded (h : ∀ c ∈ (trim s.totalSupply).toList, c.isDigit) (zeros : Nat) :
    (trim (s.padded zeros).totalSupply).toList =
      List.replicate zeros '0' ++ (trim s.totalSupply).toList := by
  rw [Text.toList_trim, padded, String.toList_ofList]
  apply Text.trimChars_eq_self
  intro c hc
  have hdigit := isDigit_of_mem_padded h c hc
  exact Text.isBlank_of_isAlphanum (by simp [Char.isAlphanum, hdigit])

theorem units_padded (h : ∀ c ∈ (trim s.totalSupply).toList, c.isDigit) (zeros : Nat) :
    (s.padded zeros).units = s.units := by
  rw [units, wholeTokens, trim_padded h, numeral_replicate_append]
  rfl

theorem Admissible.padded (h : s.Admissible) (zeros : Nat) : (s.padded zeros).Admissible := by
  have htrim := trim_padded h.totalSupply.digits zeros
  have hnumeral : numeral (trim (s.padded zeros).totalSupply).toList =
      numeral (trim s.totalSupply).toList := by
    rw [htrim, numeral_replicate_append]
  refine ⟨h.name, h.symbol, ?_, h.decimals⟩
  constructor
  · intro hempty
    apply h.totalSupply.nonempty
    rw [hempty] at htrim
    exact String.toList_eq_nil_iff.mp (List.append_eq_nil_iff.mp htrim.symm).2
  · rw [htrim]
    exact isDigit_of_mem_padded h.totalSupply.digits
  · rw [hnumeral]
    exact h.totalSupply.positive
  · rw [hnumeral]
    exact h.totalSupply.fits

end Spec

namespace Catalog

variable {c : Catalog} {s : Spec}

theorem validate_padded (h : c.validate s = .ok ()) (zeros : Nat) :
    c.validate (s.padded zeros) = .ok () := by
  obtain ⟨-, hfeatures⟩ := violations_eq_nil_iff.mp (validate_eq_ok_iff.mp h)
  have hadmissible := (admissible_of_validate h).padded zeros
  rw [validate_eq_ok_iff, violations_eq_nil_iff]
  exact ⟨Spec.admissible_iff.mp hadmissible, hfeatures⟩

/-- Every valid token mints a positive number that fits a word, and it mints the same with any zeros
before its supply. -/
theorem mints_of_validate (h : c.validate s = .ok ()) : ∃ n, s.Mints n ∧
    (∀ settings art, c.generate s settings = .ok art →
      "        _mint(msg.sender, " ++ s.supplyExpression ++ ");" ∈ Text.lines art.sourceText) ∧
    ∀ zeros, c.validate (s.padded zeros) = .ok () ∧ (s.padded zeros).Mints n := by
  have hadmissible := admissible_of_validate h
  refine ⟨s.units, hadmissible.mints, fun settings art ↦ mintLine_mem_lines, fun zeros ↦ ?_⟩
  have hmints := (hadmissible.padded zeros).mints
  rw [Spec.units_padded hadmissible.totalSupply.digits] at hmints
  exact ⟨validate_padded h zeros, hmints⟩

def brimmingToken : Spec where
  name := "Brimming"
  symbol := "BRM"
  totalSupply := " 000" ++ String.ofList (List.replicate 59 '9') ++ "\n"
  decimals := 18
  features := .empty

theorem mints_brimmingToken : standard.validate brimmingToken = .ok () ∧
    ∃ n, brimmingToken.Mints n ∧
      (∀ settings art, standard.generate brimmingToken settings = .ok art →
        "        _mint(msg.sender, " ++ brimmingToken.supplyExpression ++ ");" ∈
          Text.lines art.sourceText) ∧
      ∀ zeros, standard.validate (brimmingToken.padded zeros) = .ok () ∧
        (brimmingToken.padded zeros).Mints n := by
  have hvalid : standard.validate brimmingToken = .ok () :=
    validate_eq_ok_iff.mpr (by decide +kernel)
  exact ⟨hvalid, mints_of_validate hvalid⟩

end Catalog

end TokenContract
