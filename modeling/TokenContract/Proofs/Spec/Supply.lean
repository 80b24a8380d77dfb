import TokenContract.Proofs.Solidity.Constant
import TokenContract.Proofs.Text.Lines
import TokenContract.Proofs.Validation
import TokenContract.Source.Assembly
import Mathlib.Data.Nat.Digits.Lemmas

namespace TokenContract

open Solidity (IsNumeral IsPositive constant? numeral)
open Text (Unbroken toList_trim trim unbroken_append unbroken_of_digits unbroken_of_eq)

namespace Spec

variable {s : Spec}

/-- The number that the supply of a specification stands for, in whole tokens. -/
def wholeTokens (s : Spec) : Nat :=
  numeral (trim s.totalSupply).toList

def units (s : Spec) : Nat :=
  s.wholeTokens * 10 ^ s.decimals.toNat

/-- A supply in digits that stand for a positive number. -/
structure Supplied (s : Spec) : Prop where
  digits : ∀ c ∈ (trim s.totalSupply).toList, c.isDigit
  positive : 0 < s.wholeTokens

theorem Admissible.supplied (h : s.Admissible) : s.Supplied :=
  ⟨h.totalSupply.digits, h.totalSupply.positive⟩

theorem Admissible.units_lt (h : s.Admissible) : s.units < 2 ^ 256 := by
  have hwhole : s.wholeTokens < 10 ^ (Nat.digits 10 s.wholeTokens).length :=
    Nat.lt_base_pow_length_digits (by decide)
  calc s.units
      < 10 ^ (Nat.digits 10 s.wholeTokens).length * 10 ^ s.decimals.toNat :=
        Nat.mul_lt_mul_of_pos_right hwhole (Nat.pow_pos (by decide))
    _ = 10 ^ ((Nat.digits 10 s.wholeTokens).length + s.decimals.toNat) := (Nat.pow_add ..).symm
    _ ≤ 10 ^ 77 := Nat.pow_le_pow_right (by decide) h.totalSupply.fits
    _ < 2 ^ 256 := by decide

def share (s : Spec) (basisPoints : Nat) : String :=
  "(" ++ s.supplyExpression ++ ") * " ++ toString basisPoints ++ " / 10000"

theorem share_environment (s : Spec) (p : Plan) (basisPoints : Nat) :
    (s.environment p).share basisPoints = s.share basisPoints :=
  rfl

theorem toList_supplyExpression (s : Spec) : s.supplyExpression.toList =
    (trim s.totalSupply).toList ++ (" * 10 ** ".toList ++ (toString s.decimals.toNat).toList) := by
  change (trim s.totalSupply ++ " * 10 ** " ++ toString s.decimals.toNat).toList = _
  rw [String.toList_append, String.toList_append, List.append_assoc]

theorem toList_share (s : Spec) (basisPoints : Nat) : (s.share basisPoints).toList =
    '(' :: ((trim s.totalSupply).toList ++ (" * 10 ** ".toList ++
      ((toString s.decimals.toNat).toList ++ (") * ".toList ++
        ((toString basisPoints).toList ++ " / 10000".toList))))) := by
  have hopen : "(".toList = ['('] := rfl
  change ("(" ++ s.supplyExpression ++ ") * " ++ toString basisPoints ++ " / 10000").toList = _
  simp only [String.toList_append, toList_supplyExpression, hopen, List.append_assoc,
    List.cons_append, List.nil_append]

theorem numeral_toString (n : Nat) : numeral (toString n).toList = n := by
  rw [Nat.toString_eq_ofList_toDigits, String.toList_ofList]
  exact ofDigitChars_digitChars n

theorem toList_toString_ne_nil (n : Nat) : (toString n).toList ≠ [] := by
  rw [Nat.toString_eq_ofList_toDigits, String.toList_ofList]
  exact digitChars_ne_nil n

namespace Supplied

theorem nonempty (h : s.Supplied) : (trim s.totalSupply).toList ≠ [] := by
  obtain ⟨c, hc, -⟩ := (Solidity.numeral_pos_iff h.digits).mp h.positive
  exact List.ne_nil_of_mem hc

theorem unbroken_supplyExpression (h : s.Supplied) : Unbroken s.supplyExpression.toList := by
  change Unbroken (trim s.totalSupply ++ " * 10 ** " ++ toString s.decimals.toNat).toList
  rw [unbroken_append, unbroken_append]
  exact ⟨⟨unbroken_of_digits h.digits, unbroken_of_eq rfl (by decide)⟩,
    unbroken_of_digits fun _ hc ↦ isDigit_of_mem_toString hc⟩

theorem units_pos (h : s.Supplied) : 0 < s.units :=
  Nat.mul_pos h.positive (Nat.pow_pos (by decide))

theorem constant?_supplyExpression (h : s.Supplied) :
    constant? s.supplyExpression = some (s.units : ℚ) := by
  have hread := Solidity.constant?_scaled s.toList_supplyExpression h.digits h.nonempty
    (fun _ hc ↦ isDigit_of_mem_toString hc) (toList_toString_ne_nil _)
  rw [hread, numeral_toString, units, Nat.cast_mul, Nat.cast_pow, Nat.cast_ofNat]
  rfl

theorem constant?_share (h : s.Supplied) (basisPoints : Nat) :
    constant? (s.share basisPoints) = some ((s.units * basisPoints : Nat) / 10000 : ℚ) := by
  have hread := Solidity.constant?_share (s.toList_share basisPoints) h.digits h.nonempty
    (fun _ hc ↦ isDigit_of_mem_toString hc) (toList_toString_ne_nil _)
    (fun _ hc ↦ isDigit_of_mem_toString hc) (toList_toString_ne_nil _)
  rw [hread, numeral_toString, numeral_toString, units, Nat.cast_mul, Nat.cast_mul, Nat.cast_pow,
    Nat.cast_ofNat]
  rfl

theorem isPositive_share_iff (h : s.Supplied) {basisPoints : Nat} (hpos : 0 < basisPoints) :
    IsPositive (s.share basisPoints) ↔ 10000 ∣ s.units * basisPoints := by
  rw [IsPositive, h.constant?_share]
  constructor
  · intro hk
    obtain ⟨k, -, hk⟩ := hk
    have hquotient := Option.some.inj hk
    rw [div_eq_iff (by norm_num)] at hquotient
    have hproduct : s.units * basisPoints = k * 10000 := by exact_mod_cast hquotient
    exact ⟨k, by rw [hproduct, Nat.mul_comm]⟩
  · intro hdvd
    obtain ⟨k, hk⟩ := hdvd
    have hunits := Nat.mul_pos h.units_pos hpos
    refine ⟨k, by omega, ?_⟩
    rw [hk, Nat.cast_mul, Nat.cast_ofNat, mul_div_cancel_left₀ _ (by norm_num)]

theorem isPositive_share (h : s.Supplied) (hdecimals : 4 ≤ s.decimals.toNat) {basisPoints : Nat}
    (hpos : 0 < basisPoints) : IsPositive (s.share basisPoints) := by
  have hpower : 10000 ∣ 10 ^ s.decimals.toNat := pow_dvd_pow 10 hdecimals
  rw [h.isPositive_share_iff hpos]
  exact (hpower.mul_left s.wholeTokens).mul_right basisPoints

theorem isNumeral_iff (h : s.Supplied) :
    IsNumeral (trim s.totalSupply).toList ↔ (trim s.totalSupply).toList.head? ≠ some '0' :=
  Solidity.isNumeral_iff_of_pos h.digits h.positive

end Supplied

end Spec

end TokenContract
