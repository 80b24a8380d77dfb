import TokenContract.Number.Shortest
import Mathlib.Algebra.Order.Ring.Rat
import Mathlib.Data.Nat.Log
import Mathlib.Tactic.Linarith

namespace TokenContract.Binary64

variable {m n : Nat}

theorem gapAbove_pos (n : Nat) : 0 < gapAbove n :=
  Nat.two_pow_pos _

theorem gapAbove_le (hn : 0 < n) : gapAbove n ≤ n := by
  have hpow : 2 ^ (Nat.log2 n - 52) ≤ 2 ^ Nat.log2 n :=
    Nat.pow_le_pow_right (by omega) (Nat.sub_le _ _)
  exact hpow.trans (Nat.log2_self_le hn.ne')

theorem gapBelow_le_gapAbove (n : Nat) : gapBelow n ≤ gapAbove n := by
  unfold gapBelow
  split
  · exact Nat.div_le_self _ _
  · exact le_rfl

theorem gapAbove_dvd (hn : 0 < n) (h : Representable n) : gapAbove n ∣ n := by
  obtain ⟨-, a, k, ha, he⟩ := h
  have hk : Nat.log2 n - 52 ≤ k := by
    by_contra hlt
    have hself := Nat.log2_self_le hn.ne'
    have hpow : 2 ^ (53 + k) ≤ 2 ^ Nat.log2 n := Nat.pow_le_pow_right (by omega) (by omega)
    have hlow : a * 2 ^ k < 2 ^ 53 * 2 ^ k := Nat.mul_lt_mul_of_pos_right ha (Nat.two_pow_pos k)
    rw [← pow_add, ← he] at hlow
    omega
  have hdvd : 2 ^ (Nat.log2 n - 52) ∣ 2 ^ k := Nat.pow_dvd_pow 2 hk
  exact hdvd.trans (he ▸ Nat.dvd_mul_left (2 ^ k) a)

theorem log2_le_log2 (hn : 0 < n) (h : n ≤ m) : Nat.log2 n ≤ Nat.log2 m :=
  (Nat.le_log2 (by omega)).mpr ((Nat.log2_self_le hn.ne').trans h)

theorem gapAbove_dvd_gapAbove (hn : 0 < n) (h : n ≤ m) : gapAbove n ∣ gapAbove m := by
  have hlog := log2_le_log2 hn h
  exact Nat.pow_dvd_pow 2 (by omega)

theorem lt_mul_gapAbove (n : Nat) : n < 2 ^ 53 * gapAbove n := by
  have hself : n < 2 ^ (Nat.log2 n + 1) := Nat.lt_log2_self
  have hpow : 2 ^ (Nat.log2 n + 1) ≤ 2 ^ (53 + (Nat.log2 n - 52)) :=
    Nat.pow_le_pow_right (by omega) (by omega)
  rw [gapAbove, ← pow_add]
  omega

theorem le_mul_gaps (n : Nat) : n ≤ 2 ^ 52 * (gapAbove n + gapBelow n) := by
  have hlt := lt_mul_gapAbove n
  unfold gapBelow
  split
  · rename_i hpow
    have heq : n = 2 ^ 52 * gapAbove n := by
      rw [gapAbove, ← pow_add, show 52 + (Nat.log2 n - 52) = Nat.log2 n by omega]
      exact hpow.1
    omega
  · omega

/-- The quotient of a double by its distance tells its last binary digit. -/
def Even (n : Nat) : Prop :=
  n / gapAbove n % 2 = 0

theorem add_le_of_dvd {g : Nat} (hn : g ∣ n) (hm : g ∣ m) (h : n < m) : n + g ≤ m := by
  have hle := Nat.le_of_dvd (by omega) (Nat.dvd_sub hm hn)
  omega

theorem not_even_of_gap_eq (hn : gapAbove n ∣ n) (hgap : gapAbove n = gapAbove m)
    (h : m = n + gapAbove n) : ¬(Even n ∧ Even m) := by
  obtain ⟨a, ha⟩ := hn
  have hpos := gapAbove_pos n
  have hna : n / gapAbove n = a := Nat.div_eq_of_eq_mul_right hpos ha
  have hma : m / gapAbove m = a + 1 := by
    rw [← hgap, h, Nat.add_div_right _ hpos, hna]
  unfold Even
  rw [hna, hma]
  omega

theorem apart_of_gap_eq (hn : 0 < n) (h : n < m) (hrn : Representable n) (hrm : Representable m)
    (hgap : gapAbove n = gapAbove m) :
    2 * n + gapAbove n + gapBelow m ≤ 2 * m ∧
      (2 * n + gapAbove n + gapBelow m = 2 * m → ¬(Even n ∧ Even m)) := by
  have hdvd := gapAbove_dvd hn hrn
  have hbelow := gapBelow_le_gapAbove m
  have hle := add_le_of_dvd hdvd (hgap ▸ gapAbove_dvd (by omega) hrm) h
  refine ⟨by omega, fun heq ↦ ?_⟩
  exact not_even_of_gap_eq hdvd hgap (by omega)

theorem apart_of_two_pow (hn : 0 < n) (hlog : Nat.log2 n < Nat.log2 m) (hpow : m = 2 ^ Nat.log2 m)
    (hlarge : 53 ≤ Nat.log2 m) (hrn : Representable n) :
    2 * n + gapAbove n + gapBelow m ≤ 2 * m ∧
      (2 * n + gapAbove n + gapBelow m = 2 * m → ¬(Even n ∧ Even m)) := by
  have hbelow : gapBelow m = 2 ^ (Nat.log2 m - 53) := by
    rw [gapBelow, if_pos ⟨hpow, hlarge⟩, gapAbove,
      show Nat.log2 m - 52 = Nat.log2 m - 53 + 1 by omega, pow_succ]
    omega
  have hm : m = 2 ^ 53 * gapBelow m := by
    rw [hbelow, ← pow_add, show 53 + (Nat.log2 m - 53) = Nat.log2 m by omega]
    exact hpow
  have hgap : gapAbove n ≤ gapBelow m := by
    rw [hbelow, gapAbove]
    exact Nat.pow_le_pow_right (by omega) (by omega)
  have hself : n < 2 ^ (Nat.log2 n + 1) := Nat.lt_log2_self
  have hle : n + gapBelow m ≤ m := by
    rcases Nat.lt_or_ge (Nat.log2 n + 1) (Nat.log2 m) with hlt | hge
    · have hhalf : 2 ^ (Nat.log2 n + 1) ≤ 2 ^ (52 + (Nat.log2 m - 53)) :=
        Nat.pow_le_pow_right (by omega) (by omega)
      rw [pow_add 2 52, ← hbelow] at hhalf
      omega
    · have hsame : gapAbove n = gapBelow m := by
        rw [hbelow, gapAbove, show Nat.log2 n - 52 = Nat.log2 m - 53 by omega]
      have hlt : n < m := by
        have hle : 2 ^ (Nat.log2 n + 1) ≤ 2 ^ Nat.log2 m :=
          Nat.pow_le_pow_right (by omega) (by omega)
        omega
      rw [← hsame]
      exact add_le_of_dvd (gapAbove_dvd hn hrn) (hsame ▸ Dvd.intro_left _ hm.symm) hlt
  refine ⟨by omega, fun heq heven ↦ ?_⟩
  have hsame : gapAbove n = gapBelow m := by omega
  have hn' : n = (2 ^ 53 - 1) * gapAbove n := by omega
  have hodd : n / gapAbove n = 2 ^ 53 - 1 := Nat.div_eq_of_eq_mul_left (gapAbove_pos n) hn'
  have he := heven.1
  unfold Even at he
  rw [hodd] at he
  omega

theorem apart_of_not_two_pow (h : n < 2 ^ Nat.log2 m) (hm : 0 < m) (hpow : m ≠ 2 ^ Nat.log2 m)
    (hgap : gapAbove n ≤ gapAbove m) (hrm : Representable m) :
    2 * n + gapAbove n + gapBelow m < 2 * m := by
  have hbelow := gapBelow_le_gapAbove m
  have hself := Nat.log2_self_le hm.ne'
  have hdvd : gapAbove m ∣ 2 ^ Nat.log2 m := Nat.pow_dvd_pow 2 (Nat.sub_le _ _)
  have hle := add_le_of_dvd hdvd (gapAbove_dvd hm hrm) (by omega)
  omega

/-- The intervals of two doubles meet at most in an end, which belongs to one of them only. -/
theorem gaps_apart (hn : 0 < n) (h : n < m) (hrn : Representable n) (hrm : Representable m) :
    2 * n + gapAbove n + gapBelow m ≤ 2 * m ∧
      (2 * n + gapAbove n + gapBelow m = 2 * m → ¬(Even n ∧ Even m)) := by
  by_cases hgap : gapAbove n = gapAbove m
  · exact apart_of_gap_eq hn h hrn hrm hgap
  · have hlog : Nat.log2 n < Nat.log2 m := by
      refine lt_of_le_of_ne (log2_le_log2 hn h.le) fun he ↦ hgap ?_
      rw [gapAbove, gapAbove, he]
    have hlarge : 53 ≤ Nat.log2 m := by
      by_contra hsmall
      exact hgap (by rw [gapAbove, gapAbove, show Nat.log2 n - 52 = Nat.log2 m - 52 by omega])
    by_cases hpow : m = 2 ^ Nat.log2 m
    · exact apart_of_two_pow hn hlog hpow hlarge hrn
    · have hself : n < 2 ^ (Nat.log2 n + 1) := Nat.lt_log2_self
      have hle : 2 ^ (Nat.log2 n + 1) ≤ 2 ^ Nat.log2 m := Nat.pow_le_pow_right (by omega) hlog
      have hgaps := Nat.le_of_dvd (gapAbove_pos m) (gapAbove_dvd_gapAbove hn h.le)
      have hlt := apart_of_not_two_pow (hself.trans_le hle) (by omega) hpow hgaps hrm
      exact ⟨hlt.le, fun heq ↦ absurd heq hlt.ne⟩

end TokenContract.Binary64
