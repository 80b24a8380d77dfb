import TokenContract.Proofs.Number.Finite

namespace TokenContract

-- Powers are those of the core library, whatever else is in scope.
attribute [local instance (high)] instPowNat

theorem divNearest_mul (a : Nat) {d : Nat} (hd : 0 < d) : divNearest (a * d) d = a := by
  simp only [divNearest, Nat.mul_div_cancel a hd, Nat.mul_mod_left, Nat.mul_zero, if_pos hd]

namespace Binary64

theorem nearestUnits_mul_of_form {m k den : Nat} (hm : m < 2 ^ (53 : Nat)) (hden : 0 < den) :
    nearestUnits (m * 2 ^ k * den) den = m * 2 ^ k := by
  have hexcess : excess (m * 2 ^ k * den) den ≤ k := by
    by_cases hzero : m = 0
    · simp [hzero, excess]
    · have hpos : m * 2 ^ k ≠ 0 := Nat.mul_ne_zero hzero (Nat.two_pow_pos k).ne'
      have hlog : Nat.log2 (m * 2 ^ k) < 53 + k := by
        rw [Nat.log2_lt hpos, Nat.pow_add]
        exact Nat.mul_lt_mul_of_pos_right hm (Nat.two_pow_pos k)
      rw [excess, Nat.mul_div_cancel _ hden]
      omega
  rw [nearestUnits]
  generalize excess (m * 2 ^ k * den) den = e at hexcess ⊢
  have hsplit : m * 2 ^ k = m * 2 ^ (k - e) * 2 ^ e := by
    rw [Nat.mul_assoc, ← Nat.pow_add, Nat.sub_add_cancel hexcess]
  have hscale : m * 2 ^ k * den = m * 2 ^ (k - e) * (den * 2 ^ e) := by
    rw [hsplit, Nat.mul_assoc, Nat.mul_comm (2 ^ e) den]
  rw [hscale, divNearest_mul _ (Nat.mul_pos hden (Nat.two_pow_pos e)), ← hsplit]

theorem nearestUnits_of_form {m k : Nat} (hm : m < 2 ^ (53 : Nat)) :
    nearestUnits (m * 2 ^ k) 1 = m * 2 ^ k := by
  have hself := nearestUnits_mul_of_form (k := k) hm Nat.one_pos
  rwa [Nat.mul_one] at hself

theorem one_le_nearestUnits {n : Nat} (hn : 0 < n) : one ≤ nearestUnits (n * one) 1 := by
  by_cases hone : n = 1
  · rw [hone, one, nearestUnits_of_form (by decide), Nat.one_mul]
  · have hmul := Nat.mul_le_mul_right one (show 2 ≤ n by omega)
    have hge := le_nearestUnits (n * one) 1
    rw [Nat.div_one] at hge
    omega

theorem truncate_ofRatio_pos {num den : Nat} (h : one ≤ nearestUnits num den) :
    0 < (ofRatio false num den).truncate := by
  have hword : 0 < maxWord := by decide
  by_cases hlt : nearestUnits num den < limit
  · obtain ⟨hn, hratio⟩ := ofRatio_of_lt hlt false
    rw [hratio]
    exact lt_min (Nat.div_pos h one_pos) hword
  · rw [ofRatio, dif_neg hlt]
    exact hword

theorem not_lt_finite_iff {s t : Bool} {m n : Nat} {hm : Representable m} {hn : Representable n} :
    ¬(finite s m hm < finite t n hn : Prop) ↔ signed t n ≤ signed s m := by
  rw [← Int.not_lt]
  exact not_congr decide_eq_true_iff

theorem not_lt_trans {x y z : Binary64} (hx : x.isFinite = true) (hy : y.isFinite = true)
    (hz : z.isFinite = true) (hxy : ¬x < y) (hyz : ¬y < z) : ¬x < z := by
  cases x with
  | nan | infinite s => cases hx
  | finite s m hm =>
    cases y with
    | nan | infinite t => cases hy
    | finite t n hn =>
      cases z with
      | nan | infinite u => cases hz
      | finite u k hk =>
        rw [not_lt_finite_iff] at hxy hyz ⊢
        exact Int.le_trans hyz hxy

theorem toWord_ofRatio_pos {num den : Nat} (h : one ≤ 2 * nearestUnits num den) :
    0 < (ofRatio false num den).toWord := by
  have hone := one_pos
  by_cases hlt : nearestUnits num den < limit
  · obtain ⟨hn, hratio⟩ := ofRatio_of_lt hlt false
    have hpositive : (finite false (nearestUnits num den) hn).positivePart =
        finite false (nearestUnits num den) hn := by
      refine if_pos (not_not.mp fun hnot ↦ ?_)
      have hle := not_lt_finite_iff.mp hnot
      simp only [signed, Bool.false_eq_true, if_false] at hle
      omega
    rw [hratio, toWord, hpositive, round]
    refine truncate_ofRatio_pos (one_le_nearestUnits (Nat.div_pos ?_ hone))
    omega
  · have hword : 0 < maxWord := by decide
    rw [ofRatio, dif_neg hlt]
    exact hword

theorem exists_hundred : ∃ hn, (100 : Binary64) = finite false (100 * one) hn := by
  have hform : nearestUnits (100 * one) 1 = 100 * one := by
    rw [one, nearestUnits_of_form (by decide)]
  have hlimit : nearestUnits (100 * one) 1 < limit := by
    rw [hform]
    exact (Nat.mul_le_mul_right one (by decide)).trans_lt ceiling_lt_limit
  obtain ⟨hn, hratio⟩ := ofRatio_of_lt hlimit false
  simp only [hform] at hratio
  have hhundred : (100 : Binary64) = ofNat 100 := rfl
  rw [hhundred, ofNat]
  exact ⟨_, hratio⟩

theorem exists_hundredth :
    ∃ n hn, (0.01 : Binary64) = finite false n hn ∧ one ≤ 100 * n := by
  have hlimit : nearestUnits (1 * one) (10 ^ (1 + 1)) < limit := by decide +kernel
  obtain ⟨hn, hratio⟩ := ofRatio_of_lt hlimit false
  have hhundredth : (0.01 : Binary64) = ofDecimal false 1 (.negSucc 1) := rfl
  rw [hhundredth, ofDecimal]
  exact ⟨_, hn, hratio, by decide +kernel⟩

theorem toWord_mul_hundred_pos {x : Binary64} (hx : x.isFinite = true) (h : ¬x < 0.01) :
    0 < (x * 100).toWord := by
  obtain ⟨hn, hhundred⟩ := exists_hundred
  obtain ⟨n, hn', hhundredth, hone⟩ := exists_hundredth
  cases x with
  | nan | infinite s => cases hx
  | finite s m hm =>
    rw [hhundredth, not_lt_finite_iff] at h
    have hpos := one_pos
    -- Nothing negative is above a hundredth.
    obtain ⟨rfl, hle⟩ : s = false ∧ n ≤ m := by
      cases s with
      | false => simpa [signed] using h
      | true =>
        simp only [signed, Bool.false_eq_true, if_false, if_true] at h
        omega
    have hproduct : m * (100 * one) / one = 100 * m := by
      rw [← Nat.mul_assoc, Nat.mul_div_cancel _ hpos, Nat.mul_comm]
    have hge := le_nearestUnits (m * (100 * one)) one
    rw [hproduct] at hge
    rw [hhundred, finite_mul]
    refine toWord_ofRatio_pos ?_
    omega

end Binary64

end TokenContract
