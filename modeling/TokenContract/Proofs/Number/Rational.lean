import TokenContract.Proofs.Number.Words
import Mathlib.Algebra.Order.Field.Basic
import Mathlib.Algebra.Order.Group.MinMax
import Mathlib.Algebra.Order.Ring.Rat
import Mathlib.Tactic.FieldSimp
import Mathlib.Tactic.Linarith
import Mathlib.Tactic.NormNum
import Mathlib.Tactic.Positivity
import Mathlib.Tactic.Ring

namespace TokenContract

-- Powers are those of the core library, whatever else is in scope.
attribute [local instance (high)] instPowNat

theorem Binary64.one_eq_two_pow : one = 2 ^ places :=
  rfl

-- More bits than are worth writing out.
attribute [local irreducible] Binary64.one

theorem divNearest_bounds (num : Nat) {den : Nat} (h : 0 < den) :
    2 * (divNearest num den * den) ≤ 2 * num + den ∧
      2 * num ≤ 2 * (divNearest num den * den) + den := by
  have hdivision := Nat.div_add_mod' num den
  have hrest := Nat.mod_lt num h
  simp only [divNearest]
  split
  · omega
  · split
    · rw [Nat.add_mul]
      omega
    · -- Of two neighbours equally near, either will do.
      obtain heven | hodd := Nat.mod_two_eq_zero_or_one (num / den)
      · rw [heven, Nat.add_zero]
        omega
      · rw [hodd, Nat.add_mul]
        omega

namespace Binary64

variable {x y : Binary64} {s t : Bool} {m n : Nat}

theorem excess_le {num den k : Nat} (h : num / den < 2 ^ (53 + k)) : excess num den ≤ k := by
  rw [excess]
  rcases Nat.eq_zero_or_pos (num / den) with hzero | hpos
  · simp [hzero]
  · have hlog := (Nat.log2_lt hpos.ne').mpr h
    omega

theorem nearestUnits_bounds {num den k : Nat} (hden : 0 < den) (h : num / den < 2 ^ (53 + k)) :
    2 * (nearestUnits num den * den) ≤ 2 * num + den * 2 ^ k ∧
      2 * num ≤ 2 * (nearestUnits num den * den) + den * 2 ^ k := by
  have hbounds := divNearest_bounds num (Nat.mul_pos hden (Nat.two_pow_pos (excess num den)))
  have hunit : den * 2 ^ excess num den ≤ den * 2 ^ k :=
    Nat.mul_le_mul_left den (Nat.pow_le_pow_right Nat.two_pos (excess_le h))
  have hproduct : nearestUnits num den * den =
      divNearest num (den * 2 ^ excess num den) * (den * 2 ^ excess num den) := by
    rw [nearestUnits, Nat.mul_assoc, Nat.mul_comm (2 ^ excess num den)]
  rw [hproduct]
  omega

def toRat : Binary64 → ℚ
  | .finite s n _ => (signed s n : ℚ) / one
  | _ => 0

theorem toRat_finite (hn : Representable n) : (finite s n hn).toRat = (signed s n : ℚ) / one :=
  rfl

/-- A finite number no further than `ε` from `q`. -/
structure Near (x : Binary64) (q ε : ℚ) : Prop where
  finite : x.isFinite = true
  error : |x.toRat - q| ≤ ε

theorem one_cast_pos : (0 : ℚ) < one :=
  Nat.cast_pos.mpr one_pos

theorem exists_finite (h : x.isFinite = true) : ∃ s n hn, x = finite s n hn := by
  cases x with
  | nan | infinite s => cases h
  | finite s n hn => exact ⟨s, n, hn, rfl⟩

theorem abs_signed (s : Bool) (n : Nat) : |(signed s n : ℚ)| = n := by
  cases s with
  | false => simp [signed]
  | true => simp [signed]

theorem lt_of_abs_toRat_lt {hn : Representable n} {k : Nat}
    (h : |(finite s n hn).toRat| < 2 ^ k) : n < 2 ^ k * one := by
  rw [toRat_finite, abs_div, abs_signed, abs_of_pos one_cast_pos, div_lt_iff₀ one_cast_pos] at h
  exact_mod_cast h

theorem natAbs_signed (s : Bool) (n : Nat) : (signed s n).natAbs = n := by
  cases s with
  | false => simp [signed]
  | true => simp [signed]

theorem signed_natAbs (d : Int) : signed (decide (d < 0)) d.natAbs = d := by
  by_cases h : d < 0
  · simp only [h, decide_true, signed, if_true]
    omega
  · simp only [h, decide_false, signed, Bool.false_eq_true, if_false]
    omega

theorem signed_mul_signed (s t : Bool) (m n : Nat) :
    signed s m * signed t n = signed (s != t) (m * n) := by
  cases s with
  | false => cases t <;> simp [signed]
  | true => cases t <;> simp [signed]

theorem signed_eq (s : Bool) (n : Nat) : (signed s n : ℚ) = signed s 1 * n := by
  cases s with
  | false => simp [signed]
  | true => simp [signed]

theorem lt_limit_of_lt {num den k : Nat} (hk : k ≤ 64) (h : num / den < 2 ^ k * one) :
    nearestUnits num den < limit := by
  have hone := one_pos
  have hword : 2 ^ k * one ≤ 2 ^ (64 : Nat) * one :=
    Nat.mul_le_mul_right one (Nat.pow_le_pow_right Nat.two_pos hk)
  have hle := nearestUnits_le num den
  refine lt_of_le_of_lt ?_ ceiling_lt_limit
  rw [ceiling]
  omega

def grain : Nat := 2 ^ (places - 53)

theorem two_pow_mul_one (k : Nat) : 2 ^ k * one = 2 ^ (53 + (k + (places - 53))) := by
  have hplaces : 53 ≤ places := by decide
  have hexponent : 53 + (k + (places - 53)) = k + places := by omega
  rw [one, ← Nat.pow_add, hexponent]

theorem one_eq_grain : one = 2 ^ (53 : Nat) * grain := by
  have hplaces : 53 ≤ places := by decide
  rw [one, grain, ← Nat.pow_add, Nat.add_sub_cancel' hplaces]

theorem div_lt_of_abs_lt {num den k : Nat} (hden : 0 < den)
    (h : |(signed s num : ℚ) / den / one| < 2 ^ k) : num / den < 2 ^ k * one := by
  have hdenpos : (0 : ℚ) < den := Nat.cast_pos.mpr hden
  rw [abs_div, abs_div, abs_signed, abs_of_pos one_cast_pos, abs_of_pos hdenpos,
    div_lt_iff₀ one_cast_pos, div_lt_iff₀ hdenpos] at h
  rw [Nat.div_lt_iff_lt_mul hden]
  exact_mod_cast h

theorem abs_nearestUnits_sub_le {num den k : Nat} (hden : 0 < den)
    (h : num / den < 2 ^ k * one) :
    |(nearestUnits num den : ℚ) - num / den| ≤ 2 ^ k * grain / 2 := by
  have hbounds := nearestUnits_bounds hden (two_pow_mul_one k ▸ h)
  rw [Nat.pow_add, ← grain] at hbounds
  have hdenpos : (0 : ℚ) < den := Nat.cast_pos.mpr hden
  have hupper : (2 * (nearestUnits num den * den) : ℚ) ≤ 2 * num + den * (2 ^ k * grain) := by
    exact_mod_cast hbounds.1
  have hlower : (2 * num : ℚ) ≤ 2 * (nearestUnits num den * den) + den * (2 ^ k * grain) := by
    exact_mod_cast hbounds.2
  rw [sub_div' hdenpos.ne', abs_div, abs_of_pos hdenpos, div_le_iff₀ hdenpos, abs_le]
  constructor
  · linarith
  · linarith

theorem near_ofRatio {num den k : Nat} (hden : 0 < den) (hk : k ≤ 64)
    (h : |(signed s num : ℚ) / den / one| < 2 ^ k) :
    Near (ofRatio s num den) ((signed s num : ℚ) / den / one) (2 ^ k / 2 ^ 54) := by
  have hlt := div_lt_of_abs_lt hden h
  obtain ⟨hn, hratio⟩ := ofRatio_of_lt (lt_limit_of_lt hk hlt) s
  have hgrain : (0 : ℚ) < grain := Nat.cast_pos.mpr (Nat.two_pow_pos _)
  have hone : (one : ℚ) = 2 ^ 53 * grain := by rw [one_eq_grain, Nat.cast_mul, Nat.cast_pow]; rfl
  have hdistance : (finite s (nearestUnits num den) hn).toRat - (signed s num : ℚ) / den / one =
      signed s 1 * (((nearestUnits num den : ℚ) - num / den) / one) := by
    rw [toRat_finite, signed_eq s (nearestUnits num den), signed_eq s num]
    ring
  rw [hratio]
  refine ⟨rfl, ?_⟩
  calc |(finite s (nearestUnits num den) hn).toRat - (signed s num : ℚ) / den / one|
      = |(nearestUnits num den : ℚ) - num / den| / one := by
        rw [hdistance, abs_mul, abs_signed, Nat.cast_one, one_mul, abs_div, abs_of_pos one_cast_pos]
    _ ≤ 2 ^ k * grain / 2 / one :=
        div_le_div_of_nonneg_right (abs_nearestUnits_sub_le hden hlt) one_cast_pos.le
    _ = 2 ^ k / 2 ^ 54 := by
        rw [hone]
        field_simp

theorem finite_sub (hm : Representable m) (hn : Representable n) :
    (finite s m hm - finite t n hn : Binary64) =
      if signed s m - signed t n = 0 then zero (s && !t)
      else ofRatio (decide (signed s m - signed t n < 0)) (signed s m - signed t n).natAbs 1 := by
  have hsub : (finite s m hm).sub (finite t n hn) =
      if signed s m - signed t n = 0 then zero (s && !t)
      else ofRatio (decide (signed s m - signed t n < 0)) (signed s m - signed t n).natAbs 1 := by
    rw [sub]
  rw [← hsub]
  rfl

theorem finite_div (hm : Representable m) (hn : Representable n) (hne : n ≠ 0) :
    (finite s m hm / finite t n hn : Binary64) = ofRatio (s != t) (m * one) n :=
  if_neg hne

theorem toRat_zero (s : Bool) : (zero s).toRat = 0 := by
  cases s <;> simp [zero, toRat, signed]

theorem near_sub (hx : x.isFinite = true) (hy : y.isFinite = true) {k : Nat} (hk : k ≤ 64)
    (h : |x.toRat - y.toRat| < 2 ^ k) : Near (x - y) (x.toRat - y.toRat) (2 ^ k / 2 ^ 54) := by
  obtain ⟨s, m, hm, rfl⟩ := exists_finite hx
  obtain ⟨t, n, hn, rfl⟩ := exists_finite hy
  have hvalue : (finite s m hm).toRat - (finite t n hn).toRat =
      ((signed s m - signed t n : Int) : ℚ) / one := by
    rw [toRat_finite, toRat_finite, Int.cast_sub, sub_div]
  rw [hvalue] at h ⊢
  rw [finite_sub]
  generalize signed s m - signed t n = d at h
  split
  · rename_i hzero
    refine ⟨rfl, ?_⟩
    rw [toRat_zero, hzero, Int.cast_zero, zero_div, sub_zero, abs_zero]
    positivity
  · have hsigned : (d : ℚ) / one =
        (signed (decide (d < 0)) d.natAbs : ℚ) / (1 : Nat) / one := by
      rw [signed_natAbs, Nat.cast_one, div_one]
    rw [hsigned] at h ⊢
    exact near_ofRatio Nat.one_pos hk h

theorem near_mul (hx : x.isFinite = true) (hy : y.isFinite = true) {k : Nat} (hk : k ≤ 64)
    (h : |x.toRat * y.toRat| < 2 ^ k) : Near (x * y) (x.toRat * y.toRat) (2 ^ k / 2 ^ 54) := by
  obtain ⟨s, m, hm, rfl⟩ := exists_finite hx
  obtain ⟨t, n, hn, rfl⟩ := exists_finite hy
  have hvalue : (finite s m hm).toRat * (finite t n hn).toRat =
      (signed (s != t) (m * n) : ℚ) / one / one := by
    rw [toRat_finite, toRat_finite, ← signed_mul_signed, Int.cast_mul]
    ring
  rw [hvalue] at h ⊢
  rw [finite_mul]
  exact near_ofRatio one_pos hk h

theorem near_div (hx : x.isFinite = true) (hy : y.isFinite = true) (hne : y.toRat ≠ 0) {k : Nat}
    (hk : k ≤ 64) (h : |x.toRat / y.toRat| < 2 ^ k) :
    Near (x / y) (x.toRat / y.toRat) (2 ^ k / 2 ^ 54) := by
  obtain ⟨s, m, hm, rfl⟩ := exists_finite hx
  obtain ⟨t, n, hn, rfl⟩ := exists_finite hy
  have hunits : n ≠ 0 := by
    rintro rfl
    exact hne (toRat_zero t)
  have hnpos : (n : ℚ) ≠ 0 := Nat.cast_ne_zero.mpr hunits
  -- The quotient of two signs is their product.
  have hvalue : (finite s m hm).toRat / (finite t n hn).toRat =
      (signed (s != t) (m * one) : ℚ) / n / one := by
    have hone := one_cast_pos.ne'
    rw [toRat_finite, toRat_finite, signed_eq (s != t), signed_eq s, signed_eq t, Nat.cast_mul]
    cases s with
    | false => cases t <;> simp [signed] <;> field_simp
    | true => cases t <;> simp [signed] <;> field_simp
  rw [hvalue] at h ⊢
  rw [finite_div hm hn hunits]
  exact near_ofRatio (Nat.pos_of_ne_zero hunits) hk h

theorem toRat_abs (x : Binary64) : x.abs.toRat = |x.toRat| := by
  cases x with
  | nan | infinite s => exact abs_zero.symm
  | finite s n hn =>
    have hsigned : signed false n = n := rfl
    rw [abs, toRat_finite, toRat_finite, abs_div, abs_signed, abs_of_pos one_cast_pos, hsigned,
      Int.cast_natCast]

theorem isFinite_abs (h : x.isFinite = true) : x.abs.isFinite = true := by
  obtain ⟨s, n, hn, rfl⟩ := exists_finite h
  rfl

theorem not_lt_iff (hx : x.isFinite = true) (hy : y.isFinite = true) :
    ¬x < y ↔ y.toRat ≤ x.toRat := by
  obtain ⟨s, m, hm, rfl⟩ := exists_finite hx
  obtain ⟨t, n, hn, rfl⟩ := exists_finite hy
  rw [not_lt_finite_iff, toRat_finite, toRat_finite, div_le_div_iff_of_pos_right one_cast_pos,
    Int.cast_le]

theorem lt_iff (hx : x.isFinite = true) (hy : y.isFinite = true) :
    x < y ↔ x.toRat < y.toRat := by
  rw [← not_iff_not, not_lt_iff hx hy, not_lt]

theorem exists_ofRatio_of_form {a k : Nat} (ha : a < 2 ^ (53 : Nat)) (hlimit : a * 2 ^ k < limit)
    (s : Bool) : ∃ hn, ofRatio s (a * 2 ^ k) 1 = finite s (a * 2 ^ k) hn := by
  have hform := nearestUnits_of_form (k := k) ha
  obtain ⟨hn, hratio⟩ := ofRatio_of_lt (hform ▸ hlimit) s
  simp only [hform] at hratio
  exact ⟨_, hratio⟩

theorem mul_one_lt_limit {a : Nat} (ha : a < 2 ^ (53 : Nat)) : a * one < limit := by
  have hword : a ≤ 2 ^ (66 : Nat) := ha.le.trans (by decide)
  exact (Nat.mul_le_mul_right one hword).trans_lt ceiling_lt_limit

theorem exists_ofRatio_whole {a : Nat} (ha : a < 2 ^ (53 : Nat)) (s : Bool) :
    ∃ hn, ofRatio s (a * one) 1 = finite s (a * one) hn := by
  have hlimit := mul_one_lt_limit ha
  rw [one_eq_two_pow] at hlimit ⊢
  exact exists_ofRatio_of_form ha hlimit s

theorem toRat_whole {a : Nat} (hn : Representable (a * one)) :
    (finite s (a * one) hn).toRat = signed s a := by
  have hone := one_cast_pos.ne'
  rw [toRat_finite, signed_eq s (a * one), signed_eq s a, Nat.cast_mul]
  field_simp

theorem ofNat_spec {a : Nat} (ha : a < 2 ^ (53 : Nat)) :
    (ofNat a).isFinite = true ∧ (ofNat a).toRat = a := by
  obtain ⟨hn, hratio⟩ := exists_ofRatio_whole ha false
  rw [ofNat, hratio, toRat_whole]
  exact ⟨rfl, by simp [signed]⟩

theorem ofNat_lt_iff {a : Nat} (ha : a < 2 ^ (53 : Nat)) (hx : x.isFinite = true) :
    ofNat a < x ↔ (a : ℚ) < x.toRat := by
  rw [lt_iff (ofNat_spec ha).1 hx, (ofNat_spec ha).2]

theorem not_ofNat_lt_iff {a : Nat} (ha : a < 2 ^ (53 : Nat)) (hx : x.isFinite = true) :
    ¬ofNat a < x ↔ x.toRat ≤ a := by
  rw [not_lt_iff (ofNat_spec ha).1 hx, (ofNat_spec ha).2]

theorem not_lt_ofNat_iff {a : Nat} (ha : a < 2 ^ (53 : Nat)) (hx : x.isFinite = true) :
    ¬x < ofNat a ↔ (a : ℚ) ≤ x.toRat := by
  rw [not_lt_iff hx (ofNat_spec ha).1, (ofNat_spec ha).2]

theorem exists_form_of_sub {a k : Nat} {r d : Int} (ha : a < 2 ^ (53 : Nat))
    (hd : d = signed s (a * 2 ^ k) - r * one) (hle : d.natAbs ≤ a * 2 ^ k)
    (hlt : d.natAbs < 2 ^ (53 : Nat) * one) :
    ∃ b j : Nat, b < 2 ^ (53 : Nat) ∧ d.natAbs = b * 2 ^ j := by
  have hdvd {j : Nat} (hk : j ≤ k) (hplaces : j ≤ places) : 2 ^ j ∣ d.natAbs := by
    rw [← Int.natCast_dvd, hd]
    refine dvd_sub (Int.natCast_dvd.mpr ?_) (dvd_mul_of_dvd_right ?_ r)
    · rw [natAbs_signed]
      exact dvd_mul_of_dvd_right (Nat.pow_dvd_pow 2 hk) a
    · rw [Int.natCast_dvd_natCast, one]
      exact Nat.pow_dvd_pow 2 hplaces
  rcases Nat.le_total k places with hk | hk
  · obtain ⟨b, hb⟩ := hdvd le_rfl hk
    rw [Nat.mul_comm] at hb
    refine ⟨b, k, lt_of_le_of_lt ?_ ha, hb⟩
    exact Nat.le_of_mul_le_mul_right (hb ▸ hle) (Nat.two_pow_pos k)
  · obtain ⟨b, hb⟩ := hdvd hk le_rfl
    rw [Nat.mul_comm] at hb
    rw [hb, one] at hlt
    exact ⟨b, places, Nat.lt_of_mul_lt_mul_right hlt, hb⟩

theorem sub_whole (hx : x.isFinite = true) (hy : y.isFinite = true) {r : Int} (hr : y.toRat = r)
    (hless : |x.toRat - r| ≤ |x.toRat|) (hsmall : |x.toRat| < 2 ^ 53) :
    (x - y).isFinite = true ∧ (x - y).toRat = x.toRat - r := by
  obtain ⟨s, m, hm, rfl⟩ := exists_finite hx
  obtain ⟨t, n, hn, rfl⟩ := exists_finite hy
  have hpos := one_cast_pos
  have hunits : signed t n = r * one := by
    rw [toRat_finite, div_eq_iff hpos.ne'] at hr
    exact_mod_cast hr
  have hvalue : (finite s m hm).toRat - r = ((signed s m - r * one : Int) : ℚ) / one := by
    rw [toRat_finite, Int.cast_sub, Int.cast_mul, Int.cast_natCast]
    field_simp
  obtain ⟨a, k, ha, hform⟩ := hm.2
  have hle : (signed s m - r * one).natAbs ≤ m := by
    rw [hvalue, toRat_finite, abs_div, abs_div, abs_signed, abs_of_pos hpos,
      div_le_div_iff_of_pos_right hpos, ← Int.cast_abs, Int.abs_eq_natAbs] at hless
    exact_mod_cast hless
  have hlt : m < 2 ^ (53 : Nat) * one := lt_of_abs_toRat_lt hsmall
  rw [finite_sub, hunits, hvalue]
  have hsplit : signed s m - r * one = signed s (a * 2 ^ k) - r * one := by rw [hform]
  have hdigits := exists_form_of_sub ha hsplit (hle.trans_eq hform) (hle.trans_lt hlt)
  obtain ⟨b, j, hb, hdigits⟩ := hdigits
  generalize signed s m - r * one = d at hle hdigits
  split
  · rename_i hzero
    rw [toRat_zero, hzero, Int.cast_zero, zero_div]
    exact ⟨rfl, rfl⟩
  · obtain ⟨hn, hratio⟩ := exists_ofRatio_of_form hb (hdigits ▸ hle.trans_lt hm.1) (decide (d < 0))
    rw [hdigits, hratio]
    refine ⟨rfl, ?_⟩
    rw [toRat_finite, ← hdigits, signed_natAbs]

theorem div_one (hx : x.isFinite = true) : (x / 1).isFinite = true ∧ (x / 1).toRat = x.toRat := by
  obtain ⟨s, m, hm, rfl⟩ := exists_finite hx
  obtain ⟨hn, hratio⟩ := exists_ofRatio_whole (a := 1) (by decide) false
  have hone : (1 : Binary64) = ofNat 1 := rfl
  obtain ⟨a, k, ha, rfl⟩ := hm.2
  have hself := nearestUnits_mul_of_form (k := k) ha one_pos
  obtain ⟨hn', hquotient⟩ := ofRatio_of_lt (hself ▸ hm.1) (s != false)
  have hne : 1 * one ≠ 0 := by
    rw [Nat.one_mul]
    exact one_pos.ne'
  rw [hone, ofNat, hratio, finite_div _ _ hne, Nat.one_mul, hquotient]
  simp only [hself, Bool.bne_false]
  exact ⟨rfl, True.intro⟩

def ones (n : Nat) : Nat :=
  (n + one / 2) / one

theorem round_finite (hn : Representable n) :
    (finite s n hn).round = ofRatio s (ones n * one) 1 :=
  rfl

theorem ones_bounds (n : Nat) :
    2 * n < 2 * (ones n * one) + one ∧ 2 * (ones n * one) ≤ 2 * n + one := by
  have heven : one / 2 * 2 = one := by
    rw [one_eq_two_pow]
    exact Nat.div_mul_cancel (dvd_pow_self 2 (by decide))
  have hdivision := Nat.div_add_mod' (n + one / 2) one
  have hrest := Nat.mod_lt (n + one / 2) one_pos
  rw [← ones] at hdivision
  omega

theorem ones_lt {k : Nat} (h : n < 2 ^ k * one) : ones n < 2 ^ (k + 1) := by
  have hone := one_pos
  have hpower : one ≤ 2 ^ k * one := Nat.le_mul_of_pos_left one (Nat.two_pow_pos k)
  rw [ones, Nat.div_lt_iff_lt_mul one_pos, Nat.pow_succ, Nat.mul_right_comm]
  omega

theorem round_spec (hx : x.isFinite = true) (h : |x.toRat| < 2 ^ 52) : ∃ r : Int,
    x.round.isFinite = true ∧ x.round.toRat = r ∧ |x.toRat - r| ≤ 1 / 2 := by
  obtain ⟨s, m, hm, rfl⟩ := exists_finite hx
  have hpos := one_cast_pos
  have hbounds := ones_bounds m
  obtain ⟨hn, hratio⟩ := exists_ofRatio_whole (ones_lt (k := 52) (lt_of_abs_toRat_lt h)) s
  rw [round_finite, hratio, toRat_whole]
  refine ⟨signed s (ones m), rfl, rfl, ?_⟩
  have hupper : (2 * m : ℚ) < 2 * (ones m * one) + one := by exact_mod_cast hbounds.1
  have hlower : (2 * (ones m * one) : ℚ) ≤ 2 * m + one := by exact_mod_cast hbounds.2
  have hdistance : (finite s m hm).toRat - (signed s (ones m) : ℚ) =
      signed s 1 * ((m - ones m * one) / one) := by
    rw [toRat_finite, signed_eq s m, signed_eq s (ones m)]
    field_simp
  rw [hdistance, abs_mul, abs_signed, Nat.cast_one, one_mul, abs_div, abs_of_pos hpos,
    div_le_iff₀ hpos, abs_le]
  constructor
  · linarith
  · linarith

theorem exists_positivePart (hx : x.isFinite = true) : ∃ n hn,
    x.positivePart = finite false n hn ∧ (n : ℚ) / one = max x.toRat 0 := by
  have hzero : (zero false).isFinite = true := rfl
  by_cases hlt : zero false < x
  · have hpositive := (lt_iff hzero hx).mp hlt
    rw [toRat_zero] at hpositive
    obtain ⟨s, n, hn, rfl⟩ := exists_finite hx
    cases s with
    | false => exact ⟨n, hn, if_pos hlt, (max_eq_left hpositive.le).symm⟩
    | true =>
      have hneg : (finite true n hn).toRat = -(n / one : ℚ) := by
        rw [toRat_finite, signed, if_pos rfl, Int.cast_neg, Int.cast_natCast, neg_div]
      have hnonneg : (0 : ℚ) ≤ n / one := div_nonneg (Nat.cast_nonneg n) one_cast_pos.le
      linarith
  · refine ⟨0, representable_zero, if_neg hlt, ?_⟩
    rw [not_lt_iff hzero hx, toRat_zero] at hlt
    rw [Nat.cast_zero, zero_div, max_eq_right hlt]

theorem ones_eq {c : Nat} (h : |(n : ℚ) / one - c| < 1 / 2) : ones n = c := by
  have hpos := one_cast_pos
  obtain ⟨hhigh, hlow⟩ := ones_bounds n
  obtain ⟨hbelow, habove⟩ := abs_lt.mp h
  have hupper : 2 * n < 2 * (c * one) + one := by
    have hbound : (n : ℚ) / one < c + 1 / 2 := by linarith
    rw [div_lt_iff₀ hpos] at hbound
    have hdouble : (2 * n : ℚ) < 2 * (c * one) + one := by linarith
    exact_mod_cast hdouble
  have hlower : 2 * (c * one) < 2 * n + one := by
    have hbound : (c : ℚ) - 1 / 2 < n / one := by linarith
    rw [lt_div_iff₀ hpos] at hbound
    have hdouble : (2 * (c * one) : ℚ) < 2 * n + one := by linarith
    exact_mod_cast hdouble
  have hle : ones n * one < (c + 1) * one := by
    rw [Nat.add_mul]
    omega
  have hge : c * one < (ones n + 1) * one := by
    rw [Nat.add_mul]
    omega
  exact Nat.le_antisymm (Nat.lt_succ_iff.mp (Nat.lt_of_mul_lt_mul_right hle))
    (Nat.lt_succ_iff.mp (Nat.lt_of_mul_lt_mul_right hge))

theorem toWord_eq (hx : x.isFinite = true) {c : Nat} (hc : c < 2 ^ (53 : Nat))
    (h : |x.toRat - c| < 1 / 2) : x.toWord = c := by
  obtain ⟨n, hn, hpositive, hvalue⟩ := exists_positivePart hx
  have hnear : |(n : ℚ) / one - c| < 1 / 2 := by
    have hcontract := abs_max_sub_max_le_abs x.toRat c 0
    rw [max_eq_left (Nat.cast_nonneg c), ← hvalue] at hcontract
    exact hcontract.trans_lt h
  obtain ⟨hn', hratio⟩ := exists_ofRatio_whole hc false
  have hword : c ≤ maxWord := hc.le.trans (by decide)
  rw [toWord, hpositive, round_finite, ones_eq hnear, hratio]
  have htruncate : (finite false (c * one) hn').truncate = min (c * one / one) maxWord := rfl
  rw [htruncate, Nat.mul_div_cancel c one_pos, min_eq_left hword]

end Binary64

end TokenContract
