import TokenContract.Proofs.Number.Rational
import TokenContract.Proofs.Validation

namespace TokenContract

-- Powers are those of the core library, whatever else is in scope.
attribute [local instance (high)] instPowNat

namespace Binary64

variable {x y : Binary64}

section Decimal

variable {d e a b : Nat}

theorem ofDecimal_negSucc (h : nearestUnits (d * one) (10 ^ (e + 1)) < limit) :
    (ofDecimal false d (.negSucc e)).isFinite = true ∧ (ofDecimal false d (.negSucc e)).toRat =
      nearestUnits (d * one) (10 ^ (e + 1)) / one := by
  obtain ⟨hn, hratio⟩ := ofRatio_of_lt h false
  rw [ofDecimal, hratio]
  exact ⟨rfl, rfl⟩

theorem toRat_ofDecimal_le (h : nearestUnits (d * one) (10 ^ (e + 1)) < limit) (ha : 0 < a)
    (hle : nearestUnits (d * one) (10 ^ (e + 1)) * a ≤ b * one) :
    (ofDecimal false d (.negSucc e)).toRat ≤ (b : ℚ) / a := by
  rw [(ofDecimal_negSucc h).2, div_le_div_iff₀ one_cast_pos (Nat.cast_pos.mpr ha)]
  exact_mod_cast hle

theorem le_toRat_ofDecimal (h : nearestUnits (d * one) (10 ^ (e + 1)) < limit) (ha : 0 < a)
    (hle : b * one ≤ nearestUnits (d * one) (10 ^ (e + 1)) * a) :
    (b : ℚ) / a ≤ (ofDecimal false d (.negSucc e)).toRat := by
  rw [(ofDecimal_negSucc h).2, div_le_div_iff₀ (Nat.cast_pos.mpr ha) one_cast_pos]
  exact_mod_cast hle

end Decimal

theorem stepTolerance_spec : Parameter.stepTolerance.isFinite = true ∧
    Parameter.stepTolerance.toRat ≤ 1 / 10 ^ 6 := by
  have hlimit : nearestUnits (1 * one) (10 ^ (5 + 1)) < limit := by decide +kernel
  have htolerance : Parameter.stepTolerance = ofDecimal false 1 (.negSucc 5) := rfl
  have hle := toRat_ofDecimal_le (a := 1000000) (b := 1) hlimit (by decide) (by decide +kernel)
  rw [htolerance]
  refine ⟨(ofDecimal_negSucc hlimit).1, hle.trans_eq ?_⟩
  norm_num

/-- A double that is a number of hundredths, as near as one can be. -/
structure Hundredths (x : Binary64) (count : Nat) : Prop where
  finite : x.isFinite = true
  near : |100 * x.toRat - count| ≤ count / 2 ^ 54

-- The numbers beside `count` are those around `2 ^ 54`.
theorem hundredths_ofDecimal {e count : Nat}
    (h : nearestUnits (1 * one) (10 ^ (e + 1)) < limit)
    (hlow : count * 18014398509481983 * one ≤
      nearestUnits (1 * one) (10 ^ (e + 1)) * 1801439850948198400)
    (hhigh : nearestUnits (1 * one) (10 ^ (e + 1)) * 1801439850948198400 ≤
      count * 18014398509481985 * one) :
    (ofDecimal false 1 (.negSucc e)).Hundredths count := by
  have hbelow := le_toRat_ofDecimal h (by decide) hlow
  have habove := toRat_ofDecimal_le h (by decide) hhigh
  refine ⟨(ofDecimal_negSucc h).1, ?_⟩
  rw [abs_le]
  push_cast at hbelow habove
  constructor
  · linarith
  · linarith

theorem hundredths_tenth : (0.1 : Binary64).Hundredths 10 :=
  hundredths_ofDecimal (e := 0) (by decide +kernel) (by decide +kernel) (by decide +kernel)

theorem hundredths_hundredth : (0.01 : Binary64).Hundredths 1 :=
  hundredths_ofDecimal (e := 1) (by decide +kernel) (by decide +kernel) (by decide +kernel)

theorem abs_sub_le_abs {q : ℚ} {r : Int} (h : |q - r| ≤ 1 / 2) : |q - r| ≤ |q| := by
  rcases eq_or_ne r 0 with rfl | hr
  · rw [Int.cast_zero, sub_zero]
  · have hone : (1 : ℚ) ≤ |(r : ℚ)| := by exact_mod_cast Int.one_le_abs hr
    have htriangle := abs_sub_abs_le_abs_sub (r : ℚ) q
    rw [abs_sub_comm] at htriangle
    linarith

theorem exists_whole_of_tolerance (hx : x.isFinite = true) (hsmall : |x.toRat| < 2 ^ 52)
    (h : ¬Parameter.stepTolerance < (x - x.round).abs) : ∃ r : Int, |x.toRat - r| ≤ 1 / 10 ^ 6 := by
  obtain ⟨r, hround, hr, hhalf⟩ := round_spec hx hsmall
  have hlarge : |x.toRat| < 2 ^ 53 := hsmall.trans (by norm_num)
  obtain ⟨hdistance, hvalue⟩ := sub_whole hx hround hr (abs_sub_le_abs hhalf) hlarge
  obtain ⟨htolerance, hbound⟩ := stepTolerance_spec
  rw [not_lt_iff htolerance (isFinite_abs hdistance), toRat_abs, hvalue] at h
  exact ⟨r, h.trans hbound⟩

end Binary64

theorem exists_natCast_of_lt {r : Int} (h : (-1 : ℚ) < r) : ∃ n : Nat, r = n := by
  have hlt : -1 < r := by exact_mod_cast h
  exact Int.eq_ofNat_of_zero_le (by omega)

/-- How far the hundredths of a number may be from a whole number of them: a millionth of the step,
as the check allows for it, and what the operations round. -/
def slack (unit : Nat) : ℚ :=
  unit / 10 ^ 6 + 2 / 10 ^ 12

theorem slack_lt {unit : Nat} (h : unit ≤ 10) : slack unit < 1 / 10 ^ 4 := by
  have hcast : (unit : ℚ) ≤ 10 := by exact_mod_cast h
  rw [slack]
  linarith

section Rounding

variable {q step difference steps : ℚ} {unit most n : Nat}

theorem step_bounds (hunit : 0 < unit) (hstep : |100 * step - unit| ≤ unit / 2 ^ 54) :
    0 < step ∧ unit ≤ 101 * step ∧ 100 * step ≤ 101 / 100 * unit := by
  have hpos : (1 : ℚ) ≤ unit := by exact_mod_cast hunit
  obtain ⟨hbelow, habove⟩ := abs_le.mp hstep
  norm_num at hbelow habove
  refine ⟨?_, ?_, ?_⟩
  · linarith
  · linarith
  · linarith

theorem steps_bounds (hstep : 0 < step) (hone : 1 ≤ unit) (hunit : unit ≤ 101 * step)
    (hlow : step ≤ q) (hhigh : q ≤ 10 * unit)
    (hdifference : |difference - (q - step)| ≤ 2 ^ 7 / 2 ^ 54) :
    -(1 / 2) < difference / step ∧ difference / step < 1009 + 1 / 2 := by
  have hpos : (1 : ℚ) ≤ unit := by exact_mod_cast hone
  obtain ⟨hbelow, habove⟩ := abs_le.mp hdifference
  rw [lt_div_iff₀ hstep, div_lt_iff₀ hstep]
  norm_num at hbelow habove ⊢
  constructor
  · linarith
  · linarith

theorem abs_sub_multiple_le (hstep : 0 < step)
    (hdifference : |difference - (q - step)| ≤ 2 ^ 7 / 2 ^ 54)
    (hsteps : |steps - difference / step| ≤ 2 ^ 10 / 2 ^ 54) (hn : |steps - n| ≤ 1 / 10 ^ 6) :
    |q - (n + 1) * step| ≤ 2 ^ 7 / 2 ^ 54 + (2 ^ 10 / 2 ^ 54 + 1 / 10 ^ 6) * step := by
  have hsplit : q - (n + 1) * step = -(difference - (q - step)) +
      (-(steps - difference / step) + (steps - n)) * step := by
    field_simp
    ring
  have hsum := (abs_add_le (-(steps - difference / step)) (steps - n)).trans
    (add_le_add ((abs_neg _).trans_le hsteps) hn)
  have hscaled := mul_le_mul_of_nonneg_right hsum hstep.le
  rw [hsplit]
  refine (abs_add_le _ _).trans (add_le_add ((abs_neg _).trans_le hdifference) ?_)
  rwa [abs_mul, abs_of_pos hstep]

theorem abs_sub_hundredths_le (hfine : unit ≤ 10)
    (hstep : |100 * step - unit| ≤ unit / 2 ^ 54) (hn : n ≤ 1010)
    (h : |q - (n + 1) * step| ≤ 2 ^ 7 / 2 ^ 54 + (2 ^ 10 / 2 ^ 54 + 1 / 10 ^ 6) * step) :
    |100 * q - (unit * (n + 1) : Nat)| ≤ slack unit := by
  have hcount : ((n : ℚ) + 1) ≤ 1011 := by
    have hcast : (n : ℚ) ≤ 1010 := by exact_mod_cast hn
    linarith
  have hnonneg : (0 : ℚ) ≤ n + 1 := by positivity
  have hten : (unit : ℚ) ≤ 10 := by exact_mod_cast hfine
  have hunits : |((n : ℚ) + 1) * (100 * step - unit)| ≤ 1011 * (unit / 2 ^ 54) := by
    rw [abs_mul, abs_of_nonneg hnonneg]
    exact mul_le_mul hcount hstep (abs_nonneg _) (by norm_num)
  have hsplit : 100 * q - (unit * (n + 1) : Nat) =
      100 * (q - (n + 1) * step) + (n + 1) * (100 * step - unit) := by
    push_cast
    ring
  have hhundred : |100 * (q - (n + 1) * step)| ≤
      100 * (2 ^ 7 / 2 ^ 54 + (2 ^ 10 / 2 ^ 54 + 1 / 10 ^ 6) * step) := by
    rw [abs_mul, abs_of_pos (by norm_num)]
    exact mul_le_mul_of_nonneg_left h (by norm_num)
  have habove := (abs_le.mp hstep).2
  rw [hsplit]
  refine (abs_add_le _ _).trans ((add_le_add hhundred hunits).trans ?_)
  rw [slack]
  norm_num at habove ⊢
  linarith

end Rounding

namespace Parameter

variable {p : Parameter} {x : Binary64}

/-- A parameter of whole numbers between two bounds. -/
structure Whole (p : Parameter) (least most : Nat) : Prop where
  min : p.min = some (.ofNat least)
  max : p.max = some (.ofNat most)
  step : p.step = some 1
  ordered : least ≤ most
  small : most ≤ 1000

section Whole

variable {least most : Nat}

theorem Whole.lt_of_le (h : p.Whole least most) {n : Nat} (hn : n ≤ most) : n < 2 ^ (53 : Nat) :=
  (hn.trans h.small).trans_lt (by decide)

theorem Whole.bounds (h : p.Whole least most) (hx : p.numberObjection? x = none) :
    x.isFinite = true ∧ least ≤ x.toRat ∧ x.toRat ≤ most := by
  obtain ⟨hfinite, hmin, hmax, -⟩ := numberObjection?_eq_none_iff.mp hx
  refine ⟨hfinite, ?_, ?_⟩
  · exact (Binary64.not_lt_ofNat_iff (h.lt_of_le h.ordered) hfinite).mp (hmin _ h.min)
  · exact (Binary64.not_ofNat_lt_iff (h.lt_of_le le_rfl) hfinite).mp (hmax _ h.max)

theorem Whole.steps_exact (h : p.Whole least most) (hx : p.numberObjection? x = none) :
    ((x - .ofNat least) / 1).isFinite = true ∧
      ((x - .ofNat least) / 1).toRat = x.toRat - least := by
  obtain ⟨hfinite, hlow, hhigh⟩ := h.bounds hx
  obtain ⟨hleast, hleastvalue⟩ := Binary64.ofNat_spec (h.lt_of_le h.ordered)
  have hsmall : (most : ℚ) ≤ 1000 := by exact_mod_cast h.small
  have hnonneg : (0 : ℚ) ≤ least := Nat.cast_nonneg least
  have hpositive : 0 ≤ x.toRat := hnonneg.trans hlow
  have hwhole : (Binary64.ofNat least).toRat = ((least : Int) : ℚ) := by
    rw [hleastvalue, Int.cast_natCast]
  have hless : |x.toRat - ((least : Int) : ℚ)| ≤ |x.toRat| := by
    rw [Int.cast_natCast, abs_of_nonneg (sub_nonneg.mpr hlow), abs_of_nonneg hpositive]
    exact sub_le_self _ hnonneg
  have hlarge : |x.toRat| < 2 ^ 53 := by
    rw [abs_of_nonneg hpositive]
    exact (hhigh.trans hsmall).trans_lt (by norm_num)
  obtain ⟨hdifference, hdistance⟩ := Binary64.sub_whole hfinite hleast hwhole hless hlarge
  obtain ⟨hsteps, hvalue⟩ := Binary64.div_one hdifference
  rw [hdistance, Int.cast_natCast] at hvalue
  exact ⟨hsteps, hvalue⟩

theorem Whole.exists_near (h : p.Whole least most) (hx : p.numberObjection? x = none) :
    ∃ n : Nat, |x.toRat - (least + n : Nat)| ≤ 1 / 10 ^ 6 := by
  obtain ⟨-, hlow, hhigh⟩ := h.bounds hx
  obtain ⟨-, -, -, hstep⟩ := numberObjection?_eq_none_iff.mp hx
  obtain ⟨hsteps, hvalue⟩ := h.steps_exact hx
  have hon := hstep 1 h.step (by decide +kernel)
  rw [h.min, Option.getD_some] at hon
  have hfew : |((x - .ofNat least) / 1).toRat| < 2 ^ 52 := by
    have hsmall : (most : ℚ) ≤ 1000 := by exact_mod_cast h.small
    have hnonneg : (0 : ℚ) ≤ least := Nat.cast_nonneg least
    rw [hvalue, abs_of_nonneg (sub_nonneg.mpr hlow)]
    norm_num
    linarith
  obtain ⟨r, hr⟩ := Binary64.exists_whole_of_tolerance hsteps hfew hon
  rw [hvalue] at hr
  have hbelow := (abs_le.mp hr).2
  obtain ⟨n, rfl⟩ := exists_natCast_of_lt (r := r) (by linarith)
  refine ⟨n, ?_⟩
  rwa [Nat.cast_add, ← sub_sub, ← Int.cast_natCast n]

theorem Whole.near_word (h : p.Whole least most) (hx : p.numberObjection? x = none) :
    |x.toRat - x.toWord| ≤ 1 / 10 ^ 6 ∧ least ≤ x.toWord ∧ x.toWord ≤ most := by
  obtain ⟨hfinite, -, hhigh⟩ := h.bounds hx
  obtain ⟨n, hnear⟩ := h.exists_near hx
  have hle : least + n ≤ most := by
    have hlt : ((least + n : Nat) : ℚ) < (most + 1 : Nat) := by
      have habove := (abs_le.mp hnear).1
      rw [Nat.cast_add most, Nat.cast_one]
      linarith
    exact Nat.lt_succ_iff.mp (Nat.cast_lt.mp hlt)
  have hword : x.toWord = least + n :=
    Binary64.toWord_eq hfinite (h.lt_of_le hle) (hnear.trans_lt (by norm_num))
  rw [hword]
  exact ⟨hnear, Nat.le_add_right least n, hle⟩

end Whole

/-- A parameter of the multiples of some hundredths, from one of them up. -/
structure Graded (p : Parameter) (unit most : Nat) : Prop where
  step : ∃ step, p.min = some step ∧ p.step = some step ∧ step.Hundredths unit
  max : p.max = some (.ofNat most)
  positive : 0 < unit
  fine : unit ≤ 10
  small : most ≤ 100
  few : most ≤ 10 * unit

section Graded

variable {unit most : Nat}

theorem Graded.bounds (h : p.Graded unit most) (hx : p.numberObjection? x = none) :
    x.isFinite = true ∧ 0 ≤ x.toRat ∧ x.toRat ≤ most := by
  obtain ⟨hfinite, hmin, hmax, -⟩ := numberObjection?_eq_none_iff.mp hx
  obtain ⟨step, hleast, -, hunit⟩ := h.step
  have hpos := (step_bounds h.positive hunit.near).1
  have hroom : most < 2 ^ (53 : Nat) := h.small.trans_lt (by decide)
  refine ⟨hfinite, ?_, ?_⟩
  · exact hpos.le.trans ((Binary64.not_lt_iff hfinite hunit.finite).mp (hmin step hleast))
  · exact (Binary64.not_ofNat_lt_iff hroom hfinite).mp (hmax _ h.max)

theorem Graded.near_steps (h : p.Graded unit most)
    (hx : p.numberObjection? x = none) {step : Binary64} (hmin : p.min = some step)
    (hunit : step.Hundredths unit) :
    (x - step).Near (x.toRat - step.toRat) (2 ^ 7 / 2 ^ 54) ∧
      ((x - step) / step).Near ((x - step).toRat / step.toRat) (2 ^ 10 / 2 ^ 54) ∧
      -(3 / 4) < ((x - step) / step).toRat ∧ ((x - step) / step).toRat < 1010 := by
  obtain ⟨hfinite, -, hhigh⟩ := h.bounds hx
  obtain ⟨hpos, hbelow, -⟩ := step_bounds h.positive hunit.near
  have hlow : step.toRat ≤ x.toRat :=
    (Binary64.not_lt_iff hfinite hunit.finite).mp ((numberObjection?_eq_none_iff.mp hx).2.1 _ hmin)
  have hsmall : (most : ℚ) ≤ 100 := by exact_mod_cast h.small
  have hfew : (most : ℚ) ≤ 10 * unit := by exact_mod_cast h.few
  have hdistance : |x.toRat - step.toRat| < 2 ^ 7 := by
    rw [abs_of_nonneg (sub_nonneg.mpr hlow)]
    norm_num
    linarith
  have hdifference := Binary64.near_sub hfinite hunit.finite (by decide) hdistance
  obtain ⟨hquotientlow, hquotienthigh⟩ := steps_bounds hpos h.positive hbelow hlow
    (hhigh.trans hfew) hdifference.error
  have hquotient : |(x - step).toRat / step.toRat| < 2 ^ 10 := by
    rw [abs_lt]
    constructor
    · linarith
    · linarith
  have hsteps := Binary64.near_div hdifference.finite hunit.finite hpos.ne' (by decide) hquotient
  obtain ⟨hstepslow, hstepshigh⟩ := abs_le.mp hsteps.error
  norm_num at hstepslow hstepshigh
  refine ⟨hdifference, hsteps, ?_, ?_⟩
  · linarith
  · linarith

theorem Graded.exists_multiple (h : p.Graded unit most) (hx : p.numberObjection? x = none) :
    ∃ n ≤ 1010, |100 * x.toRat - (unit * (n + 1) : Nat)| ≤ slack unit := by
  obtain ⟨-, -, -, honstep⟩ := numberObjection?_eq_none_iff.mp hx
  obtain ⟨step, hmin, hstep, hunit⟩ := h.step
  have hpos := (step_bounds h.positive hunit.near).1
  obtain ⟨hdifference, hsteps, hlow, hhigh⟩ := h.near_steps hx hmin hunit
  have hbounded : |((x - step) / step).toRat| < 2 ^ 52 := by
    rw [abs_lt]
    norm_num
    constructor
    · linarith
    · linarith
  have hpositive : (0 : Binary64) < step :=
    (Binary64.ofNat_lt_iff (a := 0) (by decide) hunit.finite).mpr (by rwa [Nat.cast_zero])
  have hon := honstep step hstep hpositive
  rw [hmin, Option.getD_some] at hon
  obtain ⟨r, hr⟩ := Binary64.exists_whole_of_tolerance hsteps.finite hbounded hon
  obtain ⟨hrlow, hrhigh⟩ := abs_le.mp hr
  obtain ⟨n, rfl⟩ := exists_natCast_of_lt (r := r) (by linarith)
  rw [Int.cast_natCast] at hr hrlow
  have hn : n ≤ 1010 := by
    have hlt : (n : ℚ) < (1011 : Nat) := by
      rw [Nat.cast_ofNat]
      linarith
    exact Nat.lt_succ_iff.mp (Nat.cast_lt.mp hlt)
  refine ⟨n, hn, abs_sub_hundredths_le h.fine hunit.near hn ?_⟩
  exact abs_sub_multiple_le hpos hdifference.error hsteps.error hr

theorem Graded.near_word (h : p.Graded unit most) (hx : p.numberObjection? x = none) :
    |100 * x.toRat - (x * 100).toWord| ≤ slack unit ∧
      unit ≤ (x * 100).toWord ∧ (x * 100).toWord ≤ 100 * most := by
  obtain ⟨n, hn, hnear⟩ := h.exists_multiple hx
  obtain ⟨hfinite, hlow, hhigh⟩ := h.bounds hx
  have hsmall : (most : ℚ) ≤ 100 := by exact_mod_cast h.small
  obtain ⟨hhundred, hhundredvalue⟩ := Binary64.ofNat_spec (a := 100) (by decide)
  have hliteral : (100 : Binary64) = .ofNat 100 := rfl
  have hproduct : (x * .ofNat 100).Near (x.toRat * 100) (2 ^ 14 / 2 ^ 54) := by
    have hmagnitude : |x.toRat * (Binary64.ofNat 100).toRat| < 2 ^ 14 := by
      rw [hhundredvalue, abs_of_nonneg (mul_nonneg hlow (Nat.cast_nonneg 100))]
      norm_num
      linarith
    have hproduct := Binary64.near_mul hfinite hhundred (by decide) hmagnitude
    rwa [hhundredvalue, Nat.cast_ofNat] at hproduct
  have hslack := slack_lt h.fine
  have hcount : unit * (n + 1) ≤ 10110 := by
    have hmul := Nat.mul_le_mul h.fine (show n + 1 ≤ 1011 by omega)
    omega
  have hword : (x * 100).toWord = unit * (n + 1) := by
    rw [hliteral]
    refine Binary64.toWord_eq hproduct.finite (hcount.trans_lt (by decide)) ?_
    have hsum := (abs_sub_le (x * .ofNat 100).toRat (x.toRat * 100) (unit * (n + 1) : Nat)).trans
      (add_le_add hproduct.error (mul_comm (100 : ℚ) x.toRat ▸ hnear))
    norm_num at hsum hslack ⊢
    linarith
  rw [hword]
  refine ⟨hnear, Nat.le_mul_of_pos_right unit n.succ_pos, ?_⟩
  have hlt : ((unit * (n + 1) : Nat) : ℚ) < (100 * most + 1 : Nat) := by
    have hbelow := (abs_le.mp hnear).1
    rw [Nat.cast_add, Nat.cast_mul 100, Nat.cast_one, Nat.cast_ofNat]
    norm_num at hslack
    linarith
  exact Nat.lt_succ_iff.mp (Nat.cast_lt.mp hlt)

end Graded

end Parameter

end TokenContract
