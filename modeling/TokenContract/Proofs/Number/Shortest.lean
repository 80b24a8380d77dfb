import TokenContract.Proofs.Number.Gaps
import Mathlib.Algebra.Order.Field.Basic
import Mathlib.Data.Rat.Cast.Order
import Mathlib.Tactic.FieldSimp
import Mathlib.Tactic.NormNum
import Mathlib.Tactic.Positivity
import Mathlib.Tactic.Ring

namespace TokenContract

def Decimal.value (d : Decimal) : ℚ :=
  d.digits * 10 ^ d.exponent

theorem Decimal.value_carry (d : Decimal) : d.carry.value = d.value := by
  unfold carry
  split
  · rename_i h
    rw [value, value, h, zpow_add₀ (by norm_num)]
    norm_num
    ring
  · rfl

namespace Binary64

variable {m n : Nat} {q : ℚ}

/-- The numbers of quarter units that round to a count of units. -/
structure Rounds (n : Nat) (q : ℚ) : Prop where
  low : 4 * (n : ℚ) - 2 * gapBelow n ≤ q
  high : q ≤ 4 * n + 2 * gapAbove n
  ends : q = 4 * (n : ℚ) - 2 * gapBelow n ∨ q = 4 * n + 2 * gapAbove n → Even n

theorem Rounds.pos (h : Rounds n q) (hn : 0 < n) : 0 < q := by
  have hgap : gapBelow n ≤ n := (gapBelow_le_gapAbove n).trans (gapAbove_le hn)
  have hcast : (gapBelow n : ℚ) ≤ n := by exact_mod_cast hgap
  have hpos : (0 : ℚ) < n := by exact_mod_cast hn
  have hlow := h.low
  linarith

theorem Rounds.le (h : Rounds n q) (h' : Rounds m q) (hn : 0 < n) (hrn : Representable n)
    (hrm : Representable m) : m ≤ n := by
  by_contra hlt
  obtain ⟨hle, hends⟩ := gaps_apart hn (by omega) hrn hrm
  have hcast : 2 * (n : ℚ) + gapAbove n + gapBelow m ≤ 2 * m := by exact_mod_cast hle
  have hhigh := h.high
  have hlow := h'.low
  have heq : 2 * (n : ℚ) + gapAbove n + gapBelow m = 2 * m := by linarith
  refine hends (by exact_mod_cast heq) ⟨h.ends (.inr ?_), h'.ends (.inl ?_)⟩
  · linarith
  · linarith

theorem Rounds.unique (h : Rounds n q) (h' : Rounds m q) (hn : 0 < n) (hm : 0 < m)
    (hrn : Representable n) (hrm : Representable m) : n = m :=
  le_antisymm (h'.le h hm hrm hrn) (h.le h' hn hrn hrm)

theorem grid_pos (p : Int) : 0 < (grid p).1 ∧ 0 < (grid p).2 := by
  have hone := one_pos
  cases p with
  | ofNat e =>
    simp only [grid]
    exact ⟨by positivity, Nat.one_pos⟩
  | negSucc e =>
    simp only [grid]
    exact ⟨by positivity, by positivity⟩

theorem grid_eq (p : Int) : ((grid p).1 : ℚ) / (grid p).2 = 4 * one * 10 ^ p := by
  cases p with
  | ofNat e =>
    simp only [grid, Int.ofNat_eq_natCast, zpow_natCast]
    push_cast
    ring
  | negSucc e =>
    simp only [grid, zpow_negSucc]
    push_cast
    ring

theorem rounds_of_roundsTo (hn : 0 < n) {p : Int} {c : Nat} (h : roundsTo n p c = true) :
    Rounds n (c * (4 * one * 10 ^ p)) := by
  have hgap : 2 * gapBelow n ≤ 4 * n := by
    have hle := (gapBelow_le_gapAbove n).trans (gapAbove_le hn)
    omega
  obtain ⟨-, hden⟩ := grid_pos p
  rw [← grid_eq, ← mul_div_assoc]
  unfold roundsTo at h
  generalize grid p = ratio at h hden ⊢
  obtain ⟨num, den⟩ := ratio
  dsimp only at h hden ⊢
  have hdenq : (0 : ℚ) < den := by exact_mod_cast hden
  have hlow : ((4 * n - 2 * gapBelow n : Nat) : ℚ) = 4 * n - 2 * gapBelow n := by
    rw [Nat.cast_sub hgap]
    push_cast
    ring
  have hhigh : ((4 * n + 2 * gapAbove n : Nat) : ℚ) = 4 * n + 2 * gapAbove n := by push_cast; ring
  split at h
  · rename_i heven
    simp only [Bool.and_eq_true, decide_eq_true_eq] at h
    have hl : ((4 * n - 2 * gapBelow n : Nat) : ℚ) * den ≤ c * num := by exact_mod_cast h.1
    have hh : (c : ℚ) * num ≤ (4 * n + 2 * gapAbove n : Nat) * den := by exact_mod_cast h.2
    rw [hlow] at hl
    rw [hhigh] at hh
    exact ⟨(le_div_iff₀ hdenq).mpr hl, (div_le_iff₀ hdenq).mpr hh, fun _ ↦ heven⟩
  · simp only [Bool.and_eq_true, decide_eq_true_eq] at h
    have hl : ((4 * n - 2 * gapBelow n : Nat) : ℚ) * den < c * num := by exact_mod_cast h.1
    have hh : (c : ℚ) * num < (4 * n + 2 * gapAbove n : Nat) * den := by exact_mod_cast h.2
    rw [hlow] at hl
    rw [hhigh] at hh
    have hl' := (lt_div_iff₀ hdenq).mpr hl
    have hh' := (div_lt_iff₀ hdenq).mpr hh
    refine ⟨hl'.le, hh'.le, fun he ↦ ?_⟩
    rcases he with he | he
    · exact absurd he hl'.ne'
    · exact absurd he hh'.ne

theorem roundsTo_of_nearestOn {tie : Tie} {p : Int} {c : Nat} (h : nearestOn tie n p = some c) :
    roundsTo n p c = true := by
  simp only [nearestOn] at h
  generalize hbelow : 4 * n * (grid p).2 / (grid p).1 = below at h
  generalize 4 * n * (grid p).2 % (grid p).1 = rest at h
  cases hb : roundsTo n p below with
  | false =>
    cases ha : roundsTo n p (below + 1) with
    | false => simp [hb, ha] at h
    | true =>
      simp only [hb, ha, Option.some.injEq] at h
      exact h ▸ ha
  | true =>
    cases ha : roundsTo n p (below + 1) with
    | false =>
      simp only [hb, ha, Option.some.injEq] at h
      exact h ▸ hb
    | true =>
      have hc : c = below ∨ c = below + 1 := by
        simp only [hb, ha] at h
        split at h
        · exact .inl (by simpa using h.symm)
        · split at h
          · exact .inr (by simpa using h.symm)
          · cases tie with
            | up => exact .inr (by simpa using h.symm)
            | even =>
              simp only [Option.some.injEq] at h
              omega
      rcases hc with rfl | rfl
      · exact hb
      · exact ha

theorem roundsTo_of_lt {p : Int} {c : Nat}
    (hl : (4 * n - 2 * gapBelow n) * (grid p).2 < c * (grid p).1)
    (hh : c * (grid p).1 < (4 * n + 2 * gapAbove n) * (grid p).2) : roundsTo n p c = true := by
  simp only [roundsTo]
  split
  · simp only [Bool.and_eq_true, decide_eq_true_eq]
    exact ⟨hl.le, hh.le⟩
  · simp only [Bool.and_eq_true, decide_eq_true_eq]
    exact ⟨hl, hh⟩

theorem roundsTo_neighbour (hn : 0 < n) {p : Int}
    (hfine : (grid p).1 < 2 * (gapAbove n + gapBelow n) * (grid p).2) :
    roundsTo n p (4 * n * (grid p).2 / (grid p).1) = true ∨
      roundsTo n p (4 * n * (grid p).2 / (grid p).1 + 1) = true := by
  obtain ⟨hnum, hden⟩ := grid_pos p
  have hgap : 2 * gapBelow n ≤ 4 * n := by
    have hle := (gapBelow_le_gapAbove n).trans (gapAbove_le hn)
    omega
  have hdiv := Nat.div_add_mod (4 * n * (grid p).2) (grid p).1
  have hrest := Nat.mod_lt (4 * n * (grid p).2) hnum
  have hwide : 0 < 2 * gapAbove n * (grid p).2 :=
    Nat.mul_pos (Nat.mul_pos Nat.two_pos (gapAbove_pos n)) hden
  have hmul := Nat.mul_le_mul_right (grid p).2 hgap
  have hsum : 2 * (gapAbove n + gapBelow n) * (grid p).2 =
      2 * gapAbove n * (grid p).2 + 2 * gapBelow n * (grid p).2 := by ring
  have hlow := Nat.sub_mul (4 * n) (2 * gapBelow n) (grid p).2
  have hhigh := Nat.add_mul (4 * n) (2 * gapAbove n) (grid p).2
  rw [Nat.mul_comm] at hdiv
  by_cases hclose : 4 * n * (grid p).2 % (grid p).1 < 2 * gapBelow n * (grid p).2
  · exact .inl (roundsTo_of_lt (by omega) (by omega))
  · refine .inr (roundsTo_of_lt ?_ ?_)
    · rw [Nat.succ_mul (4 * n * (grid p).2 / (grid p).1)]
      omega
    · rw [Nat.succ_mul (4 * n * (grid p).2 / (grid p).1)]
      omega

theorem exists_nearestOn (tie : Tie) (hn : 0 < n) {p : Int}
    (hfine : (grid p).1 < 2 * (gapAbove n + gapBelow n) * (grid p).2) :
    ∃ c, nearestOn tie n p = some c := by
  have hsome := roundsTo_neighbour hn hfine
  simp only [nearestOn]
  cases hb : roundsTo n p (4 * n * (grid p).2 / (grid p).1) with
  | false =>
    cases ha : roundsTo n p (4 * n * (grid p).2 / (grid p).1 + 1) with
    | false => simp [hb, ha] at hsome
    | true => exact ⟨_, rfl⟩
  | true =>
    cases ha : roundsTo n p (4 * n * (grid p).2 / (grid p).1 + 1) with
    | false => exact ⟨_, rfl⟩
    | true =>
      dsimp only
      split
      · exact ⟨_, rfl⟩
      · split
        · exact ⟨_, rfl⟩
        · cases tie with
          | up => exact ⟨_, rfl⟩
          | even => exact ⟨_, rfl⟩

theorem mul_pow_length_le (t : Nat) {u s : Nat} {e : Int} (hn : 0 < n) (hu : 0 < u) (hs : u ≤ s)
    (hst : s = 10 ^ t) (he : e = t + 1) :
    (u : ℚ) * 10 ^ (((digitChars (n * s / u)).length : Int) - e) ≤ n := by
  have hpos : 0 < n * s / u := Nat.div_pos (hs.trans (Nat.le_mul_of_pos_left _ hn)) hu
  have hlength : 0 < (digitChars (n * s / u)).length := Nat.length_toDigits_pos
  have hdigits : 10 ^ ((digitChars (n * s / u)).length - 1) ≤ n * s / u := by
    by_contra hlt
    rcases Nat.eq_zero_or_pos ((digitChars (n * s / u)).length - 1) with hsmall | hlarge
    · rw [hsmall] at hlt
      omega
    · have hle := (Nat.length_toDigits_le_iff (by omega) hlarge).mpr (Nat.lt_of_not_le hlt)
      rw [← digitChars] at hle
      omega
  have hmul := (Nat.le_div_iff_mul_le hu).mp hdigits
  have hcast : (10 : ℚ) ^ ((digitChars (n * s / u)).length - 1) * u ≤ n * 10 ^ t := by
    rw [hst] at hmul ⊢
    exact_mod_cast hmul
  have hexp : ((digitChars (n * s / u)).length : Int) - e =
      ((digitChars (n * s / u)).length - 1 : Nat) - (t : Int) := by omega
  rw [hexp, zpow_sub₀ (by norm_num), zpow_natCast, zpow_natCast, mul_div_assoc',
    div_le_iff₀ (by positivity), mul_comm (u : ℚ)]
  exact hcast

theorem leadingExponent_le (hn : 0 < n) : (one : ℚ) * 10 ^ leadingExponent n ≤ n := by
  unfold leadingExponent
  exact mul_pow_length_le 324 hn one_pos (by decide +kernel) (by decide +kernel) (by norm_num)

theorem grid_fine (hn : 0 < n) :
    (grid (leadingExponent n - 16)).1 <
      2 * (gapAbove n + gapBelow n) * (grid (leadingExponent n - 16)).2 := by
  obtain ⟨-, hden⟩ := grid_pos (leadingExponent n - 16)
  have hdenq : (0 : ℚ) < (grid (leadingExponent n - 16)).2 := by exact_mod_cast hden
  have hsize := leadingExponent_le hn
  have hwide : (n : ℚ) ≤ 2 ^ 52 * (gapAbove n + gapBelow n) := by exact_mod_cast le_mul_gaps n
  have hnq : (0 : ℚ) < n := by exact_mod_cast hn
  have hstep : ((grid (leadingExponent n - 16)).1 : ℚ) / (grid (leadingExponent n - 16)).2 =
      4 * (one * 10 ^ leadingExponent n) / 10 ^ 16 := by
    have hten : (10 : ℚ) ^ (leadingExponent n - 16) = 10 ^ leadingExponent n / 10 ^ 16 := by
      rw [zpow_sub₀ (by norm_num)]
      rfl
    rw [grid_eq, hten]
    ring
  have hlt : ((grid (leadingExponent n - 16)).1 : ℚ) / (grid (leadingExponent n - 16)).2 <
      2 * (gapAbove n + gapBelow n) := by
    rw [hstep, div_lt_iff₀ (by norm_num)]
    linarith
  have hmul := (div_lt_iff₀ hdenq).mp hlt
  exact_mod_cast hmul

theorem rounds_shortest (tie : Tie) (hn : 0 < n) :
    Rounds n (4 * one * (shortest tie n).value) := by
  obtain ⟨c, hc⟩ := exists_nearestOn tie hn (grid_fine hn)
  have hsome : ((List.range 17).findSome? fun i : Nat ↦ (nearestOn tie n
      (leadingExponent n - i)).map fun c ↦ (⟨c, leadingExponent n - i⟩ : Decimal)).isSome := by
    rw [List.findSome?_isSome_iff]
    exact ⟨16, by simp, by simp [hc]⟩
  obtain ⟨d, hd⟩ := Option.isSome_iff_exists.mp hsome
  obtain ⟨i, -, hi⟩ := List.exists_of_findSome?_eq_some hd
  obtain ⟨c, hc, rfl⟩ := Option.map_eq_some_iff.mp hi
  have hshortest : shortest tie n = (⟨c, leadingExponent n - i⟩ : Decimal).carry := by
    simp only [shortest, hd, Option.getD_some]
  have hrounds := rounds_of_roundsTo hn (roundsTo_of_nearestOn hc)
  rw [hshortest, Decimal.value_carry, Decimal.value]
  convert hrounds using 1
  ring

theorem eq_of_value_eq {tie : Tie} (hn : 0 < n) (hm : 0 < m) (hrn : Representable n)
    (hrm : Representable m) (h : (shortest tie n).value = (shortest tie m).value) : n = m := by
  have hrounds := rounds_shortest tie hm
  rw [← h] at hrounds
  exact (rounds_shortest tie hn).unique hrounds hn hm hrn hrm

theorem value_shortest_pos (tie : Tie) (hn : 0 < n) : 0 < (shortest tie n).value := by
  have hpos := (rounds_shortest tie hn).pos hn
  have hone : (0 : ℚ) < one := by exact_mod_cast one_pos
  by_contra hle
  have hunit : 0 ≤ 4 * (one : ℚ) := by linarith
  have hmul := mul_nonpos_of_nonneg_of_nonpos hunit (not_lt.mp hle)
  linarith

end Binary64

end TokenContract
