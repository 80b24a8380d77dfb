import TokenContract.Number.Scaled
import Mathlib.Order.Nat

namespace TokenContract

-- Powers are those of the core library, whatever else is in scope.
attribute [local instance (high)] instPowNat

namespace Binary64

/-- A finite number of at most `b` units. -/
def Within (x : Binary64) (b : Nat) : Prop :=
  ∃ s n hn, x = .finite s n hn ∧ n ≤ b

def ceiling : Nat := 2 ^ (66 : Nat) * one

theorem Within.isFinite {b : Nat} {x : Binary64} (h : x.Within b) : x.isFinite = true := by
  obtain ⟨s, n, hn, rfl, -⟩ := h
  rfl

theorem isFinite_neg {x : Binary64} (h : x.isFinite = true) : (-x).isFinite = true := by
  cases x with
  | finite s n hn => rfl
  | nan | infinite s => cases h

theorem two_pow_excess_le (num den : Nat) : 2 ^ excess num den ≤ num / den / 2 + 1 := by
  rw [excess]
  generalize num / den = q
  rcases Nat.eq_zero_or_pos (Nat.log2 q) with hzero | hpos
  · rw [hzero]
    exact Nat.succ_le_succ (Nat.zero_le _)
  · have hself := Nat.log2_self_le (n := q) (by rintro rfl; exact absurd hpos (by simp))
    have hle : 2 ^ (Nat.log2 q - 52) ≤ 2 ^ (Nat.log2 q - 1) :=
      Nat.pow_le_pow_right Nat.two_pos (by omega)
    have hhalf : 2 ^ (Nat.log2 q - 1) * 2 = 2 ^ Nat.log2 q := Nat.two_pow_pred_mul_two hpos
    omega

theorem nearestUnits_le (num den : Nat) :
    nearestUnits num den ≤ num / den + num / den / 2 + 1 := by
  have hround := divNearest_le num (den * 2 ^ excess num den)
  rw [← Nat.div_div_eq_div_mul] at hround
  have hmul := Nat.mul_le_mul_right (2 ^ excess num den) hround
  rw [Nat.add_mul, Nat.one_mul] at hmul
  have hdiv := Nat.div_mul_le_self (num / den) (2 ^ excess num den)
  have hexcess := two_pow_excess_le num den
  rw [nearestUnits]
  omega

theorem le_nearestUnits (num den : Nat) : num / den ≤ nearestUnits num den + num / den / 2 := by
  have hround := le_divNearest num (den * 2 ^ excess num den)
  rw [← Nat.div_div_eq_div_mul] at hround
  have hmul := Nat.mul_le_mul_right (2 ^ excess num den) hround
  have hmod := Nat.mod_lt (num / den) (Nat.two_pow_pos (excess num den))
  have hdiv := Nat.div_add_mod' (num / den) (2 ^ excess num den)
  have hexcess := two_pow_excess_le num den
  rw [nearestUnits]
  omega

theorem ceiling_lt_limit : ceiling < limit := by
  have hpow {a b : Nat} (h : a < b) : 2 ^ a < 2 ^ b := Nat.pow_lt_pow_right Nat.one_lt_two h
  have hexponent : 66 + places < places + 1024 := by
    rw [Nat.add_comm]
    exact Nat.add_lt_add_left (by decide) places
  have hceiling : ceiling = 2 ^ (66 + places) := by rw [ceiling, one, ← Nat.pow_add]
  rw [hceiling]
  unfold limit
  exact hpow hexponent

theorem ofRatio_of_lt {num den : Nat} (h : nearestUnits num den < limit) (s : Bool) :
    ∃ hn, ofRatio s num den = .finite s (nearestUnits num den) hn :=
  ⟨⟨h, nearestUnits_form num den⟩, dif_pos h⟩

theorem within_ofRatio {s : Bool} {num den b : Nat} (h : 2 * (num / den) + 1 ≤ b)
    (hb : b ≤ ceiling) : (ofRatio s num den).Within b := by
  have hle : nearestUnits num den ≤ b := (nearestUnits_le num den).trans (by omega)
  have hlt : nearestUnits num den < limit := (hle.trans hb).trans_lt ceiling_lt_limit
  obtain ⟨hn, hratio⟩ := ofRatio_of_lt hlt s
  exact ⟨s, _, hn, hratio, hle⟩

theorem within_ofNat {n : Nat} (h : n ≤ maxWord) : (ofNat n).Within ceiling := by
  have hone := one_pos
  have hword : n * one ≤ 2 ^ (64 : Nat) * one :=
    Nat.mul_le_mul_right _ (h.trans (Nat.sub_le _ _))
  have hle : 2 * (n * one / 1) + 1 ≤ ceiling := by
    rw [Nat.div_one, ceiling]
    omega
  exact within_ofRatio hle le_rfl

theorem exists_ten {k : Nat} (hk : k ≤ maxTen) :
    ∃ s n hn, ofNat (10 ^ k) = .finite s n hn ∧ 10 ^ k * one ≤ 2 * n := by
  have hone := one_pos
  have hpower : 10 ^ k ≤ 10 ^ maxTen := Nat.pow_le_pow_right (n := 10) (by decide) hk
  -- The largest double has about `1.8 * 10 ^ 308` ones.
  obtain ⟨most, hmax, hlimit⟩ : ∃ m, 3 * 10 ^ maxTen + 3 ≤ 2 * m ∧ limit = m * one := by
    refine ⟨2 ^ (1024 : Nat), by decide +kernel, ?_⟩
    unfold limit one
    rw [Nat.add_comm, Nat.pow_add]
  have hsum := (Nat.add_le_add_right (Nat.mul_le_mul_left 3 hpower) 3).trans hmax
  have hroom := Nat.mul_le_mul_right one hsum
  rw [Nat.add_mul, Nat.mul_assoc, Nat.mul_assoc, ← hlimit] at hroom
  have hle := nearestUnits_le (10 ^ k * one) 1
  have hge := le_nearestUnits (10 ^ k * one) 1
  rw [Nat.div_one] at hle hge
  have hlt : nearestUnits (10 ^ k * one) 1 < limit := by omega
  obtain ⟨hn, hratio⟩ := ofRatio_of_lt hlt false
  exact ⟨false, _, hn, hratio, by omega⟩

theorem within_div {x : Binary64} (hx : x.Within ceiling) {k : Nat} (hpos : k ≠ 0)
    (hk : k ≤ maxTen) : (x / ofNat (10 ^ k)).Within ceiling := by
  obtain ⟨s, m, hm, rfl, hle⟩ := hx
  obtain ⟨t, n, hn, hten, hunits⟩ := exists_ten hk
  have hone := one_pos
  have hpower : 10 ≤ 10 ^ k := Nat.le_self_pow hpos 10
  have hfive : 5 * one ≤ n := by
    have hmul := Nat.mul_le_mul_right one hpower
    omega
  have hquotient : m * one / n ≤ m / 5 := by
    have hdiv := Nat.div_le_div_left hfive (by omega) (a := m * one)
    rwa [Nat.mul_div_mul_right _ _ hone] at hdiv
  have hdiv : (finite s m hm / finite t n hn : Binary64) = ofRatio (s != t) (m * one) n :=
    if_neg (by omega)
  have hceiling : 0 < ceiling := Nat.mul_pos (Nat.two_pow_pos _) hone
  have hbound : 2 * (m * one / n) + 1 ≤ ceiling := by omega
  rw [hten, hdiv]
  exact within_ofRatio hbound le_rfl

theorem finite_mul {s t : Bool} {m n : Nat} (hm : Representable m) (hn : Representable n) :
    (finite s m hm * finite t n hn : Binary64) = ofRatio (s != t) (m * n) one := by
  have hmul : (finite s m hm).mul (finite t n hn) = ofRatio (s != t) (m * n) one := by rw [mul]
  rw [← hmul]
  rfl

theorem isFinite_ofRatio {s : Bool} {num den : Nat} (h : ∀ t, ofRatio s num den ≠ .infinite t) :
    (ofRatio s num den).isFinite = true := by
  rw [ofRatio] at h ⊢
  split at h
  · rename_i hlt
    rw [dif_pos hlt]
    rfl
  · exact absurd rfl (h s)

theorem isFinite_mul {x y : Binary64} (hx : x.isFinite = true) (hy : y.isFinite = true)
    (h : ∀ s, x * y ≠ .infinite s) : (x * y).isFinite = true := by
  cases x with
  | nan | infinite s => cases hx
  | finite s m hm =>
    cases y with
    | nan | infinite t => cases hy
    | finite t n hn =>
      rw [finite_mul] at h ⊢
      exact isFinite_ofRatio h

theorem isFinite_of_scale {x y : Binary64} {e : Int} (hx : x.Within ceiling)
    (h : x.scale e = some y) : y.isFinite = true := by
  induction x, e using scale.induct with
  | case1 x e hsmall hup negative hinfinite =>
    rw [scale, if_pos hsmall, if_pos hup, hinfinite] at h
    cases h
  | case2 x e hsmall hup hnot =>
    rw [scale, if_pos hsmall, if_pos hup] at h
    have hten : (ofNat (10 ^ e.natAbs)).isFinite = true := by
      obtain ⟨_, _, _, hten, -⟩ := exists_ten hsmall
      rw [hten]
      rfl
    split at h
    · cases h
    · cases h
      exact isFinite_mul hx.isFinite hten fun s hs ↦ hnot s hs
  | case3 x e hsmall hdown =>
    rw [scale, if_pos hsmall, if_neg hdown] at h
    cases h
    exact (within_div hx (by omega) hsmall).isFinite
  | case4 e hlarge =>
    rw [scale, if_neg hlarge, if_pos rfl] at h
    cases h
    rfl
  | case5 x e hlarge hzero hup =>
    rw [scale, if_neg hlarge, if_neg hzero, if_pos hup] at h
    cases h
  | case6 x e hlarge hzero hdown ih =>
    rw [scale, if_neg hlarge, if_neg hzero, if_neg hdown] at h
    exact ih (within_div hx (by decide) le_rfl) h

end Binary64

theorem takeWord_le {n : Nat} (h : n ≤ Binary64.maxWord) (cs : List Char) :
    (takeWord n cs).1 ≤ Binary64.maxWord := by
  induction cs generalizing n with
  | nil => exact h
  | cons c cs ih =>
    rw [takeWord]
    split
    · rename_i hm
      exact ih hm
    · exact h

theorem Numeral.isFinite_of_toBinary64? {t : Numeral} {x : Binary64} (h : t.toBinary64? = some x) :
    x.isFinite = true := by
  obtain ⟨y, hy, rfl⟩ := Option.map_eq_some_iff.mp h
  have hzero : 0 ≤ Binary64.maxWord := Nat.zero_le _
  have hwhole := takeWord_le hzero t.whole
  have hdigits := takeWord_le hwhole t.fraction
  have hfinite := Binary64.isFinite_of_scale (Binary64.within_ofNat hdigits) hy
  split
  · exact Binary64.isFinite_neg hfinite
  · exact hfinite

end TokenContract
