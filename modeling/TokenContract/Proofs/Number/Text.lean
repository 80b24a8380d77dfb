import TokenContract.Number.Radix
import TokenContract.Proofs.Number.Shortest

namespace TokenContract

theorem isDigit_of_mem_digitChars {n : Nat} {c : Char} (h : c ∈ digitChars n) : c.isDigit :=
  Nat.isDigit_of_mem_toDigits (by omega) (by omega) h

theorem isDigit_of_mem_toString {n : Nat} {c : Char} (h : c ∈ (toString n).toList) :
    c.isDigit = true := by
  rw [Nat.toString_eq_ofList_toDigits, String.toList_ofList] at h
  exact isDigit_of_mem_digitChars h

theorem digitChars_ne_nil (n : Nat) : digitChars n ≠ [] :=
  Nat.toDigits_ne_nil

theorem ofDigitChars_digitChars (n : Nat) : Nat.ofDigitChars 10 (digitChars n) 0 = n :=
  Nat.ofDigitChars_ten_toDigits

theorem spanDecimal_append {ds r : List Char} (hds : ∀ c ∈ ds, c.isDigit)
    (hr : ∀ c ∈ r.head?, ¬c.isDigit) : spanDecimal (ds ++ r) = (ds, r) := by
  have hrest : r.takeWhile Char.isDigit = [] ∧ r.dropWhile Char.isDigit = r := by
    cases r with
    | nil => exact ⟨rfl, rfl⟩
    | cons c r =>
      have hc := hr c rfl
      simp [hc]
  rw [spanDecimal, List.takeWhile_append_of_pos hds, List.dropWhile_append_of_pos hds, hrest.1,
    hrest.2, List.append_nil]

theorem digitValue_of_isDigit {c : Char} (h : c.isDigit) :
    digitValue c = some (c.toNat - '0'.toNat) ∧ c.toNat - '0'.toNat < 10 := by
  rw [digitValue, if_pos h]
  refine ⟨rfl, ?_⟩
  simp only [Char.isDigit, Bool.and_eq_true, decide_eq_true_eq] at h
  have hle : c.toNat ≤ 57 := h.2
  have hzero : '0'.toNat = 48 := rfl
  omega

theorem natOfDigits?_eq {ds : List Char} (hds : ∀ c ∈ ds, c.isDigit) (hne : ds ≠ []) :
    natOfDigits? 10 ds = some (Nat.ofDigitChars 10 ds 0) := by
  rw [natOfDigits?, if_neg hne]
  clear hne
  generalize 0 = n
  induction ds generalizing n with
  | nil => rfl
  | cons c ds ih =>
    obtain ⟨hc, hlt⟩ := digitValue_of_isDigit (hds c List.mem_cons_self)
    rw [List.foldlM_cons, hc, Nat.ofDigitChars_cons, Nat.mul_comm 10 n]
    simp only [bind, Option.bind, if_pos hlt]
    exact ih (fun d hd ↦ hds d (List.mem_cons_of_mem _ hd)) _

theorem exponentOf?_mark (e : Int) :
    exponentOf? ((if e < 0 then ['e', '-'] else ['e', '+']) ++ digitChars e.natAbs) = some e := by
  have hdigits : ∀ c ∈ digitChars e.natAbs, c.isDigit := fun c hc ↦ isDigit_of_mem_digitChars hc
  have hall : (digitChars e.natAbs).all Char.isDigit := List.all_eq_true.mpr hdigits
  have hread := natOfDigits?_eq hdigits (digitChars_ne_nil _)
  rw [ofDigitChars_digitChars] at hread
  by_cases he : e < 0
  · simp only [if_pos he, List.cons_append, List.nil_append, exponentOf?, spanSign, hall, hread]
    simp [abs_of_neg he]
  · simp only [if_neg he, List.cons_append, List.nil_append, exponentOf?, spanSign, hall, hread]
    simp [abs_of_nonneg (not_lt.mp he)]

namespace Numeral

def ofUnsigned? (negative : Bool) (cs : List Char) : Option Numeral :=
  let (fraction, rest) :=
    match (spanDecimal cs).2 with
    | '.' :: r => spanDecimal r
    | r => ([], r)
  if (spanDecimal cs).1 = [] ∧ fraction = [] then none
  else (exponentOf? rest).map (mk negative (spanDecimal cs).1 fraction)

theorem ofChars?_eq (cs : List Char) :
    ofChars? cs = ofUnsigned? (spanSign cs).1 (spanSign cs).2 :=
  rfl

theorem ofUnsigned?_whole {ds r : List Char} (negative : Bool) (hds : ∀ c ∈ ds, c.isDigit)
    (hne : ds ≠ []) (hr : ∀ c ∈ r.head?, ¬c.isDigit ∧ c ≠ '.') :
    ofUnsigned? negative (ds ++ r) = (exponentOf? r).map (mk negative ds []) := by
  have hspan := spanDecimal_append hds fun d hd ↦ (hr d hd).1
  have hrest : (match r with
      | '.' :: r => spanDecimal r
      | r => ([], r)) = ([], r) := by
    split
    · exact absurd rfl (hr '.' rfl).2
    · rfl
  simp only [ofUnsigned?, hspan, hrest, hne, false_and, if_false]

theorem ofUnsigned?_point {ds fs r : List Char} (negative : Bool) (hds : ∀ c ∈ ds, c.isDigit)
    (hne : ds ≠ []) (hfs : ∀ c ∈ fs, c.isDigit) (hr : ∀ c ∈ r.head?, ¬c.isDigit) :
    ofUnsigned? negative (ds ++ '.' :: (fs ++ r)) = (exponentOf? r).map (mk negative ds fs) := by
  have hspan : spanDecimal (ds ++ '.' :: (fs ++ r)) = (ds, '.' :: (fs ++ r)) :=
    spanDecimal_append hds (by simp)
  simp only [ofUnsigned?, hspan, spanDecimal_append hfs hr, hne, false_and, if_false]

end Numeral

def isNumeral (c : Char) : Bool :=
  c.isDigit || c == '-' || c == '+' || c == '.' || c == 'e'

theorem isNumeral_of_isDigit {c : Char} (h : c.isDigit) : isNumeral c := by
  simp [isNumeral, h]

/-- A text without a sign that reads as a number. -/
structure ReadsAs (cs : List Char) (q : ℚ) : Prop where
  head : ∃ c ∈ cs.head?, c.isDigit
  chars : ∀ c ∈ cs, isNumeral c
  reads : ∃ whole fraction exponent,
    (∀ s, Numeral.ofUnsigned? s cs = some ⟨s, whole, fraction, exponent⟩) ∧
    (Nat.ofDigitChars 10 (whole ++ fraction) 0 : ℚ) * 10 ^ (exponent - fraction.length) = q

namespace ReadsAs

theorem exists_head {ds r : List Char} (hds : ∀ c ∈ ds, c.isDigit) (hne : ds ≠ []) :
    ∃ c ∈ (ds ++ r).head?, c.isDigit := by
  obtain ⟨c, cs, rfl⟩ := List.exists_cons_of_ne_nil hne
  exact ⟨c, rfl, hds c List.mem_cons_self⟩

theorem of_whole {ds r : List Char} {e : Int} (hds : ∀ c ∈ ds, c.isDigit) (hne : ds ≠ [])
    (hr : ∀ c ∈ r.head?, ¬c.isDigit ∧ c ≠ '.') (hchars : ∀ c ∈ r, isNumeral c)
    (he : exponentOf? r = some e) :
    ReadsAs (ds ++ r) (Nat.ofDigitChars 10 ds 0 * 10 ^ e) where
  head := exists_head hds hne
  chars := List.forall_mem_append.mpr ⟨fun c hc ↦ isNumeral_of_isDigit (hds c hc), hchars⟩
  reads := by
    refine ⟨ds, [], e, fun s ↦ ?_, ?_⟩
    · rw [Numeral.ofUnsigned?_whole s hds hne hr, he]
      rfl
    · simp

theorem of_point {ds fs r : List Char} {e : Int} (hds : ∀ c ∈ ds, c.isDigit) (hne : ds ≠ [])
    (hfs : ∀ c ∈ fs, c.isDigit) (hr : ∀ c ∈ r.head?, ¬c.isDigit) (hchars : ∀ c ∈ r, isNumeral c)
    (he : exponentOf? r = some e) :
    ReadsAs (ds ++ '.' :: (fs ++ r)) (Nat.ofDigitChars 10 (ds ++ fs) 0 * 10 ^ (e - fs.length)) where
  head := exists_head hds hne
  chars := by
    refine List.forall_mem_append.mpr ⟨fun c hc ↦ isNumeral_of_isDigit (hds c hc), ?_⟩
    refine List.forall_mem_cons.mpr ⟨rfl, List.forall_mem_append.mpr ⟨fun c hc ↦ ?_, hchars⟩⟩
    exact isNumeral_of_isDigit (hfs c hc)
  reads := by
    refine ⟨ds, fs, e, fun s ↦ ?_, rfl⟩
    rw [Numeral.ofUnsigned?_point s hds hne hfs hr, he]
    rfl

theorem unique {cs : List Char} {q r : ℚ} (hq : ReadsAs cs q) (hr : ReadsAs cs r) : q = r := by
  obtain ⟨w, f, e, hread, rfl⟩ := hq.reads
  obtain ⟨w', f', e', hread', rfl⟩ := hr.reads
  have he := (hread true).symm.trans (hread' true)
  cases he
  rfl

end ReadsAs

namespace Decimal

theorem isDigit_of_mem_replicate {e : Nat} : ∀ c ∈ List.replicate e '0', c.isDigit := by
  intro c hc
  rw [List.eq_of_mem_replicate hc]
  rfl

theorem readsAs_plain (point : Bool) (d : Decimal) : ReadsAs (d.plain point) d.value := by
  obtain ⟨n, exponent⟩ := d
  have hdigits : ∀ c ∈ digitChars n, c.isDigit := fun c hc ↦ isDigit_of_mem_digitChars hc
  have hne := digitChars_ne_nil n
  have hzero : ∀ c ∈ ['0'], c.isDigit := by simp
  have hend : exponentOf? [] = some 0 := rfl
  cases exponent with
  | ofNat e =>
    have hall : ∀ c ∈ digitChars n ++ List.replicate e '0', c.isDigit :=
      List.forall_mem_append.mpr ⟨hdigits, isDigit_of_mem_replicate⟩
    have hvalue : Nat.ofDigitChars 10 (digitChars n ++ List.replicate e '0') 0 = n * 10 ^ e := by
      rw [Nat.ofDigitChars_append, ofDigitChars_digitChars, Nat.ofDigitChars_replicate_zero,
        Nat.mul_comm]
    cases point with
    | false =>
      have hread := ReadsAs.of_whole hall (by simp [hne]) (by simp) (by simp) hend
      rw [hvalue] at hread
      simpa [plain, value] using hread
    | true =>
      have hread := ReadsAs.of_point hall (by simp [hne]) hzero (by simp) (by simp) hend
      rw [Nat.ofDigitChars_append, hvalue] at hread
      convert hread using 1
      · simp [plain]
      · simp [value, Nat.ofDigitChars_cons]
        ring
  | negSucc e =>
    by_cases hwhole : 0 < (digitChars n).length - (e + 1)
    · have htake : (digitChars n).take ((digitChars n).length - (e + 1)) ≠ [] := by
        rw [ne_eq, List.take_eq_nil_iff]
        simp [hne]
        omega
      have hexp : (0 : Int) - ((digitChars n).length - ((digitChars n).length - (e + 1)) : Nat) =
          Int.negSucc e := by omega
      have hread := ReadsAs.of_point (fun c hc ↦ hdigits c (List.mem_of_mem_take hc)) htake
        (fun c hc ↦ hdigits c (List.mem_of_mem_drop (i := (digitChars n).length - (e + 1)) hc))
        (by simp) (by simp) hend
      rw [List.take_append_drop, ofDigitChars_digitChars, List.length_drop, hexp,
        List.append_nil] at hread
      simp only [plain, if_pos hwhole]
      exact hread
    · have hall : ∀ c ∈ List.replicate (e + 1 - (digitChars n).length) '0' ++ digitChars n,
          c.isDigit := List.forall_mem_append.mpr ⟨isDigit_of_mem_replicate, hdigits⟩
      have hexp : (0 : Int) - (e + 1 - (digitChars n).length + (digitChars n).length : Nat) =
          Int.negSucc e := by omega
      have hvalue : Nat.ofDigitChars 10
          (['0'] ++ (List.replicate (e + 1 - (digitChars n).length) '0' ++ digitChars n)) 0 = n := by
        rw [Nat.ofDigitChars_append, Nat.ofDigitChars_append, Nat.ofDigitChars_replicate_zero]
        simp [Nat.ofDigitChars_cons, ofDigitChars_digitChars]
      have hread := ReadsAs.of_point hzero (by simp) hall (by simp) (by simp) hend
      rw [hvalue, List.length_append, List.length_replicate, hexp, List.append_nil] at hread
      simp only [plain, if_neg hwhole]
      exact hread

theorem readsAs_scientific (d : Decimal) : ReadsAs d.scientific d.value := by
  obtain ⟨n, exponent⟩ := d
  have hdigits : ∀ c ∈ digitChars n, c.isDigit := fun c hc ↦ isDigit_of_mem_digitChars hc
  have hexp := exponentOf?_mark (leading ⟨n, exponent⟩)
  have hn := ofDigitChars_digitChars n
  obtain ⟨c, cs, hcs⟩ := List.exists_cons_of_ne_nil (digitChars_ne_nil n)
  have hleading : leading ⟨n, exponent⟩ - cs.length = exponent := by
    simp only [leading, hcs, List.length_cons]
    push_cast
    ring
  have hmark : ∀ c ∈ ((if leading ⟨n, exponent⟩ < 0 then ['e', '-'] else ['e', '+']) ++
      digitChars (leading ⟨n, exponent⟩).natAbs).head?, ¬c.isDigit ∧ c ≠ '.' := by
    split
    · simp
    · simp
  have hchars : ∀ c ∈ (if leading ⟨n, exponent⟩ < 0 then ['e', '-'] else ['e', '+']) ++
      digitChars (leading ⟨n, exponent⟩).natAbs, isNumeral c := by
    refine List.forall_mem_append.mpr ⟨?_, fun c hc ↦ ?_⟩
    · split
      · exact List.all_eq_true.mp (by decide)
      · exact List.all_eq_true.mp (by decide)
    · exact isNumeral_of_isDigit (isDigit_of_mem_digitChars hc)
  rw [hcs] at hdigits hn
  have hone : ∀ a ∈ [c], a.isDigit := fun a ha ↦ hdigits a (by simp_all)
  cases cs with
  | nil =>
    have hread := ReadsAs.of_whole hone (by simp) hmark hchars hexp
    convert hread using 1
    · simp [scientific, hcs]
    · rw [List.length_nil, Nat.cast_zero, sub_zero] at hleading
      rw [hn, hleading, value]
  | cons c' cs =>
    have hread := ReadsAs.of_point hone (by simp)
      (fun a ha ↦ hdigits a (List.mem_cons_of_mem _ ha)) (fun a ha ↦ (hmark a ha).1) hchars hexp
    convert hread using 1
    · simp [scientific, hcs]
    · rw [List.singleton_append, hn, hleading, value]

end Decimal

namespace Binary64

def written (tie : Tie) (n : Nat) : Decimal :=
  if n = 0 then ⟨0, 0⟩ else shortest tie n

theorem eq_of_value_written_eq {tie : Tie} {m n : Nat} (hrn : Representable n)
    (hrm : Representable m) (h : (written tie n).value = (written tie m).value) : n = m := by
  have hzero : Decimal.value ⟨0, 0⟩ = 0 := by simp [Decimal.value]
  rcases Nat.eq_zero_or_pos n with hn | hn
  · rcases Nat.eq_zero_or_pos m with hm | hm
    · omega
    · have hpos := value_shortest_pos tie hm
      rw [written, written, if_pos hn, if_neg hm.ne', hzero] at h
      exact absurd h hpos.ne
  · rcases Nat.eq_zero_or_pos m with hm | hm
    · have hpos := value_shortest_pos tie hn
      rw [written, written, if_pos hm, if_neg hn.ne', hzero] at h
      exact absurd h hpos.ne'
    · rw [written, written, if_neg hn.ne', if_neg hm.ne'] at h
      exact eq_of_value_eq hn hm hrn hrm h

namespace Layout

def magnitude (l : Layout) (n : Nat) : List Char :=
  if l.writtenPlain (written l.tie n).leading then (written l.tie n).plain l.point
  else (written l.tie n).scientific

theorem write_eq (l : Layout) (s : Bool) (n : Nat) :
    l.write s n = if s then '-' :: l.magnitude n else l.magnitude n :=
  rfl

theorem readsAs_magnitude (l : Layout) (n : Nat) :
    ReadsAs (l.magnitude n) (written l.tie n).value := by
  unfold magnitude
  split
  · exact Decimal.readsAs_plain _ _
  · exact Decimal.readsAs_scientific _

theorem isNumeral_of_mem_write {l : Layout} {s : Bool} {n : Nat} :
    ∀ c ∈ l.write s n, isNumeral c := by
  have h := (l.readsAs_magnitude n).chars
  rw [write_eq]
  split
  · exact List.forall_mem_cons.mpr ⟨rfl, h⟩
  · exact h

theorem write_ne_nil (l : Layout) (s : Bool) (n : Nat) : l.write s n ≠ [] := by
  obtain ⟨c, hc, -⟩ := (l.readsAs_magnitude n).head
  rw [write_eq]
  split
  · simp
  · exact List.ne_nil_of_mem (List.mem_of_mem_head? hc)

theorem write_injective (l : Layout) {s t : Bool} {n m : Nat} (hrn : Representable n)
    (hrm : Representable m) (h : l.write s n = l.write t m) : s = t ∧ n = m := by
  have hn := l.readsAs_magnitude n
  have hm := l.readsAs_magnitude m
  have hminus {k : Nat} (hk : ReadsAs (l.magnitude k) (written l.tie k).value) {cs : List Char} :
      '-' :: cs ≠ l.magnitude k := fun he ↦ by
    obtain ⟨c, hc, hdigit⟩ := hk.head
    rw [← he] at hc
    cases hc
    cases hdigit
  have heq {k j : Nat} (hk : ReadsAs (l.magnitude k) (written l.tie k).value)
      (hj : ReadsAs (l.magnitude j) (written l.tie j).value) (hrk : Representable k)
      (hrj : Representable j) (he : l.magnitude k = l.magnitude j) : k = j :=
    eq_of_value_written_eq hrk hrj (hk.unique (he ▸ hj))
  rw [write_eq, write_eq] at h
  cases s with
  | false =>
    cases t with
    | false => exact ⟨rfl, heq hn hm hrn hrm h⟩
    | true => exact absurd h.symm (hminus hn)
  | true =>
    cases t with
    | false => exact absurd h (hminus hm)
    | true =>
      injection h with _ h
      exact ⟨rfl, heq hn hm hrn hrm h⟩

end Layout

end Binary64

end TokenContract
