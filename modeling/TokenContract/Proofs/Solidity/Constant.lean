import TokenContract.Proofs.Number.Text
import Mathlib.Data.Nat.Digits.Defs

namespace TokenContract.Solidity

inductive Token
  | numeral (digits : List Char)
  | times
  | over
  | power
  | opening
  | closing
  | other (c : Char)
deriving DecidableEq

namespace Token

def ofDigits : List Char → List Token
  | [] => []
  | digits => [.numeral digits]

def ofChar : Char → List Token
  | ' ' => []
  | '*' => [.times]
  | '/' => [.over]
  | '(' => [.opening]
  | ')' => [.closing]
  | c => [.other c]

def scan (digits : List Char) : List Char → List Token
  | [] => ofDigits digits
  | '*' :: '*' :: cs => ofDigits digits ++ .power :: scan [] cs
  | c :: cs =>
    if c.isDigit then scan (digits ++ [c]) cs else ofDigits digits ++ ofChar c ++ scan [] cs

theorem ofDigits_of_ne {digits : List Char} (h : digits ≠ []) :
    ofDigits digits = [.numeral digits] := by
  cases digits with
  | nil => exact absurd rfl h
  | cons d ds => rfl

theorem scan_digits {ds : List Char} (h : ∀ c ∈ ds, c.isDigit) (digits cs : List Char) :
    scan digits (ds ++ cs) = scan (digits ++ ds) cs := by
  induction ds generalizing digits with
  | nil => rw [List.append_nil, List.nil_append]
  | cons d ds ih =>
    obtain ⟨hd, hds⟩ := List.forall_mem_cons.mp h
    have hstar : d ≠ '*' := by
      rintro rfl
      exact absurd hd (by decide)
    rw [List.cons_append, scan, if_pos hd, ih hds, List.append_assoc, List.singleton_append]
    intro _ he
    exact absurd he hstar

end Token

/-- The number that digits stand for. Zeros at the front are read past, though the language takes no
numeral with them. -/
def numeral (digits : List Char) : Nat :=
  Nat.ofDigitChars 10 digits 0

theorem digit_eq_zero_iff {d : Char} (h : d.isDigit) : d.toNat - '0'.toNat = 0 ↔ d = '0' := by
  have hle := (Char.isDigit_iff_toNat.mp h).1
  rw [← Char.toNat_inj]
  omega

theorem digit_lt {d : Char} (h : d.isDigit) : d.toNat - '0'.toNat < 10 := by
  have hle := (Char.isDigit_iff_toNat.mp h).2
  change d.toNat ≤ 57 at hle
  change d.toNat - 48 < 10
  omega

theorem numeral_pos_iff {ds : List Char} (h : ∀ c ∈ ds, c.isDigit) :
    0 < numeral ds ↔ ∃ c ∈ ds, c ≠ '0' := by
  -- The induction is over what was read before the digits.
  suffices hfrom : ∀ n, 0 < Nat.ofDigitChars 10 ds n ↔ 0 < n ∨ ∃ c ∈ ds, c ≠ '0' by
    rw [numeral, hfrom, or_iff_right (Nat.lt_irrefl 0)]
  induction ds with
  | nil => simp
  | cons d ds ih =>
    obtain ⟨hd, hds⟩ := List.forall_mem_cons.mp h
    intro n
    have hstep : 0 < 10 * n + (d.toNat - '0'.toNat) ↔ 0 < n ∨ d ≠ '0' := by
      rw [ne_eq, ← digit_eq_zero_iff hd]
      omega
    rw [Nat.ofDigitChars_cons, ih hds, hstep, List.exists_mem_cons_iff, or_assoc]

theorem length_digits_ofDigitChars {ds : List Char} (h : ∀ c ∈ ds, c.isDigit) {n : Nat}
    (hn : n ≠ 0) : (Nat.digits 10 (Nat.ofDigitChars 10 ds n)).length =
      (Nat.digits 10 n).length + ds.length := by
  induction ds generalizing n with
  | nil => rfl
  | cons d ds ih =>
    obtain ⟨hd, hds⟩ := List.forall_mem_cons.mp h
    rw [Nat.ofDigitChars_cons, ih hds (by omega), Nat.add_comm (10 * n),
      Nat.digits_add 10 (by decide) _ n (digit_lt hd) (.inr hn), List.length_cons, List.length_cons]
    omega

theorem length_digits_numeral {ds : List Char} (h : ∀ c ∈ ds, c.isDigit) :
    (Nat.digits 10 (numeral ds)).length = (ds.dropWhile (· == '0')).length := by
  induction ds with
  | nil => rfl
  | cons d ds ih =>
    obtain ⟨hd, hds⟩ := List.forall_mem_cons.mp h
    by_cases hzero : d = '0'
    · subst hzero
      rw [List.dropWhile_cons_of_pos (by decide), ← ih hds]
      rfl
    · have hdigit : d.toNat - '0'.toNat ≠ 0 := by rwa [ne_eq, digit_eq_zero_iff hd]
      rw [List.dropWhile_cons_of_neg (by simpa using hzero), numeral, Nat.ofDigitChars_cons,
        Nat.mul_zero, Nat.zero_add, length_digits_ofDigitChars hds hdigit,
        Nat.digits_of_lt 10 _ hdigit (digit_lt hd), List.length_singleton, List.length_cons,
        Nat.add_comm]

def natural? (x : ℚ) : Option Nat :=
  if x.den = 1 ∧ 0 ≤ x then some x.num.toNat else none

mutual

def atom? : Nat → List Token → Option (ℚ × List Token)
  | _ + 1, .numeral digits :: ts => some (numeral digits, ts)
  | n + 1, .opening :: ts =>
    match product? n ts with
    | some (x, .closing :: us) => some (x, us)
    | _ => none
  | _, _ => none

def power? : Nat → List Token → Option (ℚ × List Token)
  | 0, _ => none
  | n + 1, ts =>
    match atom? n ts with
    | some (x, .power :: us) =>
      match power? n us with
      | some (y, vs) => (natural? y).map fun k ↦ (x ^ k, vs)
      | none => none
    | r => r

def product? : Nat → List Token → Option (ℚ × List Token)
  | 0, _ => none
  | n + 1, ts =>
    match power? n ts with
    | some (x, us) => factors? n x us
    | none => none

def factors? : Nat → ℚ → List Token → Option (ℚ × List Token)
  | 0, _, _ => none
  | n + 1, x, .times :: ts =>
    match power? n ts with
    | some (y, us) => factors? n (x * y) us
    | none => none
  | n + 1, x, .over :: ts =>
    match power? n ts with
    | some (y, us) => if y = 0 then none else factors? n (x / y) us
    | none => none
  | _ + 1, x, ts => some (x, ts)

end

/-- The value of a constant expression. A token takes up at most three calls within each other. -/
def constant? (s : String) : Option ℚ :=
  let ts := Token.scan [] s.toList
  match product? (4 * (ts.length + 1)) ts with
  | some (x, []) => some x
  | _ => none

theorem natural?_natCast (k : Nat) : natural? k = some k := by
  have h : ((k : ℚ).den = 1 ∧ 0 ≤ (k : ℚ)) := ⟨Rat.den_natCast k, Nat.cast_nonneg k⟩
  rw [natural?, if_pos h, Rat.num_natCast]
  rfl

theorem constant?_of_scan {s : String} {ts : List Token} {x : ℚ} (hs : Token.scan [] s.toList = ts)
    (hts : product? (4 * (ts.length + 1)) ts = some (x, [])) : constant? s = some x := by
  rw [constant?, hs]
  simp only [hts]

section Scaled

variable {ds es fs : List Char}

theorem Token.scan_scaled (hds : ∀ c ∈ ds, c.isDigit) (hne : ds ≠ [])
    (hes : ∀ c ∈ es, c.isDigit) (cs : List Char) :
    scan [] (ds ++ (" * 10 ** ".toList ++ (es ++ cs))) =
      [.numeral ds, .times, .numeral ['1', '0'], .power] ++ scan es cs := by
  have hsign : scan ds (" * 10 ** ".toList ++ (es ++ cs)) =
      ofDigits ds ++ [.times, .numeral ['1', '0'], .power] ++ scan [] (es ++ cs) := by
    simp [scan, ofDigits, ofChar]
  rw [scan_digits hds, List.nil_append, hsign, ofDigits_of_ne hne, scan_digits hes]
  rfl

theorem Token.scan_share (hes : es ≠ []) (hfs : ∀ c ∈ fs, c.isDigit) (hne : fs ≠ []) :
    scan es (") * ".toList ++ (fs ++ " / 10000".toList)) =
      [.numeral es, .closing, .times, .numeral fs, .over, .numeral "10000".toList] := by
  have hclose : scan es (") * ".toList ++ (fs ++ " / 10000".toList)) =
      ofDigits es ++ [.closing, .times] ++ scan [] (fs ++ " / 10000".toList) := by
    simp [scan, ofDigits, ofChar]
  have hover : scan fs " / 10000".toList = ofDigits fs ++ [.over, .numeral "10000".toList] := by
    simp [scan, ofDigits, ofChar]
  rw [hclose, scan_digits hfs, List.nil_append, hover, ofDigits_of_ne hes, ofDigits_of_ne hne]
  rfl

theorem constant?_scaled {s : String} (hs : s.toList = ds ++ (" * 10 ** ".toList ++ es))
    (hds : ∀ c ∈ ds, c.isDigit) (hds' : ds ≠ []) (hes : ∀ c ∈ es, c.isDigit) (hes' : es ≠ []) :
    constant? s = some ((numeral ds : ℚ) * 10 ^ numeral es) := by
  have hten : numeral ['1', '0'] = 10 := by decide
  have hscan := Token.scan_scaled hds hds' hes []
  rw [List.append_nil, ← hs, Token.scan, Token.ofDigits_of_ne hes'] at hscan
  refine constant?_of_scan hscan ?_
  simp [product?, power?, atom?, factors?, natural?_natCast, hten]

theorem constant?_share {s : String}
    (hs : s.toList =
      '(' :: (ds ++ (" * 10 ** ".toList ++ (es ++ (") * ".toList ++ (fs ++ " / 10000".toList))))))
    (hds : ∀ c ∈ ds, c.isDigit) (hds' : ds ≠ []) (hes : ∀ c ∈ es, c.isDigit) (hes' : es ≠ [])
    (hfs : ∀ c ∈ fs, c.isDigit) (hfs' : fs ≠ []) :
    constant? s = some ((numeral ds : ℚ) * 10 ^ numeral es * numeral fs / 10000) := by
  have hten : numeral ['1', '0'] = 10 := by decide
  have hwhole : numeral ['1', '0', '0', '0', '0'] = 10000 := by decide
  have hscan : Token.scan [] s.toList = [.opening, .numeral ds, .times, .numeral ['1', '0'], .power,
      .numeral es, .closing, .times, .numeral fs, .over, .numeral "10000".toList] := by
    have hopen (cs : List Char) : Token.scan [] ('(' :: cs) = .opening :: Token.scan [] cs := by
      simp [Token.scan, Token.ofDigits, Token.ofChar]
    rw [hs, hopen, Token.scan_scaled hds hds' hes, Token.scan_share hes' hfs hfs']
    rfl
  refine constant?_of_scan hscan ?_
  simp [product?, power?, atom?, factors?, natural?_natCast, hten, hwhole]

end Scaled

/-- A numeral that the language takes for a whole number: digits, of which only a lone one may be a
zero at the front. -/
structure IsNumeral (cs : List Char) : Prop where
  digits : ∀ c ∈ cs, c.isDigit
  nonempty : cs ≠ []
  front : cs.head? = some '0' → cs = ['0']

/-- A constant that a variable of natural numbers takes and that is not zero. -/
def IsPositive (s : String) : Prop :=
  ∃ k : Nat, 0 < k ∧ constant? s = some (k : ℚ)

theorem isNumeral_iff_of_pos {ds : List Char} (hds : ∀ c ∈ ds, c.isDigit) (hpos : 0 < numeral ds) :
    IsNumeral ds ↔ ds.head? ≠ some '0' := by
  obtain ⟨c, hc, hne⟩ := (numeral_pos_iff hds).mp hpos
  constructor
  · intro h hzero
    rw [h.front hzero, List.mem_singleton] at hc
    exact hne hc
  · exact fun h ↦ ⟨hds, List.ne_nil_of_mem hc, fun hzero ↦ absurd hzero h⟩

example : constant? "(1 * 10 ** 0) * 5 / 10000" = some (1 / 2000) := by decide +kernel

example : constant? "2 ** 3 ** 2 / (8 * 4)" = some 16 := by decide +kernel

end TokenContract.Solidity
