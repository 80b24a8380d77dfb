import TokenContract.Number.Binary64
import TokenContract.Number.Decimal

namespace TokenContract

-- Powers are those of the core library, whatever else is in scope.
attribute [local instance (high)] instPowNat

/-- What to do with two equally near decimals: take the greater, or the one with the even digit. -/
inductive Tie
  | up
  | even
deriving DecidableEq, Repr

namespace Binary64

/-- The distance from a count of units to the next double above. -/
def gapAbove (n : Nat) : Nat :=
  2 ^ (Nat.log2 n - 52)

/-- The distance to the next double below, which is half as large at a power of two. -/
def gapBelow (n : Nat) : Nat :=
  if n = 2 ^ Nat.log2 n ∧ 53 ≤ Nat.log2 n then gapAbove n / 2 else gapAbove n

def grid : Int → Nat × Nat
  | .ofNat e => (10 ^ e * one * 4, 1)
  | .negSucc e => (one * 4, 10 ^ (e + 1))

/-- Whether `c` steps of the grid `10 ^ p` round to `n` units. The ends of the interval do if the
last binary digit of `n` is zero. -/
def roundsTo (n : Nat) (p : Int) (c : Nat) : Bool :=
  let (num, den) := grid p
  let low := (4 * n - 2 * gapBelow n) * den
  let high := (4 * n + 2 * gapAbove n) * den
  if n / gapAbove n % 2 = 0 then low ≤ c * num && c * num ≤ high
  else low < c * num && c * num < high

def nearestOn (tie : Tie) (n : Nat) (p : Int) : Option Nat :=
  let (num, den) := grid p
  let below := 4 * n * den / num
  let rest := 4 * n * den % num
  match roundsTo n p below, roundsTo n p (below + 1) with
  | true, true =>
    if 2 * rest < num then some below
    else if num < 2 * rest then some (below + 1)
    else match tie with
      | .up => some (below + 1)
      | .even => some (below + below % 2)
  | true, false => some below
  | false, true => some (below + 1)
  | false, false => none

/-- The exponent of the first digit of a positive count of units; no double has its first digit
beyond 324 places after the point. -/
def leadingExponent (n : Nat) : Int :=
  (digitChars (n * 10 ^ (324 : Nat) / one)).length - 325

/-- The shortest decimal that rounds to a positive count of units. Seventeen digits always do. -/
def shortest (tie : Tie) (n : Nat) : Decimal :=
  let top := leadingExponent n
  let found : Option Decimal := (List.range 17).findSome? fun i : Nat ↦
    (nearestOn tie n (top - i)).map fun c ↦ ⟨c, top - i⟩
  (found.getD ⟨0, 0⟩).carry

/-- How a finite double is written: which way ties go, for which exponents of the first digit all
places are written, and whether a whole number keeps `.0`. -/
structure Layout where
  tie : Tie
  writtenPlain : Int → Bool
  point : Bool

def Layout.write (l : Layout) (negative : Bool) (n : Nat) : List Char :=
  let d := if n = 0 then ⟨0, 0⟩ else shortest l.tie n
  let body := if l.writtenPlain d.leading then d.plain l.point else d.scientific
  if negative then '-' :: body else body

end Binary64

end TokenContract
