import TokenContract.Number.Binary64
import TokenContract.Number.Decimal

namespace TokenContract

-- Powers are those of the core library, whatever else is in scope.
attribute [local instance (high)] instPowNat

def takeWord (n : Nat) : List Char → Nat × List Char
  | [] => (n, [])
  | c :: cs =>
    let m := n * 10 + (c.toNat - '0'.toNat)
    if m ≤ Binary64.maxWord then takeWord m cs else (n, c :: cs)

namespace Binary64

def maxTen : Nat := 308

/-- `x * 10 ^ e`, or nothing beyond the largest double. A power below the least is divided out in
parts. -/
def scale (x : Binary64) (e : Int) : Option Binary64 :=
  if e.natAbs ≤ maxTen then
    if 0 ≤ e then
      match x * ofNat (10 ^ e.natAbs) with
      | .infinite _ => none
      | y => some y
    else
      some (x / ofNat (10 ^ e.natAbs))
  else if x = zero false then some x
  else if 0 ≤ e then none
  else scale (x / ofNat (10 ^ maxTen)) (e + maxTen)
termination_by e.natAbs
decreasing_by simp only [maxTen] at *; omega

end Binary64

structure Numeral where
  negative : Bool
  whole : List Char
  fraction : List Char
  exponent : Int
deriving DecidableEq, Repr

def Numeral.toBinary64? (t : Numeral) : Option Binary64 :=
  let (n, dropped) := takeWord 0 t.whole
  let (m, unread) := takeWord n t.fraction
  let e := t.exponent + dropped.length - (t.fraction.length - unread.length : Nat)
  ((Binary64.ofNat m).scale e).map fun x ↦ if t.negative then -x else x

def Numeral.nearest (t : Numeral) : Binary64 :=
  let digits := (t.whole ++ t.fraction).foldl (fun n c ↦ n * 10 + (c.toNat - '0'.toNat)) 0
  let e := t.exponent - t.fraction.length
  let top := e + (digitChars digits).length
  if digits = 0 then .zero t.negative
  else if 310 < top then .infinite t.negative
  else if top < -330 then .zero t.negative
  else .ofDecimal t.negative digits e

end TokenContract
