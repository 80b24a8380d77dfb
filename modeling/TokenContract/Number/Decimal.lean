namespace TokenContract

/-- The number `digits * 10 ^ exponent`. -/
structure Decimal where
  digits : Nat
  exponent : Int
deriving DecidableEq, Repr

def digitChars (n : Nat) : List Char :=
  Nat.toDigits 10 n

namespace Decimal

def leading (d : Decimal) : Int :=
  d.exponent + ((digitChars d.digits).length : Int) - 1

def carry (d : Decimal) : Decimal :=
  if d.digits = 10 then ⟨1, d.exponent + 1⟩ else d

def plain (point : Bool) (d : Decimal) : List Char :=
  let ds := digitChars d.digits
  match d.exponent with
  | .ofNat e => ds ++ List.replicate e '0' ++ (if point then ['.', '0'] else [])
  | .negSucc e =>
    let whole := ds.length - (e + 1)
    if 0 < whole then ds.take whole ++ '.' :: ds.drop whole
    else '0' :: '.' :: List.replicate (e + 1 - ds.length) '0' ++ ds

def scientific (d : Decimal) : List Char :=
  let mantissa :=
    match digitChars d.digits with
    | [] => []
    | [c] => [c]
    | c :: cs => c :: '.' :: cs
  let mark := if d.leading < 0 then ['e', '-'] else ['e', '+']
  mantissa ++ mark ++ digitChars d.leading.natAbs

end Decimal

end TokenContract
