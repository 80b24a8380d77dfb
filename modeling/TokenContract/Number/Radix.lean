import TokenContract.Number.Scaled

namespace TokenContract

def digitValue (c : Char) : Option Nat :=
  if c.isDigit then some (c.toNat - '0'.toNat)
  else if 'a' ≤ c ∧ c ≤ 'f' then some (c.toNat - 'a'.toNat + 10)
  else if 'A' ≤ c ∧ c ≤ 'F' then some (c.toNat - 'A'.toNat + 10)
  else none

/-- The number that digits in a base stand for; there is at least one. -/
def natOfDigits? (base : Nat) (ds : List Char) : Option Nat :=
  if ds = [] then none
  else ds.foldlM (fun n c ↦ do
    let d ← digitValue c
    if d < base then some (n * base + d) else none) 0

def spanDecimal (cs : List Char) : List Char × List Char :=
  (cs.takeWhile Char.isDigit, cs.dropWhile Char.isDigit)

def spanSign : List Char → Bool × List Char
  | '-' :: cs => (true, cs)
  | '+' :: cs => (false, cs)
  | cs => (false, cs)

def exponentOf? : List Char → Option Int
  | [] => some 0
  | c :: cs =>
    if c = 'e' ∨ c = 'E' then
      let (down, ds) := spanSign cs
      if ds.all Char.isDigit then
        (natOfDigits? 10 ds).map fun n ↦ if down then -(n : Int) else n
      else none
    else none

/-- A decimal numeral: a sign, digits with or without a point among or beside them, and an
exponent. -/
def Numeral.ofChars? (cs : List Char) : Option Numeral :=
  let (negative, cs) := spanSign cs
  let (whole, rest) := spanDecimal cs
  let (fraction, rest) :=
    match rest with
    | '.' :: r => spanDecimal r
    | r => ([], r)
  if whole = [] ∧ fraction = [] then none
  else (exponentOf? rest).map (Numeral.mk negative whole fraction)

end TokenContract
