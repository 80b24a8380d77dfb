import TokenContract.Number.Radix
import TokenContract.Toml.Basic

namespace TokenContract.Toml

-- Powers are those of the core library, whatever else is in scope.
attribute [local instance (high)] instPowNat

def isGap (c : Char) : Bool :=
  c == ' ' || c == '\t'

def skipGaps (cs : List Char) : List Char :=
  cs.dropWhile isGap

def isControl (c : Char) : Bool :=
  (c.toNat < 0x20 && c != '\t') || c.toNat == 0x7F

def newline? : List Char → Option (List Char)
  | '\n' :: cs => some cs
  | '\r' :: '\n' :: cs => some cs
  | _ => none

def charOf? (digits : List Char) : Option Char :=
  (natOfDigits? 16 digits).bind fun n ↦ if n.isValidChar then some (Char.ofNat n) else none

def escaped? : Char → Option Char
  | '"' => some '"'
  | '\\' => some '\\'
  | 'b' => some '\x08'
  | 'f' => some '\x0c'
  | 'n' => some '\n'
  | 'r' => some '\r'
  | 't' => some '\t'
  | _ => none

def cons? (c : Char) (r : Option (List Char × List Char)) : Option (List Char × List Char) :=
  r.map fun (cs, rest) ↦ (c :: cs, rest)

def readBasic : List Char → Option (List Char × List Char)
  | [] => none
  | '"' :: r => some ([], r)
  | '\\' :: 'u' :: a :: b :: c :: d :: r => do cons? (← charOf? [a, b, c, d]) (readBasic r)
  | '\\' :: 'U' :: a :: b :: c :: d :: e :: f :: g :: h :: r => do
    cons? (← charOf? [a, b, c, d, e, f, g, h]) (readBasic r)
  | '\\' :: e :: r => do cons? (← escaped? e) (readBasic r)
  | c :: r => if isControl c then none else cons? c (readBasic r)

def readLiteral : List Char → Option (List Char × List Char)
  | [] => none
  | '\'' :: r => some ([], r)
  | c :: r => if isControl c then none else cons? c (readLiteral r)

/-- What follows three quotes at the end of a text of several lines; up to two more quotes in front
of them belong to the text. -/
def spareQuotes (q : Char) : List Char → List Char × List Char
  | c :: d :: r =>
    if c == q && d == q then ([q, q], r) else if c == q then ([q], d :: r) else ([], c :: d :: r)
  | [c] => if c == q then ([q], []) else ([], [c])
  | [] => ([], [])

/-- The text of several lines up to three double quotes, and the rest. A backslash at the end of a
line joins it to the next text; `joining` holds between the two. -/
def readBasicLines (joining : Bool) : List Char → Option (List Char × List Char)
  | [] => none
  | '"' :: '"' :: '"' :: r => some (spareQuotes '"' r)
  | '\\' :: 'u' :: a :: b :: c :: d :: r => do
    cons? (← charOf? [a, b, c, d]) (readBasicLines false r)
  | '\\' :: 'U' :: a :: b :: c :: d :: e :: f :: g :: h :: r => do
    cons? (← charOf? [a, b, c, d, e, f, g, h]) (readBasicLines false r)
  | '\\' :: e :: r =>
    if (newline? (skipGaps (e :: r))).isSome then readBasicLines true (e :: r)
    else do cons? (← escaped? e) (readBasicLines false r)
  | '\r' :: '\n' :: r =>
    if joining then readBasicLines true r else cons? '\n' (readBasicLines false r)
  | c :: r =>
    if joining && (isGap c || c == '\n') then readBasicLines true r
    else if isControl c && c != '\n' then none
    else cons? c (readBasicLines false r)

def readLiteralLines : List Char → Option (List Char × List Char)
  | [] => none
  | '\'' :: '\'' :: '\'' :: r => some (spareQuotes '\'' r)
  | '\r' :: '\n' :: r => cons? '\n' (readLiteralLines r)
  | c :: r => if isControl c && c != '\n' then none else cons? c (readLiteralLines r)

def readText : List Char → Option (List Char × List Char)
  | '"' :: '"' :: '"' :: r => readBasicLines false ((newline? r).getD r)
  | '\'' :: '\'' :: '\'' :: r => readLiteralLines ((newline? r).getD r)
  | '"' :: r => readBasic r
  | '\'' :: r => readLiteral r
  | _ => none

def joinDigits? (isDigit : Char → Bool) : List Char → Option (List Char)
  | [] => some []
  | a :: '_' :: b :: r =>
    if isDigit a && isDigit b then (joinDigits? isDigit (b :: r)).map (a :: ·) else none
  | c :: r => if c == '_' then none else (joinDigits? isDigit r).map (c :: ·)

def isPadded : List Char → Bool
  | '0' :: c :: _ => c.isDigit
  | _ => false

def maxInteger : Int := 2 ^ (63 : Nat) - 1

def minInteger : Int := -2 ^ (63 : Nat)

def integer? (n : Int) : Option Toml :=
  if minInteger ≤ n ∧ n ≤ maxInteger then some (.integer n) else none

def marked? (base : Nat) (cs : List Char) : Option Toml := do
  let ds ← joinDigits? (fun c ↦ (digitValue c).isSome) cs
  integer? (← natOfDigits? base ds)

/-- A number with a point, whose neighbours are digits, or with an exponent. One that is too great
is none, but one that is too small counts as negative infinity. -/
def real? (cs : List Char) : Option Toml := do
  let (_, ds) := spanSign cs
  let (whole, rest) := spanDecimal ds
  let pointed := match rest with
    | '.' :: c :: _ => c.isDigit
    | '.' :: [] => false
    | _ => true
  if whole = [] || !pointed then none
  let x := (← Numeral.ofChars? cs).nearest
  if x = .infinite false then none else return .real x

def wordValue? (cs : List Char) : Option Toml :=
  match String.ofList cs with
  | "true" => some (.bool true)
  | "false" => some (.bool false)
  | "inf" | "+inf" => some (.real (.infinite false))
  | "-inf" => some (.real (.infinite true))
  | "nan" | "+nan" | "-nan" => some (.real .nan)
  | _ =>
    match cs with
    | '0' :: 'x' :: ds => marked? 16 ds
    | '0' :: 'o' :: ds => marked? 8 ds
    | '0' :: 'b' :: ds => marked? 2 ds
    | cs => do
      let cs ← joinDigits? Char.isDigit cs
      let (negative, ds) := spanSign cs
      if isPadded ds then none
      else if ds.all Char.isDigit then
        let n ← natOfDigits? 10 ds
        integer? (if negative then -(n : Int) else n)
      else real? cs

def readDigits (n : Nat) (cs : List Char) : Option (Nat × List Char) :=
  if (cs.take n).length = n ∧ (cs.take n).all Char.isDigit then
    (natOfDigits? 10 (cs.take n)).map (·, cs.drop n)
  else none

def readTwo (least greatest : Nat) (cs : List Char) : Option (Nat × List Char) :=
  (readDigits 2 cs).filter fun (n, _) ↦ least ≤ n && n ≤ greatest

def past? (c : Char) : List Char → Option (List Char)
  | [] => none
  | d :: cs => if d == c then some cs else none

def isLeapYear (y : Nat) : Bool :=
  y % 4 == 0 && (y % 100 != 0 || y % 400 == 0)

def daysIn (year month : Nat) : Nat :=
  if month = 2 then if isLeapYear year then 29 else 28
  else if month = 4 ∨ month = 6 ∨ month = 9 ∨ month = 11 then 30
  else 31

def skipDate (cs : List Char) : Option (List Char) := do
  let (year, cs) ← readDigits 4 cs
  let (month, cs) ← readTwo 1 12 (← past? '-' cs)
  let (_, cs) ← readTwo 1 (daysIn year month) (← past? '-' cs)
  return cs

def skipTime (cs : List Char) : Option (List Char) := do
  let (_, cs) ← readTwo 0 23 cs
  let (_, cs) ← readTwo 0 59 (← past? ':' cs)
  let (_, cs) ← readTwo 0 60 (← past? ':' cs)
  match cs with
  | '.' :: c :: r => if c.isDigit then return r.dropWhile Char.isDigit else none
  | cs => return cs

def isOffset : List Char → Bool
  | [] | ['Z'] | ['z'] => true
  | c :: cs =>
    (c == '+' || c == '-') &&
      (do
        let (_, cs) ← readTwo 0 23 cs
        let (_, cs) ← readTwo 0 59 (← past? ':' cs)
        return cs) == some []

def isTimeOfDate (cs : List Char) : Bool :=
  (skipTime cs).any isOffset

def isMoment (cs : List Char) : Bool :=
  skipTime cs == some [] ||
    match skipDate cs with
    | some [] => true
    | some (c :: cs) => (c == 'T' || c == 't') && isTimeOfDate cs
    | none => false

def isWordChar (c : Char) : Bool :=
  c.isAlphanum || c == '_' || c == '+' || c == '-' || c == '.' || c == ':'

def readWord (cs : List Char) : Option (Toml × List Char) :=
  let (word, rest) := (cs.takeWhile isWordChar, cs.dropWhile isWordChar)
  if isMoment word then
    match skipDate word, rest with
    | some [], ' ' :: more =>
      if isTimeOfDate (more.takeWhile isWordChar) then
        some (.moment, more.dropWhile isWordChar)
      else some (.moment, rest)
    | _, _ => some (.moment, rest)
  else (wordValue? word).map (·, rest)

end TokenContract.Toml
