import TokenContract.Json.Basic
import TokenContract.Number.Scaled

namespace TokenContract.Json

-- Powers are those of the core library, whatever else is in scope.
attribute [local instance (high)] instPowNat

def isSpace (c : Char) : Bool :=
  c == ' ' || c == '\t' || c == '\n' || c == '\r'

def skipSpace (cs : List Char) : List Char :=
  cs.dropWhile isSpace

def hexValue (c : Char) : Option Nat :=
  if c.isDigit then some (c.toNat - '0'.toNat)
  else if 'a' ≤ c ∧ c ≤ 'f' then some (c.toNat - 'a'.toNat + 10)
  else if 'A' ≤ c ∧ c ≤ 'F' then some (c.toNat - 'A'.toNat + 10)
  else none

def unit (a b c d : Char) : Option Nat := do
  return ((← hexValue a) * 16 + (← hexValue b)) * 256 + ((← hexValue c) * 16 + (← hexValue d))

def isLeading (n : Nat) : Bool := 0xD800 ≤ n && n < 0xDC00

def isTrailing (n : Nat) : Bool := 0xDC00 ≤ n && n < 0xE000

def shortEscape : Char → Option Char
  | '"' => some '"'
  | '\\' => some '\\'
  | '/' => some '/'
  | 'b' => some '\x08'
  | 'f' => some '\x0c'
  | 'n' => some '\n'
  | 'r' => some '\r'
  | 't' => some '\t'
  | _ => none

/-- A piece of a string: a character, or half of one that is escaped as a pair. -/
inductive Piece
  | char (c : Char)
  | half (n : Nat)

def Piece.ofUnit (n : Nat) : Piece :=
  if isLeading n || isTrailing n then .half n else .char (Char.ofNat n)

/-- The pieces of a string after its opening quote, and what follows the closing one. -/
def readPieces : List Char → Option (List Piece × List Char)
  | [] => none
  | '"' :: r => some ([], r)
  | '\\' :: 'u' :: a :: b :: c :: d :: r =>
    match unit a b c d with
    | some n => (readPieces r).map fun (ps, rest) ↦ (.ofUnit n :: ps, rest)
    | none => none
  | '\\' :: e :: r =>
    match shortEscape e with
    | some c => (readPieces r).map fun (ps, rest) ↦ (.char c :: ps, rest)
    | none => none
  | c :: r =>
    if c.toNat < 0x20 then none else (readPieces r).map fun (ps, rest) ↦ (.char c :: ps, rest)

def joinPieces : List Piece → Option (List Char)
  | [] => some []
  | .char c :: ps => (joinPieces ps).map (c :: ·)
  | .half n :: .half m :: ps =>
    if isLeading n && isTrailing m then
      (joinPieces ps).map (Char.ofNat (0x10000 + (n - 0xD800) * 0x400 + (m - 0xDC00)) :: ·)
    else none
  | .half _ :: _ => none

def spanDigits (cs : List Char) : List Char × List Char :=
  (cs.takeWhile Char.isDigit, cs.dropWhile Char.isDigit)

def decimalValue (ds : List Char) : Nat :=
  ds.foldl (fun n c ↦ n * 10 + (c.toNat - '0'.toNat)) 0

def readExponent : List Char → Option (Option Int × List Char)
  | c :: r =>
    if c = 'e' ∨ c = 'E' then
      let (down, r) := match r with
        | '-' :: r => (true, r)
        | '+' :: r => (false, r)
        | r => (false, r)
      match spanDigits r with
      | ([], _) => none
      | (ds, rest) => some (some (if down then -decimalValue ds else decimalValue ds), rest)
    else some (none, c :: r)
  | [] => some (none, [])

def readFraction : List Char → Option (Option (List Char) × List Char)
  | '.' :: r =>
    match spanDigits r with
    | ([], _) => none
    | (ds, rest) => some (some ds, rest)
  | r => some (none, r)

/-- A whole number of 64 bits is an integer, save the negative zero; all else is a double. -/
def wholeNumber (negative : Bool) (ds : List Char) : Json :=
  let n := decimalValue ds
  if !negative && n ≤ Binary64.maxWord then .integer n
  else if negative && 0 < n && n ≤ 2 ^ (63 : Nat) then .integer (-n)
  else match (Numeral.mk negative ds [] 0).toBinary64? with
    | some x => .real x
    | none => .fault .valueless

def readNumber (cs : List Char) : Json × List Char :=
  let (negative, cs) := match cs with
    | '-' :: r => (true, r)
    | r => (false, r)
  match spanDigits cs with
  | ([], _) | ('0' :: _ :: _, _) => (.fault .broken, [])
  | (whole, r) =>
    match readFraction r with
    | none => (.fault .broken, [])
    | some (fraction, r) =>
      match readExponent r with
      | none => (.fault .broken, [])
      | some (exponent, r) =>
        if fraction.isNone && exponent.isNone then (wholeNumber negative whole, r)
        else
          match (Numeral.mk negative whole (fraction.getD []) (exponent.getD 0)).toBinary64? with
          | some x => (.real x, r)
          | none => (.fault .valueless, r)

def readScalar : List Char → Json × List Char
  | 'n' :: 'u' :: 'l' :: 'l' :: r => (.null, r)
  | 't' :: 'r' :: 'u' :: 'e' :: r => (.bool true, r)
  | 'f' :: 'a' :: 'l' :: 's' :: 'e' :: r => (.bool false, r)
  | cs => readNumber cs

mutual

def readValue : Nat → List Char → Json × List Char
  | 0, _ => (.fault .broken, [])
  | n + 1, cs =>
    match skipSpace cs with
    | '"' :: r =>
      match readPieces r with
      | some (ps, rest) =>
        match joinPieces ps with
        | some s => (.text (String.ofList s), rest)
        | none => (.fault .valueless, rest)
      | none => (.fault .broken, [])
    | '[' :: r =>
      match skipSpace r with
      | ']' :: r => (.array [], r)
      | r =>
        let (items, rest) := readItems n r
        (.array items, rest)
    | '{' :: r =>
      match skipSpace r with
      | '}' :: r => (.object [], r)
      | r =>
        let (fields, rest) := readFields n r
        (.object fields, rest)
    | cs => readScalar cs

def readItems : Nat → List Char → List Json × List Char
  | 0, _ => ([.fault .broken], [])
  | n + 1, cs =>
    let (j, r) := readValue n cs
    match skipSpace r with
    | ',' :: r =>
      let (js, rest) := readItems n r
      (j :: js, rest)
    | ']' :: rest => ([j], rest)
    | _ => ([j, .fault .broken], [])

/-- The fields of an object from one of them on. A name with an unpaired surrogate is none, and a
fault stands for its field. -/
def readFields : Nat → List Char → List (String × Json) × List Char
  | 0, _ => ([("", .fault .broken)], [])
  | n + 1, cs =>
    match skipSpace cs with
    | '"' :: r =>
      match readPieces r with
      | none => ([("", .fault .broken)], [])
      | some (ps, r) =>
        match skipSpace r with
        | ':' :: r =>
          let (j, r) := readValue n r
          let field :=
            match joinPieces ps with
            | some s => (String.ofList s, j)
            | none => ("", .fault (if j.isBroken then .broken else .nameless))
          match skipSpace r with
          | ',' :: r =>
            let (fs, rest) := readFields n r
            (field :: fs, rest)
          | '}' :: rest => ([field], rest)
          | _ => ([field, ("", .fault .broken)], [])
        | _ => ([(String.ofList ((joinPieces ps).getD []), .fault .broken)], [])
    | _ => ([("", .fault .broken)], [])

end

/-- A document, and whether nothing but space follows it. -/
def read (s : String) : Json × Bool :=
  let cs := s.toList
  let (j, rest) := readValue (2 * cs.length + 2) cs
  (j, (skipSpace rest).isEmpty)

end TokenContract.Json
