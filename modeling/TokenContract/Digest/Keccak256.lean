import TokenContract.Digest.Hex

namespace TokenContract.Digest.Keccak

/-- Five by five lanes, with lane `x + 5 * y` in column `x` and row `y`. -/
abbrev State := Vector UInt64 25

def rotateLeft (w : UInt64) (n : Nat) : UInt64 :=
  if n = 0 then w else (w <<< n.toUInt64) ||| (w >>> (64 - n).toUInt64)

def lane (s : State) (x y : Nat) : UInt64 :=
  s.toArray.getD (x % 5 + 5 * (y % 5)) 0

def ofLanes (f : Nat → Nat → UInt64) : State :=
  .ofFn fun i ↦ f (i.val % 5) (i.val / 5)

def theta (s : State) : State :=
  let parity : Vector UInt64 5 := .ofFn fun x ↦
    lane s x 0 ^^^ lane s x 1 ^^^ lane s x 2 ^^^ lane s x 3 ^^^ lane s x 4
  let column (x : Nat) : UInt64 := parity.toArray.getD (x % 5) 0
  ofLanes fun x y ↦ lane s x y ^^^ column (x + 4) ^^^ rotateLeft (column (x + 1)) 1

def offsets : Vector Nat 25 :=
  #v[0, 1, 62, 28, 27, 36, 44, 6, 55, 20, 3, 10, 43, 25, 39, 41, 45, 15, 21, 8, 18, 2, 61, 56, 14]

def rho (s : State) : State :=
  .zipWith rotateLeft s offsets

/-- Moves the lanes: row `x`, column `x + 3 * y` goes to row `y`, column `x`. -/
def pi (s : State) : State :=
  ofLanes fun x y ↦ lane s (x + 3 * y) x

def chi (s : State) : State :=
  ofLanes fun x y ↦ lane s x y ^^^ ((lane s (x + 1) y ^^^ 0xFFFFFFFFFFFFFFFF) &&& lane s (x + 2) y)

def roundConstants : List UInt64 :=
  [0x0000000000000001, 0x0000000000008082, 0x800000000000808A, 0x8000000080008000,
    0x000000000000808B, 0x0000000080000001, 0x8000000080008081, 0x8000000000008009,
    0x000000000000008A, 0x0000000000000088, 0x0000000080008009, 0x000000008000000A,
    0x000000008000808B, 0x800000000000008B, 0x8000000000008089, 0x8000000000008003,
    0x8000000000008002, 0x8000000000000080, 0x000000000000800A, 0x800000008000000A,
    0x8000000080008081, 0x8000000000008080, 0x0000000080000001, 0x8000000080008008]

def round (s : State) (constant : UInt64) : State :=
  let s := chi (pi (rho (theta s)))
  s.set 0 (s[0] ^^^ constant)

def permute (s : State) : State :=
  roundConstants.foldl round s

def rate : Nat := 136

def word (bytes : List UInt8) : UInt64 :=
  bytes.foldr (fun b w ↦ (w <<< 8) ||| b.toUInt64) 0

def pad (message : List UInt8) : List UInt8 :=
  let room := rate - message.length % rate
  if room = 1 then message ++ [0x81]
  else message ++ 0x01 :: List.replicate (room - 2) 0 ++ [0x80]

def absorb (s : State) (block : List UInt8) : State :=
  let words := ((chunks 8 block).map word).toArray
  permute (.ofFn fun i ↦ s[i] ^^^ words.getD i 0)

def wordBytes (w : UInt64) : List UInt8 :=
  (List.range 8).map fun i ↦ (w >>> (8 * i).toUInt64).toUInt8

def hash (message : List UInt8) : List UInt8 :=
  let s := (chunks rate (pad message)).foldl absorb (Vector.replicate 25 0)
  (s.toList.take 4).flatMap wordBytes

end TokenContract.Digest.Keccak
