import TokenContract.Digest.Keccak256

namespace TokenContract.Address

def isHexDigit (c : Char) : Bool :=
  c.isDigit || ('a' ≤ c && c ≤ 'f') || ('A' ≤ c && c ≤ 'F')

def digits? (s : String) : Option (List Char) :=
  match s.toList with
  | '0' :: 'x' :: ds => if ds.length = 40 ∧ ds.all isHexDigit then some ds else none
  | _ => none

def isAddress (s : String) : Bool :=
  (digits? s).isSome

def nibbles (bytes : List UInt8) : List Nat :=
  bytes.flatMap fun b ↦ [b.toNat / 16, b.toNat % 16]

/-- Capitalises the digits whose nibble is eight or more; digits that are no letters stay. -/
def capitalise (ds : List Char) (hash : List Nat) : List Char :=
  List.zipWith (fun c n ↦ if 8 ≤ n then c.toUpper else c) ds hash

def checksum? (s : String) : Option String :=
  (digits? s).map fun ds ↦
    let lower := ds.map Char.toLower
    let hash := nibbles (Digest.Keccak.hash (Digest.utf8 (String.ofList lower)))
    String.ofList ('0' :: 'x' :: capitalise lower hash)

end TokenContract.Address
