namespace TokenContract.Digest

def hexByte (b : UInt8) : List Char :=
  [Nat.digitChar (b.toNat / 16), Nat.digitChar (b.toNat % 16)]

def hex (bytes : List UInt8) : List Char :=
  bytes.flatMap hexByte

def utf8 (s : String) : List UInt8 :=
  s.toUTF8.toList

def chunks {α : Type} (n : Nat) (xs : List α) : List (List α) :=
  if n = 0 ∨ xs = [] then []
  else xs.take n :: chunks n (xs.drop n)
termination_by xs.length
decreasing_by
  rename_i h
  have := List.length_pos_iff.mpr (not_or.mp h).2
  simp only [List.length_drop]
  omega

end TokenContract.Digest
