import TokenContract.Digest.Hex

namespace TokenContract.Digest.Blake3

-- Powers are those of the core library, whatever else is in scope.
attribute [local instance (high)] instPowNat

abbrev Words := Vector UInt32 8

abbrev Block := Vector UInt32 16

def rotateRight (w : UInt32) (n : UInt32) : UInt32 :=
  (w >>> n) ||| (w <<< (32 - n))

def initial : Words :=
  #v[0x6A09E667, 0xBB67AE85, 0x3C6EF372, 0xA54FF53A, 0x510E527F, 0x9B05688C, 0x1F83D9AB, 0x5BE0CD19]

def schedule : Vector (Fin 16) 16 :=
  #v[2, 6, 3, 10, 7, 0, 4, 13, 1, 11, 12, 5, 9, 14, 15, 8]

def reorder (m : Block) : Block :=
  .ofFn fun i ↦ m[schedule[i]]

/-- Mixes two words into four words of the state. -/
def mix (s : Block) (a b c d : Fin 16) (x y : UInt32) : Block :=
  let p := s[a] + s[b] + x
  let q := rotateRight (s[d] ^^^ p) 16
  let r := s[c] + q
  let t := rotateRight (s[b] ^^^ r) 12
  let p := p + t + y
  let q := rotateRight (q ^^^ p) 8
  let r := r + q
  let t := rotateRight (t ^^^ r) 7
  (((s.set a p).set b t).set c r).set d q

def round (s m : Block) : Block :=
  let s := mix s 0 4 8 12 m[0] m[1]
  let s := mix s 1 5 9 13 m[2] m[3]
  let s := mix s 2 6 10 14 m[4] m[5]
  let s := mix s 3 7 11 15 m[6] m[7]
  let s := mix s 0 5 10 15 m[8] m[9]
  let s := mix s 1 6 11 12 m[10] m[11]
  let s := mix s 2 7 8 13 m[12] m[13]
  mix s 3 4 9 14 m[14] m[15]

def rounds : Nat → Block → Block → Block
  | 0, s, _ => s
  | n + 1, s, m => rounds n (round s m) (reorder m)

def chunkStart : UInt32 := 1
def chunkEnd : UInt32 := 2
def parent : UInt32 := 4
def root : UInt32 := 8

def compress (cv : Words) (m : Block) (counter : Nat) (length flags : UInt32) : Words :=
  let s : Block :=
    (cv ++ (#v[initial[0], initial[1], initial[2], initial[3],
      counter.toUInt32, (counter / 2 ^ (32 : Nat)).toUInt32, length, flags] : Words)).cast rfl
  let s := rounds 7 s m
  .ofFn fun i : Fin 8 ↦ s[i.val] ^^^ s[i.val + 8]

def word (bytes : List UInt8) : UInt32 :=
  bytes.foldr (fun b w ↦ (w <<< 8) ||| b.toUInt32) 0

def blockWords (bytes : List UInt8) : Block :=
  let words := ((chunks 4 bytes).map word).toArray
  .ofFn fun i ↦ words.getD i 0

/-- What is left to compress: the flags of the root are known only once the tree is. -/
structure Node where
  cv : Words
  words : Block
  counter : Nat
  length : UInt32
  flags : UInt32

def Node.value (n : Node) : Words :=
  compress n.cv n.words n.counter n.length n.flags

def chunkNode (counter : Nat) (cv : Words) (start : UInt32) : List (List UInt8) → Node
  | [] => ⟨cv, blockWords [], counter, 0, start ||| chunkEnd⟩
  | [b] => ⟨cv, blockWords b, counter, b.length.toUInt32, start ||| chunkEnd⟩
  | b :: bs =>
    chunkNode counter (compress cv (blockWords b) counter b.length.toUInt32 start) 0 bs

def leaf (counter : Nat) (chunk : List UInt8) : Node :=
  chunkNode counter initial chunkStart (chunks 64 chunk)

def join (l r : Node) : Node :=
  ⟨initial, (l.value ++ r.value).cast rfl, 0, 64, parent⟩

/-- The size of the left part of a tree over `n + 2` chunks: the greatest power of two below that. -/
def leftSize (n : Nat) : Nat :=
  2 ^ Nat.log2 (n + 1)

theorem leftSize_lt (n : Nat) : leftSize n < n + 2 :=
  Nat.lt_succ_of_le (Nat.log2_self_le (Nat.succ_ne_zero n))

theorem leftSize_pos (n : Nat) : 0 < leftSize n :=
  Nat.two_pow_pos _

/-- The tree over the chunks, whose first one has the number `counter`. -/
def tree (counter : Nat) : List (List UInt8) → Node
  | [] => leaf counter []
  | [c] => leaf counter c
  | c :: d :: cs =>
    let k := leftSize cs.length
    join (tree counter ((c :: d :: cs).take k)) (tree (counter + k) ((c :: d :: cs).drop k))
termination_by cs => cs.length
decreasing_by
  · have := leftSize_lt cs.length
    simp only [List.length_take, List.length_cons]
    omega
  · have := leftSize_pos cs.length
    simp only [List.length_drop, List.length_cons]
    omega

def wordBytes (w : UInt32) : List UInt8 :=
  [w.toUInt8, (w >>> 8).toUInt8, (w >>> 16).toUInt8, (w >>> 24).toUInt8]

def hash (message : List UInt8) : List UInt8 :=
  let n := tree 0 (chunks 1024 message)
  ({ n with flags := n.flags ||| root }.value).toList.flatMap wordBytes

def hexOf (s : String) : String :=
  String.ofList (hex (hash (utf8 s)))

end TokenContract.Digest.Blake3
