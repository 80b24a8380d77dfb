namespace TokenContract

-- Powers are those of the core library, whatever else is in scope.
attribute [local instance (high)] instPowNat

def divNearest (num den : Nat) : Nat :=
  let q := num / den
  let r := num % den
  if 2 * r < den then q else if den < 2 * r then q + 1 else q + q % 2

theorem divNearest_le (num den : Nat) : divNearest num den ≤ num / den + 1 := by
  simp only [divNearest]
  split
  · omega
  · split <;> omega

theorem le_divNearest (num den : Nat) : num / den ≤ divNearest num den := by
  simp only [divNearest]
  split
  · omega
  · split <;> omega

namespace Binary64

def places : Nat := 1074

def one : Nat := 2 ^ places

theorem one_pos : 0 < one :=
  Nat.two_pow_pos _

def limit : Nat := 2 ^ (places + 1024)

/-- The counts of units that a finite double has: 53 binary digits, then zeros. -/
def Representable (n : Nat) : Prop :=
  n < limit ∧ ∃ m k : Nat, m < 2 ^ (53 : Nat) ∧ n = m * 2 ^ k

def excess (num den : Nat) : Nat :=
  Nat.log2 (num / den) - 52

def nearestUnits (num den : Nat) : Nat :=
  divNearest num (den * 2 ^ excess num den) * 2 ^ excess num den

theorem div_excess_lt (num den : Nat) : num / (den * 2 ^ excess num den) < 2 ^ (53 : Nat) := by
  rw [← Nat.div_div_eq_div_mul]
  by_cases h : num / den = 0
  · simp [h]
  · refine (Nat.div_lt_iff_lt_mul (Nat.two_pow_pos _)).mpr ?_
    rw [← Nat.pow_add]
    refine Nat.lt_of_lt_of_le (Nat.lt_log2_self (n := num / den)) ?_
    refine Nat.pow_le_pow_right (by decide) ?_
    simp only [excess]
    omega

theorem nearestUnits_form (num den : Nat) :
    ∃ m k : Nat, m < 2 ^ (53 : Nat) ∧ nearestUnits num den = m * 2 ^ k := by
  have hq := div_excess_lt num den
  have hm := divNearest_le num (den * 2 ^ excess num den)
  by_cases h : divNearest num (den * 2 ^ excess num den) < 2 ^ (53 : Nat)
  · exact ⟨_, _, h, rfl⟩
  · have he : divNearest num (den * 2 ^ excess num den) = 2 ^ (52 : Nat) * 2 := by omega
    refine ⟨2 ^ (52 : Nat), excess num den + 1, by decide, ?_⟩
    rw [nearestUnits, he, Nat.mul_assoc, ← Nat.pow_succ']

theorem limit_pos : 0 < limit :=
  Nat.two_pow_pos _

theorem representable_zero : Representable 0 :=
  ⟨limit_pos, 0, 0, by decide, rfl⟩

end Binary64

/-- The double-precision numbers: not a number, the two infinities, and a sign with a count of units
of `2 ^ (-1074)`. Zero has two signs. -/
inductive Binary64
  | nan
  | infinite (negative : Bool)
  | finite (negative : Bool) (units : Nat) (representable : Binary64.Representable units)

namespace Binary64

instance : DecidableEq Binary64
  | .nan, .nan => isTrue rfl
  | .infinite s, .infinite t =>
    if h : s = t then isTrue (h ▸ rfl) else isFalse fun e ↦ h (by injection e)
  | .finite s m _, .finite t n _ =>
    if h : s = t ∧ m = n then isTrue (by obtain ⟨rfl, rfl⟩ := h; rfl)
    else isFalse fun e ↦ h (by injection e; constructor <;> assumption)
  | .nan, .infinite _ | .nan, .finite .. | .infinite _, .nan | .infinite _, .finite ..
  | .finite .., .nan | .finite .., .infinite _ => isFalse nofun

/-- The double nearest to `num / den` units; beyond the largest it is infinite. -/
def ofRatio (negative : Bool) (num den : Nat) : Binary64 :=
  if h : nearestUnits num den < limit then
    .finite negative (nearestUnits num den) ⟨h, nearestUnits_form num den⟩
  else
    .infinite negative

def zero (negative : Bool) : Binary64 :=
  .finite negative 0 representable_zero

def ofNat (n : Nat) : Binary64 :=
  ofRatio false (n * one) 1

def ofDecimal (negative : Bool) (digits : Nat) : Int → Binary64
  | .ofNat e => ofRatio negative (digits * 10 ^ e * one) 1
  | .negSucc e => ofRatio negative (digits * one) (10 ^ (e + 1))

instance (n : Nat) : OfNat Binary64 n := ⟨ofNat n⟩

instance : OfScientific Binary64 where
  ofScientific digits down e := ofDecimal false digits (if down then -(e : Int) else e)

instance : Inhabited Binary64 := ⟨zero false⟩

def isFinite : Binary64 → Bool
  | .finite .. => true
  | _ => false

/-- A sign and a count as an integer; both zeros are the same. -/
def signed (negative : Bool) (n : Nat) : Int :=
  if negative then -(n : Int) else n

def lt : Binary64 → Binary64 → Bool
  | .nan, _ | _, .nan => false
  | .infinite s, .infinite t => s && !t
  | .infinite s, .finite .. => s
  | .finite .., .infinite t => !t
  | .finite s m _, .finite t n _ => signed s m < signed t n

instance : LT Binary64 := ⟨fun x y ↦ lt x y = true⟩

instance (x y : Binary64) : Decidable (x < y) := inferInstanceAs (Decidable (_ = true))

def neg : Binary64 → Binary64
  | .nan => .nan
  | .infinite s => .infinite (!s)
  | .finite s m h => .finite (!s) m h

def abs : Binary64 → Binary64
  | .nan => .nan
  | .infinite _ => .infinite false
  | .finite _ m h => .finite false m h

/-- A difference of zero is positive, save that of the negative zero and the positive one. -/
def sub : Binary64 → Binary64 → Binary64
  | .nan, _ | _, .nan => .nan
  | .infinite s, .infinite t => if s = t then .nan else .infinite s
  | .infinite s, .finite .. => .infinite s
  | .finite .., .infinite t => .infinite (!t)
  | .finite s m _, .finite t n _ =>
    let d := signed s m - signed t n
    if d = 0 then zero (s && !t) else ofRatio (d < 0) d.natAbs 1

def mul : Binary64 → Binary64 → Binary64
  | .nan, _ | _, .nan => .nan
  | .infinite s, .infinite t => .infinite (s != t)
  | .infinite s, .finite t n _ => if n = 0 then .nan else .infinite (s != t)
  | .finite s m _, .infinite t => if m = 0 then .nan else .infinite (s != t)
  | .finite s m _, .finite t n _ => ofRatio (s != t) (m * n) one

def div : Binary64 → Binary64 → Binary64
  | .nan, _ | _, .nan => .nan
  | .infinite _, .infinite _ => .nan
  | .infinite s, .finite t _ _ => .infinite (s != t)
  | .finite s _ _, .infinite t => zero (s != t)
  | .finite s m _, .finite t n _ =>
    if n = 0 then (if m = 0 then .nan else .infinite (s != t))
    else ofRatio (s != t) (m * one) n

instance : Neg Binary64 := ⟨neg⟩
instance : Sub Binary64 := ⟨sub⟩
instance : Mul Binary64 := ⟨mul⟩
instance : Div Binary64 := ⟨div⟩

/-- The nearest whole number; a half goes away from zero. -/
def round : Binary64 → Binary64
  | .nan => .nan
  | .infinite s => .infinite s
  | .finite s m _ => ofRatio s ((m + one / 2) / one * one) 1

def positivePart (x : Binary64) : Binary64 :=
  if zero false < x then x else zero false

def maxWord : Nat := 2 ^ (64 : Nat) - 1

/-- The whole part, kept within 64 bits. -/
def truncate : Binary64 → Nat
  | .nan | .infinite true | .finite true _ _ => 0
  | .infinite false => maxWord
  | .finite false m _ => min (m / one) maxWord

/-- The nearest natural number of 64 bits. -/
def toWord (x : Binary64) : Nat :=
  x.positivePart.round.truncate

end Binary64

end TokenContract
