import TokenContract.Json.Reader
import TokenContract.Proofs.Json.Compact
import Mathlib.Data.List.TakeWhile

namespace TokenContract.Json

/-- What may follow a document: nothing, or the mark after a part of an array or an object. -/
def Ends (cs : List Char) : Prop :=
  ∀ c ∈ cs.head?, c = ',' ∨ c = ']' ∨ c = '}'

theorem ends_nil : Ends [] :=
  fun _ h ↦ by cases h

theorem ends_cons {c : Char} (h : c = ',' ∨ c = ']' ∨ c = '}') (cs : List Char) : Ends (c :: cs) :=
  fun _ hc ↦ by cases hc; exact h

section Text

theorem unit_control : ∀ n < 32, unit '0' '0' (hexDigit (n / 16)) (hexDigit n) = some n := by
  decide

theorem readPieces_escape (c : Char) (r : List Char) :
    readPieces (escape c ++ r) = (readPieces r).map fun (ps, rest) ↦ (.char c :: ps, rest) := by
  unfold escape
  split
  · rfl
  · rfl
  · rfl
  · rfl
  · rfl
  · rfl
  · rfl
  · rename_i hquote hslash hn hr ht hb hf
    split
    · rename_i hlow
      have hcontrol : c.toNat < 0x20 := hlow
      have hpiece : Piece.ofUnit c.toNat = .char c := by
        have hsmall : (isLeading c.toNat || isTrailing c.toNat) = false := by
          simp only [isLeading, isTrailing, Bool.or_eq_false_iff, Bool.and_eq_false_iff,
            decide_eq_false_iff_not]
          omega
        rw [Piece.ofUnit, hsmall, Char.ofNat_toNat]
        rfl
      simp only [List.cons_append, List.nil_append, readPieces, unit_control c.toNat hcontrol, hpiece]
    · rename_i hhigh
      rw [List.singleton_append]
      rw [readPieces.eq_def (_ :: r)]
      split <;> simp_all

theorem readPieces_quote (cs rest : List Char) :
    readPieces (cs.flatMap escape ++ '"' :: rest) = some (cs.map .char, rest) := by
  induction cs with
  | nil => rfl
  | cons c cs ih =>
    rw [List.flatMap_cons, List.append_assoc, readPieces_escape, ih]
    rfl

theorem joinPieces_map_char (cs : List Char) : joinPieces (cs.map .char) = some cs := by
  induction cs with
  | nil => rfl
  | cons c cs ih =>
    rw [List.map_cons, joinPieces, ih]
    rfl

end Text

section Number

variable {cs r : List Char}

theorem Ends.not_isDigit (h : Ends r) : ∀ c ∈ r.head?, c.isDigit = false := by
  intro c hc
  rcases h c hc with rfl | rfl | rfl
  · rfl
  · rfl
  · rfl

theorem spanDigits_append (h : Ends r) (cs : List Char) :
    spanDigits (cs ++ r) = ((spanDigits cs).1, (spanDigits cs).2 ++ r) := by
  induction cs with
  | nil =>
    cases r with
    | nil => rfl
    | cons c r => simp [spanDigits, h.not_isDigit c rfl]
  | cons c cs ih =>
    cases hc : c.isDigit with
    | false => simp [spanDigits, hc]
    | true =>
      simp only [spanDigits, Prod.mk.injEq] at ih
      simp [spanDigits, hc, ih]

theorem readFraction_of_ne {c : Char} (hc : c ≠ '.') (cs : List Char) :
    readFraction (c :: cs) = some (none, c :: cs) := by
  unfold readFraction
  split
  · rename_i he
    injection he with he
    exact absurd he hc
  · rfl

theorem readFraction_append (h : Ends r) {fraction : Option (List Char)} {rest : List Char}
    (hcs : readFraction cs = some (fraction, rest)) :
    readFraction (cs ++ r) = some (fraction, rest ++ r) := by
  cases cs with
  | nil =>
    cases hcs
    cases r with
    | nil => rfl
    | cons c r =>
      have hc : c ≠ '.' := by rcases h c rfl with rfl | rfl | rfl <;> decide
      exact readFraction_of_ne hc r
  | cons c cs =>
    by_cases hc : c = '.'
    · subst hc
      rw [List.cons_append]
      simp only [readFraction, spanDigits_append h] at hcs ⊢
      generalize spanDigits cs = span at hcs ⊢
      obtain ⟨ds, t⟩ := span
      cases ds with
      | nil => cases hcs
      | cons d ds =>
        cases hcs
        rfl
    · rw [readFraction_of_ne hc] at hcs
      cases hcs
      exact readFraction_of_ne hc _

def readPower (down : Bool) (cs : List Char) : Option (Option Int × List Char) :=
  match spanDigits cs with
  | ([], _) => none
  | (ds, rest) => some (some (if down then -decimalValue ds else decimalValue ds), rest)

theorem readPower_append (h : Ends r) {down : Bool} {exponent : Option Int} {rest : List Char}
    (hcs : readPower down cs = some (exponent, rest)) :
    readPower down (cs ++ r) = some (exponent, rest ++ r) := by
  simp only [readPower, spanDigits_append h] at hcs ⊢
  generalize spanDigits cs = span at hcs ⊢
  obtain ⟨ds, t⟩ := span
  cases ds with
  | nil => cases hcs
  | cons d ds =>
    cases hcs
    rfl

theorem spanSign_append (hne : cs ≠ []) (r : List Char) :
    spanSign (cs ++ r) = ((spanSign cs).1, (spanSign cs).2 ++ r) := by
  obtain ⟨c, cs, rfl⟩ := List.exists_cons_of_ne_nil hne
  rw [List.cons_append]
  unfold spanSign
  split <;> simp_all

theorem readExponent_of_mark {c : Char} (hc : c = 'e' ∨ c = 'E') (cs : List Char) :
    readExponent (c :: cs) = readPower (spanSign cs).1 (spanSign cs).2 := by
  unfold readExponent
  dsimp only
  rw [if_pos hc]
  rfl

theorem readExponent_of_not {c : Char} (hc : ¬(c = 'e' ∨ c = 'E')) (cs : List Char) :
    readExponent (c :: cs) = some (none, c :: cs) := by
  simp only [readExponent, if_neg hc]

theorem readExponent_append (h : Ends r) {exponent : Option Int} {rest : List Char}
    (hcs : readExponent cs = some (exponent, rest)) :
    readExponent (cs ++ r) = some (exponent, rest ++ r) := by
  cases cs with
  | nil =>
    cases hcs
    cases r with
    | nil => rfl
    | cons c r =>
      have hc : ¬(c = 'e' ∨ c = 'E') := by rcases h c rfl with rfl | rfl | rfl <;> decide
      exact readExponent_of_not hc r
  | cons c cs =>
    rw [List.cons_append]
    by_cases hc : c = 'e' ∨ c = 'E'
    · rw [readExponent_of_mark hc] at hcs ⊢
      have hne : cs ≠ [] := by
        rintro rfl
        cases hcs
      rw [spanSign_append hne]
      exact readPower_append h hcs
    · rw [readExponent_of_not hc] at hcs ⊢
      cases hcs
      rfl

def readTail (negative : Bool) (whole cs : List Char) : Json × List Char :=
  match readFraction cs with
  | none => (.fault .broken, [])
  | some (fraction, r) =>
    match readExponent r with
    | none => (.fault .broken, [])
    | some (exponent, r) =>
      if fraction.isNone && exponent.isNone then (wholeNumber negative whole, r)
      else
        match (Numeral.mk negative whole (fraction.getD []) (exponent.getD 0)).toBinary64? with
        | some x => (.real x, r)
        | none => (.fault .valueless, r)

theorem readTail_append (h : Ends r) {negative : Bool} {whole : List Char} {j : Json}
    {rest : List Char} (hcs : readTail negative whole cs = (j, rest)) (hj : j ≠ .fault .broken) :
    readTail negative whole (cs ++ r) = (j, rest ++ r) := by
  rw [readTail] at hcs ⊢
  cases hfraction : readFraction cs with
  | none =>
    rw [hfraction] at hcs
    cases hcs
    exact absurd rfl hj
  | some part =>
    obtain ⟨fraction, t⟩ := part
    rw [hfraction] at hcs
    rw [readFraction_append h hfraction]
    dsimp only at hcs ⊢
    cases hexponent : readExponent t with
    | none =>
      rw [hexponent] at hcs
      cases hcs
      exact absurd rfl hj
    | some part =>
      obtain ⟨exponent, u⟩ := part
      rw [hexponent] at hcs
      rw [readExponent_append h hexponent]
      dsimp only at hcs ⊢
      split at hcs
      · rename_i hwhole
        cases hcs
        rw [if_pos hwhole]
      · rename_i hreal
        rw [if_neg hreal]
        split at hcs
        · cases hcs
          rfl
        · cases hcs
          rfl

def readUnsigned (negative : Bool) (cs : List Char) : Json × List Char :=
  match spanDigits cs with
  | ([], _) | ('0' :: _ :: _, _) => (.fault .broken, [])
  | (whole, r) => readTail negative whole r

theorem readUnsigned_append (h : Ends r) {negative : Bool} {j : Json} {rest : List Char}
    (hcs : readUnsigned negative cs = (j, rest)) (hj : j ≠ .fault .broken) :
    readUnsigned negative (cs ++ r) = (j, rest ++ r) := by
  rw [readUnsigned] at hcs ⊢
  rw [spanDigits_append h]
  generalize spanDigits cs = span at hcs ⊢
  obtain ⟨whole, t⟩ := span
  split at hcs
  · cases hcs
    exact absurd rfl hj
  · cases hcs
    exact absurd rfl hj
  · rename_i hnil hzero he
    cases he
    split
    · rename_i he
      cases he
      exact (hnil rfl).elim
    · rename_i he
      cases he
      exact (hzero _ _ rfl).elim
    · rename_i he
      cases he
      exact readTail_append h hcs hj

theorem readNumber_minus (cs : List Char) : readNumber ('-' :: cs) = readUnsigned true cs := by
  unfold readNumber readUnsigned
  rfl

theorem readNumber_of_ne {c : Char} (hc : c ≠ '-') (cs : List Char) :
    readNumber (c :: cs) = readUnsigned false (c :: cs) := by
  unfold readNumber
  split
  rename_i negative ds hsign
  split at hsign
  · rename_i he
    injection he with he
    exact absurd he hc
  · obtain ⟨rfl, rfl⟩ := Prod.mk.inj hsign
    unfold readUnsigned
    rfl

theorem readNumber_append (h : Ends r) {j : Json} {rest : List Char}
    (hcs : readNumber cs = (j, rest)) (hj : j ≠ .fault .broken) :
    readNumber (cs ++ r) = (j, rest ++ r) := by
  cases cs with
  | nil =>
    cases hcs
    exact absurd rfl hj
  | cons c cs =>
    rw [List.cons_append]
    by_cases hc : c = '-'
    · subst hc
      rw [readNumber_minus] at hcs ⊢
      exact readUnsigned_append h hcs hj
    · rw [readNumber_of_ne hc] at hcs ⊢
      rw [← List.cons_append]
      exact readUnsigned_append h hcs hj

theorem digitChars_eq_of_head {n : Nat} (h : (digitChars n).head? = some '0') : n = 0 := by
  induction n using Nat.strong_induction_on with
  | _ n ih =>
    rcases Nat.lt_or_ge n 10 with hsmall | hlarge
    · rw [digitChars, Nat.toDigits_of_lt_base hsmall, List.head?_cons, Option.some.injEq,
        Nat.digitChar_eq_zero] at h
      exact h
    · rw [digitChars, Nat.toDigits_of_base_le (by decide) hlarge,
        List.head?_append_of_ne_nil _ Nat.toDigits_ne_nil] at h
      have hzero := ih (n / 10) (by omega) h
      omega

theorem decimalValue_digitChars (n : Nat) : decimalValue (digitChars n) = n := by
  have hvalue := ofDigitChars_digitChars n
  rw [Nat.ofDigitChars] at hvalue
  rw [decimalValue]
  simpa only [Nat.mul_comm 10] using hvalue

theorem readUnsigned_digitChars (negative : Bool) (n : Nat) :
    readUnsigned negative (digitChars n) = (wholeNumber negative (digitChars n), []) := by
  have hdigits : ∀ c ∈ digitChars n, c.isDigit = true := fun c hc ↦ isDigit_of_mem_digitChars hc
  have hspan : spanDigits (digitChars n) = (digitChars n, []) := by
    rw [spanDigits, List.takeWhile_eq_self_iff.mpr hdigits, List.dropWhile_eq_nil_iff.mpr hdigits]
  rw [readUnsigned, hspan]
  split
  · rename_i he
    exact absurd (congrArg Prod.fst he) (digitChars_ne_nil n)
  · rename_i he
    have hchars := congrArg Prod.fst he
    dsimp only at hchars
    have hzero := digitChars_eq_of_head (n := n) (by rw [hchars]; rfl)
    subst hzero
    cases hchars
  · rename_i he
    cases he
    rfl

theorem readNumber_writeInteger {n : Int} (hlow : -(2 ^ 63 : Nat) ≤ n)
    (hhigh : n ≤ Binary64.maxWord) : readNumber (writeInteger n) = (.integer n, []) := by
  cases n with
  | ofNat n =>
    obtain ⟨c, cs, hcs⟩ := List.exists_cons_of_ne_nil (digitChars_ne_nil n)
    have hc : c ≠ '-' := by
      rintro rfl
      have hdigit := isDigit_of_mem_digitChars (hcs ▸ List.mem_cons_self)
      cases hdigit
    have hle : n ≤ Binary64.maxWord := Int.ofNat_le.mp hhigh
    rw [writeInteger, hcs, readNumber_of_ne hc, ← hcs, readUnsigned_digitChars, wholeNumber,
      decimalValue_digitChars]
    simp [hle]
  | negSucc n =>
    have hle : n + 1 ≤ 2 ^ 63 := by omega
    have hnegative : (true && decide (0 < n + 1) && decide (n + 1 ≤ 2 ^ 63)) = true := by
      rw [decide_eq_true hle, decide_eq_true n.succ_pos]
      rfl
    rw [writeInteger, readNumber_minus, readUnsigned_digitChars, wholeNumber,
      decimalValue_digitChars, if_neg (by simp), if_pos hnegative]
    rfl

end Number

mutual

def Each (p : Json → Prop) : Json → Prop
  | .array items => EachItem p items
  | .object fields => EachField p fields
  | j => p j

def EachItem (p : Json → Prop) : List Json → Prop
  | [] => True
  | j :: js => Each p j ∧ EachItem p js

def EachField (p : Json → Prop) : List (String × Json) → Prop
  | [] => True
  | (_, j) :: fs => Each p j ∧ EachField p fs

end

/-- A number that is read back from its text. -/
def Legible (x : Binary64) : Prop :=
  readNumber (writeReal x) = (.real x, [])

def isLegible (x : Binary64) : Bool :=
  match readNumber (writeReal x) with
  | (.real y, []) => y == x
  | _ => false

theorem isLegible_iff {x : Binary64} : isLegible x = true ↔ Legible x := by
  rw [isLegible, Legible]
  split
  · rename_i y hread
    rw [hread, beq_iff_eq]
    exact ⟨fun h ↦ h ▸ rfl, fun h ↦ by cases h; rfl⟩
  · rename_i hread
    exact ⟨nofun, fun h ↦ absurd h (hread x)⟩

instance : DecidablePred Legible := fun x ↦ decidable_of_iff (isLegible x = true) isLegible_iff

/-- A scalar that is read back from its text. -/
def Readable : Json → Prop
  | .integer n => -(2 ^ 63 : Nat) ≤ n ∧ n ≤ Binary64.maxWord
  | .real x => Legible x
  | .fault _ => False
  | _ => True

section Value

variable {n : Nat} {c : Char} {cs rest : List Char}

theorem skipSpace_cons (hc : isSpace c = false) (cs : List Char) : skipSpace (c :: cs) = c :: cs :=
  List.dropWhile_cons_of_neg (by simp [hc])

theorem quote_append (s : String) (rest : List Char) :
    quote s ++ rest = '"' :: (s.toList.flatMap escape ++ '"' :: rest) := by
  simp [quote]

theorem readValue_quote (n : Nat) (s : String) (rest : List Char) :
    readValue (n + 1) (quote s ++ rest) = (.text s, rest) := by
  rw [quote_append, readValue, skipSpace_cons rfl]
  simp only [readPieces_quote, joinPieces_map_char, String.ofList_toList]

theorem ne_of_isNumeral {d : Char} (hc : isNumeral c) (hd : isNumeral d = false) : c ≠ d := by
  rintro rfl
  rw [hc] at hd
  cases hd

theorem readScalar_number (hc : isNumeral c) (cs : List Char) :
    readScalar (c :: cs) = readNumber (c :: cs) := by
  have hn := ne_of_isNumeral (d := 'n') hc rfl
  have ht := ne_of_isNumeral (d := 't') hc rfl
  have hf := ne_of_isNumeral (d := 'f') hc rfl
  unfold readScalar
  split
  · rename_i he
    injection he with he
    exact absurd he hn
  · rename_i he
    injection he with he
    exact absurd he ht
  · rename_i he
    injection he with he
    exact absurd he hf
  · rfl

theorem isSpace_of_isNumeral (hc : isNumeral c) : isSpace c = false := by
  have hblank := ne_of_isNumeral (d := ' ') hc rfl
  have htab := ne_of_isNumeral (d := '\t') hc rfl
  have hfeed := ne_of_isNumeral (d := '\n') hc rfl
  have hreturn := ne_of_isNumeral (d := '\r') hc rfl
  simp [isSpace, hblank, htab, hfeed, hreturn]

theorem readValue_scalar (hspace : isSpace c = false) (hquote : c ≠ '"') (harray : c ≠ '[')
    (hobject : c ≠ '\x7b') (n : Nat) (cs : List Char) :
    readValue (n + 1) (c :: cs) = readScalar (c :: cs) := by
  rw [readValue, skipSpace_cons hspace]
  split
  · rename_i he
    injection he with he
    exact absurd he hquote
  · rename_i he
    injection he with he
    exact absurd he harray
  · rename_i he
    injection he with he
    exact absurd he hobject
  · rfl

theorem readValue_array (hspace : isSpace c = false) (hc : c ≠ ']') (n : Nat) (cs : List Char) :
    readValue (n + 1) ('[' :: c :: cs) =
      (.array (readItems n (c :: cs)).1, (readItems n (c :: cs)).2) := by
  rw [readValue, skipSpace_cons rfl]
  simp only [skipSpace_cons hspace]
  split
  · rename_i he
    injection he with he
    exact absurd he hc
  · rfl

theorem readValue_object (n : Nat) (cs : List Char) :
    readValue (n + 1) ('\x7b' :: '"' :: cs) =
      (.object (readFields n ('"' :: cs)).1, (readFields n ('"' :: cs)).2) := by
  rw [readValue, skipSpace_cons rfl]
  simp only [skipSpace_cons (c := '"') rfl]
  split
  · rename_i he
    injection he with he
    exact absurd he (by decide)
  · rfl

theorem readItems_more {j : Json} {r : List Char} (h : readValue n cs = (j, ',' :: r)) :
    readItems (n + 1) cs = (j :: (readItems n r).1, (readItems n r).2) := by
  rw [readItems, h]
  rfl

theorem readItems_last {j : Json} {r : List Char} (h : readValue n cs = (j, ']' :: r)) :
    readItems (n + 1) cs = ([j], r) := by
  rw [readItems, h]
  rfl

theorem readFields_more {k : String} {j : Json} {r : List Char}
    (h : readValue n cs = (j, ',' :: r)) : readFields (n + 1) (quote k ++ ':' :: cs) =
      ((k, j) :: (readFields n r).1, (readFields n r).2) := by
  rw [quote_append, readFields]
  simp only [skipSpace_cons (c := '"') rfl, skipSpace_cons (c := ':') rfl,
    skipSpace_cons (c := ',') rfl, readPieces_quote, joinPieces_map_char, String.ofList_toList, h]

theorem readFields_last {k : String} {j : Json} {r : List Char}
    (h : readValue n cs = (j, '\x7d' :: r)) :
    readFields (n + 1) (quote k ++ ':' :: cs) = ([(k, j)], r) := by
  rw [quote_append, readFields]
  simp only [skipSpace_cons (c := '"') rfl, skipSpace_cons (c := ':') rfl,
    skipSpace_cons (c := '\x7d') rfl, readPieces_quote, joinPieces_map_char, String.ofList_toList, h]

theorem readValue_word {w : List Char} {j : Json} (hw : w = compactChars .null ∧ j = .null ∨
    w = compactChars (.bool true) ∧ j = .bool true ∨ w = compactChars (.bool false) ∧ j = .bool false)
    (n : Nat) (rest : List Char) : readValue (n + 1) (w ++ rest) = (j, rest) := by
  rcases hw with ⟨rfl, rfl⟩ | ⟨rfl, rfl⟩ | ⟨rfl, rfl⟩
  · exact readValue_scalar (c := 'n') rfl (by decide) (by decide) (by decide) n _
  · exact readValue_scalar (c := 't') rfl (by decide) (by decide) (by decide) n _
  · exact readValue_scalar (c := 'f') rfl (by decide) (by decide) (by decide) n _

theorem readValue_number {w : List Char} {j : Json} (hw : w ≠ [] ∧ ∀ c ∈ w, isNumeral c)
    (h : readNumber w = (j, [])) (hj : j ≠ .fault .broken) (n : Nat) (hrest : Ends rest) :
    readValue (n + 1) (w ++ rest) = (j, rest) := by
  obtain ⟨hne, hw⟩ := hw
  obtain ⟨c, cs, rfl⟩ := List.exists_cons_of_ne_nil hne
  have hc := hw c List.mem_cons_self
  rw [List.cons_append, readValue_scalar (isSpace_of_isNumeral hc) (ne_of_isNumeral hc rfl)
    (ne_of_isNumeral hc rfl) (ne_of_isNumeral hc rfl), readScalar_number hc, ← List.cons_append]
  exact readNumber_append hrest h hj

end Value

def moreItems : List Json → List Char
  | [] => []
  | js => ',' :: compactItems js

theorem compactItems_cons (j : Json) (js : List Json) :
    compactItems (j :: js) = compactChars j ++ moreItems js := by
  cases js with
  | nil => simp [compactItems, moreItems]
  | cons k js => simp [compactItems, moreItems]

theorem isNumeral_writeInteger (n : Int) :
    writeInteger n ≠ [] ∧ ∀ c ∈ writeInteger n, isNumeral c := by
  have hdigits (n : Nat) : ∀ c ∈ digitChars n, isNumeral c :=
    fun c hc ↦ isNumeral_of_isDigit (isDigit_of_mem_digitChars hc)
  cases n with
  | ofNat n => exact ⟨digitChars_ne_nil n, hdigits n⟩
  | negSucc n => exact ⟨List.cons_ne_nil _ _, List.forall_mem_cons.mpr ⟨rfl, hdigits (n + 1)⟩⟩

theorem Legible.isNumeral_writeReal {x : Binary64} (h : Legible x) :
    writeReal x ≠ [] ∧ ∀ c ∈ writeReal x, isNumeral c := by
  have hnull : "null".toList = ['n', 'u', 'l', 'l'] := rfl
  cases x with
  | finite s n hn =>
    exact ⟨Binary64.Layout.write_ne_nil _ _ _, Binary64.Layout.isNumeral_of_mem_write⟩
  | nan =>
    change readNumber "null".toList = _ at h
    rw [hnull] at h
    cases h
  | infinite s =>
    change readNumber "null".toList = _ at h
    rw [hnull] at h
    cases h

theorem exists_head_compactChars {j : Json} (hj : Each Readable j) :
    ∃ c cs, compactChars j = c :: cs ∧ isSpace c = false ∧ c ≠ ']' := by
  have hnumeral {w : List Char} (hw : w ≠ [] ∧ ∀ c ∈ w, isNumeral c) :
      ∃ c cs, w = c :: cs ∧ isSpace c = false ∧ c ≠ ']' := by
    obtain ⟨hne, hw⟩ := hw
    obtain ⟨c, cs, rfl⟩ := List.exists_cons_of_ne_nil hne
    have hc := hw c List.mem_cons_self
    exact ⟨c, cs, rfl, isSpace_of_isNumeral hc, ne_of_isNumeral hc rfl⟩
  cases j with
  | null => exact ⟨'n', _, rfl, by decide, by decide⟩
  | bool b =>
    cases b with
    | false => exact ⟨'f', _, rfl, by decide, by decide⟩
    | true => exact ⟨'t', _, rfl, by decide, by decide⟩
  | integer i => exact hnumeral (isNumeral_writeInteger i)
  | real x => exact hnumeral (Legible.isNumeral_writeReal hj)
  | text s => exact ⟨'"', _, rfl, by decide, by decide⟩
  | array items => exact ⟨'[', _, rfl, by decide, by decide⟩
  | object fields => exact ⟨'\x7b', _, rfl, by decide, by decide⟩
  | fault f => cases hj

/-- With fuel `n` every document with a shorter text is read back. -/
def ReadsValues (n : Nat) : Prop :=
  ∀ j, Each Readable j → (compactChars j).length < n → ∀ rest, Ends rest →
    readValue n (compactChars j ++ rest) = (j, rest)

def ReadsItems (n : Nat) : Prop :=
  ∀ items, items ≠ [] → EachItem Readable items → (compactItems items).length + 1 < n → ∀ rest,
    readItems n (compactItems items ++ ']' :: rest) = (items, rest)

def ReadsFields (n : Nat) : Prop :=
  ∀ fields, fields ≠ [] → EachField Readable fields → (compactFields fields).length + 1 < n →
    ∀ rest, readFields n (compactFields fields ++ '\x7d' :: rest) = (fields, rest)

theorem readsValues_succ {n : Nat} (hitems : ReadsItems n) (hfields : ReadsFields n) :
    ReadsValues (n + 1) := by
  intro j hj hn rest hrest
  cases j with
  | null => exact readValue_word (.inl ⟨rfl, rfl⟩) n rest
  | bool b =>
    cases b with
    | false => exact readValue_word (.inr (.inr ⟨rfl, rfl⟩)) n rest
    | true => exact readValue_word (.inr (.inl ⟨rfl, rfl⟩)) n rest
  | integer i =>
    obtain ⟨hlow, hhigh⟩ := hj
    exact readValue_number (isNumeral_writeInteger i) (readNumber_writeInteger hlow hhigh) nofun n
      hrest
  | real x =>
    exact readValue_number (Legible.isNumeral_writeReal hj) hj nofun n hrest
  | text s => exact readValue_quote n s rest
  | array items =>
    cases items with
    | nil => rfl
    | cons j js =>
      have hlength : (compactChars (.array (j :: js))).length =
          (compactItems (j :: js)).length + 2 := by simp [compactChars]
      obtain ⟨c, cs, hhead, hspace, hc⟩ := exists_head_compactChars hj.1
      have hread := hitems (j :: js) (List.cons_ne_nil _ _) hj (by omega) rest
      have hopen : compactChars (.array (j :: js)) ++ rest =
          '[' :: (compactItems (j :: js) ++ ']' :: rest) := by simp [compactChars]
      rw [hopen]
      rw [compactItems_cons, hhead, List.cons_append, List.cons_append] at hread ⊢
      rw [readValue_array hspace hc, hread]
  | object fields =>
    cases fields with
    | nil => rfl
    | cons f fs =>
      obtain ⟨k, j⟩ := f
      have hlength : (compactChars (.object ((k, j) :: fs))).length =
          (compactFields ((k, j) :: fs)).length + 2 := by simp [compactChars]
      have hread := hfields ((k, j) :: fs) (List.cons_ne_nil _ _) hj (by omega) rest
      have hopen : compactChars (.object ((k, j) :: fs)) ++ rest =
          '\x7b' :: (compactFields ((k, j) :: fs) ++ '\x7d' :: rest) := by simp [compactChars]
      rw [hopen]
      rw [compactFields_cons, quote, List.cons_append, List.cons_append, List.cons_append] at hread ⊢
      rw [readValue_object, hread]
  | fault f => cases hj

theorem readsItems_succ {n : Nat} (hvalues : ReadsValues n) (hitems : ReadsItems n) :
    ReadsItems (n + 1) := by
  intro items hne hj hn rest
  cases items with
  | nil => exact absurd rfl hne
  | cons j js =>
    obtain ⟨hj, hjs⟩ := hj
    rw [compactItems_cons, List.length_append] at hn
    rw [compactItems_cons, List.append_assoc]
    cases js with
    | nil => exact readItems_last (hvalues j hj (by omega) _ (ends_cons (.inr (.inl rfl)) rest))
    | cons k js =>
      have hlength : (moreItems (k :: js)).length = (compactItems (k :: js)).length + 1 := rfl
      obtain ⟨c, cs, hhead, -, -⟩ := exists_head_compactChars hj
      have hpos : 0 < (compactChars j).length := by rw [hhead]; exact Nat.zero_lt_succ _
      have hfirst := hvalues j hj (by omega) _
        (ends_cons (.inl rfl) (compactItems (k :: js) ++ ']' :: rest))
      have hmore := hitems (k :: js) (List.cons_ne_nil _ _) hjs (by omega) rest
      refine (readItems_more hfirst).trans ?_
      rw [hmore]

theorem readsFields_succ {n : Nat} (hvalues : ReadsValues n) (hfields : ReadsFields n) :
    ReadsFields (n + 1) := by
  intro fields hne hj hn rest
  cases fields with
  | nil => exact absurd rfl hne
  | cons f fs =>
    obtain ⟨k, j⟩ := f
    obtain ⟨hj, hfs⟩ := hj
    rw [compactFields_cons] at hn ⊢
    simp only [List.length_append, List.length_cons] at hn
    rw [List.append_assoc, List.cons_append, List.append_assoc]
    cases fs with
    | nil => exact readFields_last (hvalues j hj (by omega) _ (ends_cons (.inr (.inr rfl)) rest))
    | cons g fs =>
      have hlength : (moreFields (g :: fs)).length = (compactFields (g :: fs)).length + 1 := rfl
      have hfirst := hvalues j hj (by omega) _
        (ends_cons (.inl rfl) (compactFields (g :: fs) ++ '\x7d' :: rest))
      have hmore := hfields (g :: fs) (List.cons_ne_nil _ _) hfs (by omega) rest
      refine (readFields_more hfirst).trans ?_
      rw [hmore]

theorem reads (n : Nat) : ReadsValues n ∧ ReadsItems n ∧ ReadsFields n := by
  induction n with
  | zero =>
    exact ⟨fun _ _ hn ↦ absurd hn (Nat.not_lt_zero _), fun _ _ _ hn ↦ absurd hn (Nat.not_lt_zero _),
      fun _ _ _ hn ↦ absurd hn (Nat.not_lt_zero _)⟩
  | succ n ih =>
    obtain ⟨hvalues, hitems, hfields⟩ := ih
    exact ⟨readsValues_succ hitems hfields, readsItems_succ hvalues hitems,
      readsFields_succ hvalues hfields⟩

theorem read_compact {j : Json} (hj : Each Readable j) : read j.compact = (j, true) := by
  have hread := (reads (2 * (compactChars j).length + 2)).1 j hj (by omega) [] ends_nil
  rw [List.append_nil] at hread
  rw [read, compact, String.toList_ofList, hread]
  rfl

end TokenContract.Json
