import TokenContract.Address
import TokenContract.Proofs.Text.Blank

namespace TokenContract

namespace Address

def hexDigits : List Char := "0123456789abcdefABCDEF".toList

theorem toNat_lt_of_isHexDigit {c : Char} (h : isHexDigit c) : c.toNat < 128 := by
  simp only [isHexDigit, Bool.or_eq_true, Bool.and_eq_true, decide_eq_true_eq] at h
  rcases h with (hdigit | hlower) | hupper
  · exact Text.toNat_lt_of_le (of_decide_eq_true (Bool.and_eq_true_iff.mp hdigit).2) (by decide)
  · exact Text.toNat_lt_of_le hlower.2 (by decide)
  · exact Text.toNat_lt_of_le hupper.2 (by decide)

theorem of_all_hexDigits {p : Char → Prop} [DecidablePred p] (h : hexDigits.all (p ·) = true)
    {c : Char} (hc : c ∈ hexDigits) : p c :=
  of_decide_eq_true (List.all_eq_true.mp h c hc)

theorem isHexDigit_iff {c : Char} : isHexDigit c ↔ c ∈ hexDigits := by
  constructor
  · intro h
    have hall : ∀ n < 128, isHexDigit (Char.ofNat n) → Char.ofNat n ∈ hexDigits := by
      decide +kernel
    have hc := hall c.toNat (toNat_lt_of_isHexDigit h)
    rw [Char.ofNat_toNat] at hc
    exact hc h
  · intro h
    exact of_all_hexDigits (p := fun d ↦ isHexDigit d) (by decide) h

theorem isBlank_of_mem_hexDigits {c : Char} (h : c ∈ hexDigits) : Text.isBlank c = false :=
  of_all_hexDigits (p := fun d ↦ Text.isBlank d = false) (by decide) h

theorem toLower_mem_and_toUpper_mem {c : Char} (h : c ∈ hexDigits) :
    c.toLower ∈ hexDigits ∧ c.toUpper ∈ hexDigits :=
  of_all_hexDigits (p := fun d ↦ d.toLower ∈ hexDigits ∧ d.toUpper ∈ hexDigits) (by decide) h

/-- A text that is an address with certain digits, and nothing more. -/
structure Spells (s : String) (ds : List Char) : Prop where
  text : s.toList = '0' :: 'x' :: ds
  length : ds.length = 40
  digits : ∀ c ∈ ds, c ∈ hexDigits

theorem digits?_eq_some_iff {s : String} {ds : List Char} :
    digits? s = some ds ↔ Spells s ds := by
  have hall (es : List Char) : es.all isHexDigit = true ↔ ∀ c ∈ es, c ∈ hexDigits := by
    simp only [List.all_eq_true, isHexDigit_iff]
  unfold digits?
  constructor
  · intro h
    split at h
    · rename_i es hs
      split at h
      · rename_i hdigits
        cases h
        exact ⟨hs, hdigits.1, (hall ds).mp hdigits.2⟩
      · cases h
    · cases h
  · intro h
    simp only [h.text]
    exact if_pos ⟨h.length, (hall ds).mpr h.digits⟩

theorem isAddress_iff {s : String} : isAddress s = true ↔ ∃ ds, Spells s ds := by
  simp only [isAddress, Option.isSome_iff_exists, digits?_eq_some_iff]

theorem trim_eq_self {s : String} (h : isAddress s = true) : Text.trim s = s := by
  obtain ⟨ds, htext, -, hdigits⟩ := isAddress_iff.mp h
  have hchars : ∀ c ∈ s.toList, Text.isBlank c = false := by
    rw [htext]
    refine List.forall_mem_cons.mpr ⟨rfl, List.forall_mem_cons.mpr ⟨rfl, fun c hc ↦ ?_⟩⟩
    exact isBlank_of_mem_hexDigits (hdigits c hc)
  rw [Text.trim, Text.trimChars_eq_self hchars, String.ofList_toList]

theorem exists_checksum {s : String} (h : isAddress s = true) :
    ∃ a, checksum? (Text.trim s) = some a := by
  rw [trim_eq_self h]
  obtain ⟨ds, hds⟩ := Option.isSome_iff_exists.mp h
  rw [checksum?, hds]
  exact ⟨_, rfl⟩

theorem mem_hexDigits_of_mem_capitalise {ds : List Char} (h : ∀ d ∈ ds, d ∈ hexDigits)
    (hash : List Nat) : ∀ c ∈ capitalise ds hash, c ∈ hexDigits := by
  induction ds generalizing hash with
  | nil => simp [capitalise]
  | cons d ds ih =>
    obtain ⟨hd, hds⟩ := List.forall_mem_cons.mp h
    cases hash with
    | nil => simp [capitalise]
    | cons n hash =>
      rw [capitalise, List.zipWith_cons_cons, ← capitalise, List.forall_mem_cons]
      refine ⟨?_, ih hds hash⟩
      split
      · exact (toLower_mem_and_toUpper_mem hd).2
      · exact hd

theorem mem_hexDigits_of_mem_map_toLower {ds : List Char} (h : ∀ d ∈ ds, d ∈ hexDigits) :
    ∀ c ∈ ds.map Char.toLower, c ∈ hexDigits := by
  intro c hc
  obtain ⟨d, hd, rfl⟩ := List.mem_map.mp hc
  exact (toLower_mem_and_toUpper_mem (h d hd)).1

theorem isHexDigit_of_checksum? {s a : String} (h : checksum? s = some a) :
    ∀ c ∈ a.toList, c == 'x' || isHexDigit c := by
  obtain ⟨ds, hds, rfl⟩ := Option.map_eq_some_iff.mp h
  have hlower := mem_hexDigits_of_mem_map_toLower (digits?_eq_some_iff.mp hds).digits
  rw [String.toList_ofList, List.forall_mem_cons, List.forall_mem_cons]
  refine ⟨rfl, rfl, ?_⟩
  intro c hc
  rw [isHexDigit_iff.mpr (mem_hexDigits_of_mem_capitalise hlower _ c hc), Bool.or_true]

end Address

end TokenContract
