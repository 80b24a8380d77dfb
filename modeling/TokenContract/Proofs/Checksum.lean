import TokenContract.Proofs.Address

namespace TokenContract

namespace Digest.Keccak

theorem length_wordBytes (w : UInt64) : (wordBytes w).length = 8 := by
  rw [wordBytes, List.length_map, List.length_range]

theorem length_hash (message : List UInt8) : (hash message).length = 32 := by
  have hbytes (ws : List UInt64) : (ws.flatMap wordBytes).length = 8 * ws.length := by
    induction ws with
    | nil => rfl
    | cons w ws ih =>
      rw [List.flatMap_cons, List.length_append, length_wordBytes, ih, List.length_cons]
      omega
  rw [hash, hbytes, List.length_take, Vector.length_toList]
  rfl

end Digest.Keccak

namespace Address

theorem length_nibbles (bytes : List UInt8) : (nibbles bytes).length = 2 * bytes.length := by
  induction bytes with
  | nil => rfl
  | cons b bs ih =>
    rw [nibbles, List.flatMap_cons, List.length_append, ← nibbles, ih, List.length_cons]
    simp only [List.length_cons, List.length_nil]
    omega

def hashOf (lower : List Char) : List Nat :=
  nibbles (Digest.Keccak.hash (Digest.utf8 (String.ofList lower)))

theorem length_hashOf (lower : List Char) : (hashOf lower).length = 64 := by
  rw [hashOf, length_nibbles, Digest.Keccak.length_hash]

theorem toLower_toLower {c : Char} (h : c ∈ hexDigits) : c.toLower.toLower = c.toLower :=
  of_all_hexDigits (p := fun d ↦ d.toLower.toLower = d.toLower) (by decide) h

theorem toLower_toUpper {c : Char} (h : c ∈ hexDigits) : c.toUpper.toLower = c.toLower :=
  of_all_hexDigits (p := fun d ↦ d.toUpper.toLower = d.toLower) (by decide) h

theorem toUpper_toUpper {c : Char} (h : c ∈ hexDigits) : c.toUpper.toUpper = c.toUpper :=
  of_all_hexDigits (p := fun d ↦ d.toUpper.toUpper = d.toUpper) (by decide) h

theorem map_toLower_capitalise {ds : List Char} (h : ∀ c ∈ ds, c ∈ hexDigits) {hash : List Nat}
    (hlength : ds.length ≤ hash.length) :
    (capitalise ds hash).map Char.toLower = ds.map Char.toLower := by
  induction ds generalizing hash with
  | nil => rfl
  | cons d ds ih =>
    obtain ⟨hd, hds⟩ := List.forall_mem_cons.mp h
    cases hash with
    | nil => simp at hlength
    | cons n hash =>
      rw [List.length_cons, List.length_cons] at hlength
      rw [capitalise, List.zipWith_cons_cons, ← capitalise, List.map_cons, List.map_cons,
        ih hds (by omega)]
      congr 1
      split
      · exact toLower_toUpper hd
      · rfl

def cased (ds : List Char) : List Char :=
  capitalise (ds.map Char.toLower) (hashOf (ds.map Char.toLower))

theorem checksum?_of_spells {s : String} {ds : List Char} (h : Spells s ds) :
    checksum? s = some (String.ofList ('0' :: 'x' :: cased ds)) := by
  rw [checksum?, digits?_eq_some_iff.mpr h]
  rfl

theorem map_toLower_cased {ds : List Char} (h : ∀ c ∈ ds, c ∈ hexDigits)
    (hlength : ds.length = 40) :
    (cased ds).map Char.toLower = ds.map Char.toLower := by
  have hroom : (ds.map Char.toLower).length ≤ (hashOf (ds.map Char.toLower)).length := by
    rw [length_hashOf, List.length_map]
    omega
  rw [cased, map_toLower_capitalise (mem_hexDigits_of_mem_map_toLower h) hroom, List.map_map]
  exact List.map_congr_left fun c hc ↦ toLower_toLower (h c hc)

theorem cased_congr {ds es : List Char} (h : ds.map Char.toLower = es.map Char.toLower) :
    cased ds = cased es := by
  rw [cased, cased, h]

theorem spells_cased {s : String} {ds : List Char} (h : Spells s ds) :
    Spells (String.ofList ('0' :: 'x' :: cased ds)) (cased ds) := by
  have hlength := congrArg List.length (map_toLower_cased h.digits h.length)
  rw [List.length_map, List.length_map, h.length] at hlength
  refine ⟨String.toList_ofList, hlength, ?_⟩
  exact mem_hexDigits_of_mem_capitalise (mem_hexDigits_of_mem_map_toLower h.digits) _

/-- A spelling of an address that all its spellings lead to. A digit of it is a capital where the
hash of the lower-case digits has a nibble of eight or more. -/
structure Canonical (a : String) (ds : List Char) : Prop where
  spelled : ∃ es, Spells a es ∧ es.map Char.toLower = ds.map Char.toLower ∧
    ∀ i (hi : i < es.length), es[i] =
      if 8 ≤ (hashOf (ds.map Char.toLower)).getD i 0 then es[i].toUpper else es[i].toLower
  fixed : checksum? a = some a
  common : ∀ t es, Spells t es →
    (checksum? t = some a ↔ es.map Char.toLower = ds.map Char.toLower)

theorem getElem_cased {ds : List Char} (h : ∀ c ∈ ds, c ∈ hexDigits) {i : Nat}
    (hi : i < (cased ds).length) : (cased ds)[i] =
      if 8 ≤ (hashOf (ds.map Char.toLower)).getD i 0 then (cased ds)[i].toUpper
      else (cased ds)[i].toLower := by
  have hmin : i < min ds.length (hashOf (ds.map Char.toLower)).length := by
    rwa [cased, capitalise, List.length_zipWith, List.length_map] at hi
  have hdigit : ds[i] ∈ hexDigits := h _ (List.getElem_mem _)
  have hnibble : (hashOf (ds.map Char.toLower)).getD i 0 = (hashOf (ds.map Char.toLower))[i] :=
    (List.getElem_eq_getD 0).symm
  have hget : (cased ds)[i] = if 8 ≤ (hashOf (ds.map Char.toLower))[i] then ds[i].toLower.toUpper
      else ds[i].toLower := by
    simp only [cased, capitalise, List.getElem_zipWith, List.getElem_map]
  rw [hnibble, hget]
  split
  · exact (toUpper_toUpper (toLower_mem_and_toUpper_mem hdigit).1).symm
  · exact (toLower_toLower hdigit).symm

theorem canonical_of_spells {s : String} {ds : List Char} (h : Spells s ds) :
    Canonical (String.ofList ('0' :: 'x' :: cased ds)) ds := by
  have hspells := spells_cased h
  have hlower := map_toLower_cased h.digits h.length
  refine ⟨⟨cased ds, hspells, hlower, fun i hi ↦ getElem_cased h.digits hi⟩, ?_,
    fun t es ht ↦ ?_⟩
  · rw [checksum?_of_spells hspells, cased_congr hlower]
  · rw [checksum?_of_spells ht]
    constructor
    · intro heq
      have htext := String.ofList_injective (Option.some.inj heq)
      have hcased : cased es = cased ds := by simpa using htext
      rw [← map_toLower_cased ht.digits ht.length, hcased, hlower]
    · intro heq
      rw [cased_congr heq]

theorem checksum_canonical (s : String) : ((checksum? s).isSome ↔ ∃ ds, Spells s ds) ∧
    ∀ ds, Spells s ds → ∃ a, checksum? s = some a ∧ Canonical a ds := by
  constructor
  · rw [checksum?, Option.isSome_map, Option.isSome_iff_exists]
    exact exists_congr fun ds ↦ digits?_eq_some_iff
  · intro ds h
    exact ⟨_, checksum?_of_spells h, canonical_of_spells h⟩

theorem checksum_canonical_mixed : ∃ ds,
    Spells "0x5aaeb6053f3e94c9b9a09f33669435e7ef1beaed" ds ∧
      Canonical "0x5aAeb6053F3E94C9b9A09f33669435E7Ef1BeAed" ds := by
  have hspells : Spells "0x5aaeb6053f3e94c9b9a09f33669435e7ef1beaed"
      "5aaeb6053f3e94c9b9a09f33669435e7ef1beaed".toList := digits?_eq_some_iff.mp (by decide)
  obtain ⟨a, ha, hcanonical⟩ := (checksum_canonical _).2 _ hspells
  have hform : checksum? "0x5aaeb6053f3e94c9b9a09f33669435e7ef1beaed" =
      some "0x5aAeb6053F3E94C9b9A09f33669435E7Ef1BeAed" := by decide +kernel
  rw [hform] at ha
  cases ha
  exact ⟨_, hspells, hcanonical⟩

end Address

end TokenContract
