import TokenContract.Proofs.Json.Decode
import TokenContract.Proofs.Json.Numbers
import TokenContract.Proofs.Text.Blank
import TokenContract.Spec.Fingerprint

namespace TokenContract

open Json (Each EachField Sized Legible Readable)
open Results

namespace Value

def Finite (v : Value) : Prop :=
  ∀ x ∈ v.asNumber?, x.isFinite = true

theorem decode_toJson (v : Value) : decode .text 4 v.toJson = .ok v := by
  cases v with
  | bool b => rfl
  | number x => rfl
  | text s => rfl

theorem finite_number {x : Binary64} (h : x.isFinite = true) : (number x).Finite :=
  fun _ hy ↦ Option.some.inj hy ▸ h

theorem finite_of_decode {origin : Json.Origin} {level : Nat} {j : Json} {v : Value}
    (hj : Each Sized j) (h : decode origin level j = .ok v) : v.Finite := by
  have hvalue := Json.select_of_decodeVariant h
  cases j with
  | bool b =>
    cases hvalue
    exact fun _ hx ↦ by cases hx
  | integer n =>
    rw [ofJson?, Option.some.injEq] at hvalue
    rw [← hvalue]
    have hnat := (Binary64.within_ofNat hj).isFinite
    split
    · exact finite_number (Binary64.isFinite_neg hnat)
    · exact finite_number hnat
  | real x =>
    rw [ofJson?, Option.some.injEq] at hvalue
    rw [← hvalue]
    exact finite_number hj
  | text s =>
    cases hvalue
    exact fun _ hx ↦ by cases hx
  | null | array items | object fields | fault f => cases hvalue

theorem readable_toJson {v : Value} (h : ∀ x ∈ v.asNumber?, Legible x) : Each Readable v.toJson := by
  cases v with
  | bool b => trivial
  | number x => exact h x rfl
  | text s => trivial

end Value

namespace Selection

def numbers (s : Selection) : List Binary64 :=
  s.parameters.entries.filterMap fun e ↦ e.2.asNumber?

theorem decode_toJson (s : Selection) : decode .text s.toJson = .ok s := by
  have hparameters := Json.decodeDict_entries Value.decode_toJson s.parameters
  have henabled : Draft.read .text {} "enabled" (.bool s.enabled) =
      .ok { enabled := some s.enabled } := rfl
  have hboth : Draft.read .text { enabled := some s.enabled } "parameters"
      (.object (s.parameters.map Value.toJson).entries) =
      .ok ⟨some s.enabled, some s.parameters⟩ :=
    bind_eq_ok_iff.mpr ⟨_, Json.decodeOnce_none hparameters _, rfl⟩
  refine bind_eq_ok_iff.mpr ⟨⟨_, none⟩, rfl, ?_⟩
  refine bind_eq_ok_iff.mpr ⟨⟨some s.enabled, some s.parameters⟩, Json.foldFields_eq_ok ?_, rfl⟩
  refine bind_eq_ok_iff.mpr ⟨_, henabled, ?_⟩
  exact bind_eq_ok_iff.mpr ⟨_, hboth, rfl⟩

def Draft.Finite (p : Draft) : Prop :=
  ∀ d ∈ p.parameters, ∀ e ∈ d.entries, e.2.Finite

theorem Draft.finite_of_read {origin : Json.Origin} {p q : Draft} {name : String} {j : Json}
    (hp : p.Finite) (hj : Each Sized j) (h : p.read origin name j = .ok q) : q.Finite := by
  unfold Draft.read at h
  split at h
  · obtain ⟨b, -, h⟩ := bind_eq_ok_iff.mp h
    cases h
    exact hp
  · obtain ⟨taken, htaken, h⟩ := bind_eq_ok_iff.mp h
    cases h
    obtain ⟨d, hd, rfl⟩ := Json.exists_of_decodeOnce htaken
    rintro _ ⟨rfl⟩
    exact Json.forall_decodeDict hj (fun i v ↦ Value.finite_of_decode) hd
  · obtain ⟨u, -, h⟩ := bind_eq_ok_iff.mp h
    cases h
    exact hp

theorem finite_of_decode {origin : Json.Origin} {j : Json} {s : Selection} (hj : Each Sized j)
    (h : decode origin j = .ok s) : ∀ x ∈ s.numbers, x.isFinite = true := by
  obtain ⟨r, hr, h⟩ := bind_eq_ok_iff.mp h
  obtain ⟨p, hp, h⟩ := bind_eq_ok_iff.mp h
  obtain ⟨b, -, h⟩ := bind_eq_ok_iff.mp h
  cases h
  have hfields := Json.each_of_decodeRecord hj hr
  have hdraft : p.Finite := Json.Record.foldFields_preserves
    (fun _ f hf _ hs ↦ Draft.finite_of_read hs (hfields f hf)) (by rintro d ⟨⟩) hp
  intro x hx
  obtain ⟨e, he, hx⟩ := List.mem_filterMap.mp hx
  obtain ⟨d, hd, he⟩ := Dict.exists_of_mem_getD he
  exact hdraft d hd e he x hx

theorem readable_toJson {s : Selection} (h : ∀ x ∈ s.numbers, Legible x) :
    Each Readable s.toJson := by
  refine ⟨trivial, Json.eachField_iff.mpr fun f hf ↦ ?_, trivial⟩
  obtain ⟨e, he, rfl⟩ := List.mem_map.mp hf
  exact Value.readable_toJson fun x hx ↦ h x (List.mem_filterMap.mpr ⟨e, he, hx⟩)

end Selection

namespace Spec

def numbers (s : Spec) : List Binary64 :=
  s.features.entries.flatMap fun e ↦ e.2.numbers

theorem decode_toJson {s : Spec} (h : Text.trim s.totalSupply = s.totalSupply) :
    decode .text s.toJson = .ok s := by
  have hfeatures := Json.decodeDict_entries Selection.decode_toJson s.features
  have hsupply : Json.decodeVariant .text 1 "Supply" supplyOfJson? (.text s.totalSupply) =
      .ok s.totalSupply := congrArg Except.ok h
  have hdecimals : Json.decodeNat "u8" 255 (.integer s.decimals.toNat) = .ok s.decimals.toNat :=
    if_pos ⟨Int.natCast_nonneg _, Int.ofNat_le.mpr (Nat.le_of_lt_succ s.decimals.toNat_lt)⟩
  have htotal (p : Draft) (hp : p.totalSupply = none) :
      p.read .text "totalSupply" (.text s.totalSupply) =
        .ok { p with totalSupply := some s.totalSupply } :=
    bind_eq_ok_iff.mpr ⟨_, hp ▸ Json.decodeOnce_none hsupply _, rfl⟩
  have hplaces (p : Draft) (hp : p.decimals = none) :
      p.read .text "decimals" (.integer s.decimals.toNat) =
        .ok { p with decimals := some s.decimals.toNat } :=
    bind_eq_ok_iff.mpr ⟨_, hp ▸ Json.decodeOnce_none hdecimals _, rfl⟩
  have hchosen (p : Draft) (hp : p.features = none) :
      p.read .text "features" (.object (s.features.map Selection.toJson).entries) =
        .ok { p with features := some s.features } :=
    bind_eq_ok_iff.mpr ⟨_, hp ▸ Json.decodeOnce_none hfeatures _, rfl⟩
  refine bind_eq_ok_iff.mpr ⟨⟨_, none⟩, rfl, ?_⟩
  refine bind_eq_ok_iff.mpr ⟨⟨some s.name, some s.symbol, some s.totalSupply,
    some s.decimals.toNat, some s.features⟩, Json.foldFields_eq_ok ?_, ?_⟩
  · refine bind_eq_ok_iff.mpr ⟨{ name := some s.name }, rfl, ?_⟩
    refine bind_eq_ok_iff.mpr ⟨{ name := some s.name, symbol := some s.symbol }, rfl, ?_⟩
    refine bind_eq_ok_iff.mpr ⟨_, htotal _ rfl, bind_eq_ok_iff.mpr ⟨_, hplaces _ rfl, ?_⟩⟩
    exact bind_eq_ok_iff.mpr ⟨_, hchosen _ rfl, rfl⟩
  · exact congrArg (fun d ↦ Except.ok { s with decimals := d }) UInt8.ofNat_toNat

theorem trim_digitChars (n : Nat) :
    Text.trim (String.ofList (digitChars n)) = String.ofList (digitChars n) := by
  have hdigits : ∀ c ∈ digitChars n, Text.isBlank c = false := fun c hc ↦
    Text.isBlank_of_isAlphanum (by simp [Char.isAlphanum, isDigit_of_mem_digitChars hc])
  rw [Text.trim, String.toList_ofList, Text.trimChars_eq_self hdigits]

theorem trim_of_supplyOfJson? {j : Json} {t : String} (h : supplyOfJson? j = some t) :
    Text.trim t = t := by
  cases j with
  | text s =>
    cases h
    exact Text.trim_trim s
  | integer n =>
    rw [supplyOfJson?] at h
    split at h
    · cases h
      exact trim_digitChars n.toNat
    · cases h
  | _ => cases h

structure Draft.Settled (p : Draft) : Prop where
  trimmed : ∀ t ∈ p.totalSupply, Text.trim t = t
  finite : ∀ d ∈ p.features, ∀ e ∈ d.entries, ∀ x ∈ e.2.numbers, x.isFinite = true

theorem Draft.settled_of_read {origin : Json.Origin} {p q : Draft} {name : String} {j : Json}
    (hp : p.Settled) (hj : Each Sized j) (h : p.read origin name j = .ok q) : q.Settled := by
  unfold Draft.read at h
  split at h
  · obtain ⟨taken, -, h⟩ := bind_eq_ok_iff.mp h
    cases h
    exact ⟨hp.trimmed, hp.finite⟩
  · obtain ⟨taken, -, h⟩ := bind_eq_ok_iff.mp h
    cases h
    exact ⟨hp.trimmed, hp.finite⟩
  · obtain ⟨taken, htaken, h⟩ := bind_eq_ok_iff.mp h
    cases h
    obtain ⟨t, ht, rfl⟩ := Json.exists_of_decodeOnce htaken
    have htrim := trim_of_supplyOfJson? (Json.select_of_decodeVariant ht)
    exact ⟨fun _ hu ↦ Option.some.inj hu ▸ htrim, hp.finite⟩
  · obtain ⟨taken, -, h⟩ := bind_eq_ok_iff.mp h
    cases h
    exact ⟨hp.trimmed, hp.finite⟩
  · obtain ⟨taken, htaken, h⟩ := bind_eq_ok_iff.mp h
    cases h
    obtain ⟨d, hd, rfl⟩ := Json.exists_of_decodeOnce htaken
    have hfinite := Json.forall_decodeDict hj (fun i s ↦ Selection.finite_of_decode) hd
    exact ⟨hp.trimmed, fun _ he ↦ Option.some.inj he ▸ hfinite⟩
  · obtain ⟨u, -, h⟩ := bind_eq_ok_iff.mp h
    cases h
    exact hp

/-- The fixed points of encoding and decoding. -/
structure Settled (s : Spec) : Prop where
  trimmed : Text.trim s.totalSupply = s.totalSupply
  finite : ∀ x ∈ s.numbers, x.isFinite = true

theorem settled_of_decode {origin : Json.Origin} {j : Json} {s : Spec} (hj : Each Sized j)
    (h : decode origin j = .ok s) : s.Settled := by
  obtain ⟨r, hr, h⟩ := bind_eq_ok_iff.mp h
  obtain ⟨p, hp, h⟩ := bind_eq_ok_iff.mp h
  obtain ⟨name, -, h⟩ := bind_eq_ok_iff.mp h
  obtain ⟨symbol, -, h⟩ := bind_eq_ok_iff.mp h
  obtain ⟨supply, hsupply, h⟩ := bind_eq_ok_iff.mp h
  obtain ⟨decimals, -, h⟩ := bind_eq_ok_iff.mp h
  cases h
  have hfields := Json.each_of_decodeRecord hj hr
  have hdraft : p.Settled := Json.Record.foldFields_preserves
    (fun _ f hf _ hs ↦ Draft.settled_of_read hs (hfields f hf)) ⟨by rintro t ⟨⟩, by rintro d ⟨⟩⟩ hp
  refine ⟨hdraft.trimmed supply (Json.require_eq_ok_iff.mp hsupply), fun x hx ↦ ?_⟩
  obtain ⟨e, he, hx⟩ := List.mem_flatMap.mp hx
  obtain ⟨d, hd, he⟩ := Dict.exists_of_mem_getD he
  exact hdraft.finite d hd e he x hx

theorem readable_toJson {s : Spec} (h : ∀ x ∈ s.numbers, Legible x) : Each Readable s.toJson := by
  refine ⟨trivial, trivial, trivial, ?_, Json.eachField_iff.mpr fun f hf ↦ ?_, trivial⟩
  · have hlt := s.decimals.toNat_lt
    have hword : 255 ≤ Binary64.maxWord := by decide
    change -(2 ^ 63 : Nat) ≤ (s.decimals.toNat : Int) ∧ (s.decimals.toNat : Int) ≤ Binary64.maxWord
    omega
  · obtain ⟨e, he, rfl⟩ := List.mem_map.mp hf
    exact Selection.readable_toJson fun x hx ↦ h x (List.mem_flatMap.mpr ⟨e, he, hx⟩)

theorem parse_eq_ok_iff {text : String} {s : Spec} :
    parse text = .ok s ↔ decode .text (Json.read text).1 = .ok s ∧ (Json.read text).2 = true := by
  rw [parse, Json.decodeString]
  generalize Json.read text = found
  obtain ⟨j, complete⟩ := found
  refine bind_eq_ok_iff.trans ⟨fun ⟨t, ht, h⟩ ↦ ?_, fun ⟨h, hend⟩ ↦ ⟨s, h, if_pos hend⟩⟩
  cases complete with
  | false => cases h
  | true =>
    cases h
    exact ⟨ht, rfl⟩

theorem parse_canonical {s : Spec} (hs : s.Settled) (h : ∀ x ∈ s.numbers, Legible x) :
    parse s.canonical = .ok s := by
  rw [parse_eq_ok_iff, canonical, Json.read_compact (readable_toJson h)]
  exact ⟨decode_toJson hs.trimmed, rfl⟩

/-- Documents that differ in the form of a supply: a whole number, or the text of its digits. -/
inductive Respelled (n : Nat) : Json → Json → Prop
  | field (before after : List (String × Json)) :
    Respelled n (.object (before ++ ("totalSupply", .integer n) :: after))
      (.object (before ++ ("totalSupply", .text (String.ofList (digitChars n))) :: after))
  | item (name symbol : Json) (rest : List Json) :
    Respelled n (.array (name :: symbol :: .integer n :: rest))
      (.array (name :: symbol :: .text (String.ofList (digitChars n)) :: rest))

theorem Draft.read_integer (origin : Json.Origin) (p : Draft) (n : Nat) :
    p.read origin "totalSupply" (.integer n) =
      p.read origin "totalSupply" (.text (String.ofList (digitChars n))) := by
  have htext : Json.decodeVariant origin 1 "Supply" supplyOfJson?
      (.text (String.ofList (digitChars n))) = .ok (String.ofList (digitChars n)) := by
    cases origin with
    | text => exact congrArg Except.ok (trim_digitChars n)
    | value => exact congrArg Except.ok (trim_digitChars n)
  have hinteger : Json.decodeVariant origin 1 "Supply" supplyOfJson? (.integer n) =
      .ok (String.ofList (digitChars n)) := by
    cases origin with
    | text => rfl
    | value => rfl
  simp only [read, Json.decodeOnce, htext, hinteger]

theorem decode_eq_of_record {origin : Json.Origin} {j k : Json} {r t : Json.Record}
    (hj : Json.decodeRecord origin "TokenSpec" fieldNames 4 j = .ok r)
    (hk : Json.decodeRecord origin "TokenSpec" fieldNames 4 k = .ok t)
    (h : r.foldFields {} (Draft.read origin) = t.foldFields {} (Draft.read origin)) :
    decode origin j = decode origin k := by
  rw [decode, decode, hj, hk]
  change (r.foldFields {} (Draft.read origin) >>= _) = (t.foldFields {} (Draft.read origin) >>= _)
  rw [h]

theorem decode_respelled {n : Nat} {j k : Json} (h : Respelled n j k) (origin : Json.Origin) :
    decode origin j = decode origin k := by
  cases h with
  | field before after =>
    exact decode_eq_of_record rfl rfl
      (Json.foldFields_replace (Draft.read_integer origin · n) before after none {})
  | item name symbol rest =>
    exact decode_eq_of_record rfl rfl (Json.foldFields_replace (Draft.read_integer origin · n)
      [("name", name), ("symbol", symbol)] (["decimals", "features"].zip rest) _ {})

theorem parse_respelled {n : Nat} {j k : Json} (h : Respelled n j k) {u v : String} {complete : Bool}
    (hu : Json.read u = (j, complete)) (hv : Json.read v = (k, complete)) : parse u = parse v := by
  simp only [parse, Json.decodeString, hu, hv, decode_respelled h]

/-- Decoding undoes encoding, and a supply may be given as a whole number or as its digits. -/
theorem parse_roundTrip :
    (∀ text s, parse text = .ok s → (∀ x ∈ s.numbers, x.isFinite = true → Legible x) →
      parse s.canonical = .ok s ∧ (parse s.canonical).map canonical = .ok s.canonical ∧
        (parse s.canonical).map fingerprint = .ok s.fingerprint) ∧
    ∀ n j k u v complete, Respelled n j k → Json.read u = (j, complete) →
      Json.read v = (k, complete) → parse u = parse v := by
  refine ⟨fun text s hs hnumbers ↦ ?_, fun n j k u v complete h hu hv ↦ parse_respelled h hu hv⟩
  have hsettled := settled_of_decode (Json.sized_read text) (parse_eq_ok_iff.mp hs).1
  have hread := parse_canonical hsettled fun x hx ↦ hnumbers x hx (hsettled.finite x hx)
  rw [hread]
  exact ⟨rfl, rfl, rfl⟩

theorem parse_roundTrip_tax :
    let text := "[\"Tax\", \"TAX\", 7, 18, \x7b\"tax\": [true, \x7b\"rate\": 2.5\x7d]\x7d]"
    (∃ s, parse text = .ok s ∧ s.totalSupply = "7" ∧ s.numbers = [2.5] ∧
      parse s.canonical = .ok s) ∧
    parse (Json.array [.text "Tax", .text "TAX", .integer 7, .integer 18]).compact =
      parse (Json.array [.text "Tax", .text "TAX", .text "7", .integer 18]).compact := by
  intro text
  obtain ⟨hround, hrespelled⟩ := parse_roundTrip
  constructor
  · obtain ⟨s, hs, htold⟩ := exists_ok_of_any (x := parse text)
      (q := fun s ↦ s.totalSupply == "7" && s.numbers == [2.5]) (by decide +kernel)
    obtain ⟨hsupply, hnumbers⟩ := Bool.and_eq_true_iff.mp htold
    rw [beq_iff_eq] at hsupply hnumbers
    have hlegible : Legible 2.5 := by decide +kernel
    refine ⟨s, hs, hsupply, hnumbers, (hround text s hs fun x hx _ ↦ ?_).1⟩
    rw [hnumbers, List.mem_singleton] at hx
    exact hx ▸ hlegible
  · have hseven : String.ofList (digitChars 7) = "7" := rfl
    rw [← hseven]
    exact hrespelled 7 _ _ _ _ true (.item (.text "Tax") (.text "TAX") [.integer 18])
      (Json.read_compact ⟨trivial, trivial, ⟨by decide, by decide⟩, ⟨by decide, by decide⟩, trivial⟩)
      (Json.read_compact ⟨trivial, trivial, trivial, ⟨by decide, by decide⟩, trivial⟩)

end Spec

end TokenContract
