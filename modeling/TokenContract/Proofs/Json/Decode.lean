import TokenContract.Json.Decode
import TokenContract.Proofs.Dict
import TokenContract.Proofs.Json.RoundTrip
import TokenContract.Proofs.Results

namespace TokenContract.Json

open Results

variable {α : Type} {p : Json → Prop} {j : Json}

theorem each_of_mem_items {items : List Json} (h : EachItem p items) : ∀ j ∈ items, Each p j := by
  induction items with
  | nil => exact fun _ hj ↦ absurd hj List.not_mem_nil
  | cons j js ih => exact List.forall_mem_cons.mpr ⟨h.1, ih h.2⟩

theorem eachField_iff {fields : List (String × Json)} :
    EachField p fields ↔ ∀ f ∈ fields, Each p f.2 := by
  induction fields with
  | nil => exact ⟨fun _ _ hf ↦ absurd hf List.not_mem_nil, fun _ ↦ trivial⟩
  | cons f fs ih =>
    rw [List.forall_mem_cons, ← ih]
    rfl

theorem decodeOnce_none {decoder : Decoder α} {a : α} (h : decoder j = .ok a) (name : String) :
    decodeOnce name decoder none j = .ok (some a) :=
  congrArg (some <$> ·) h

theorem exists_of_decodeOnce {name : String} {decoder : Decoder α} {seen taken : Option α}
    (h : decodeOnce name decoder seen j = .ok taken) :
    ∃ a, decoder j = .ok a ∧ taken = some a := by
  cases seen with
  | some a => cases h
  | none =>
    obtain ⟨a, ha, rfl⟩ := map_eq_ok_iff.mp h
    exact ⟨a, ha, rfl⟩

theorem require_eq_ok_iff {name : String} {o : Option α} {a : α} :
    require name o = .ok a ↔ o = some a := by
  cases o with
  | none => exact ⟨nofun, nofun⟩
  | some b => exact ⟨fun h ↦ by cases h; rfl, fun h ↦ by cases h; rfl⟩

theorem select_of_decodeVariant {origin : Origin} {level : Nat} {type : String}
    {select : Json → Option α} {a : α} (h : decodeVariant origin level type select j = .ok a) :
    select j = some a := by
  rw [decodeVariant] at h
  split at h
  · cases h
  · split at h
    · rename_i hselect
      cases h
      exact hselect
    · cases h

theorem forall_decodeDict {value : Decoder α} {Q : α → Prop} {d : Dict α} (hj : Each p j)
    (hvalue : ∀ i a, Each p i → value i = .ok a → Q a) (h : decodeDict value j = .ok d) :
    ∀ e ∈ d.entries, Q e.2 := by
  cases j with
  | object fields =>
    obtain ⟨es, hes, h⟩ := bind_eq_ok_iff.mp h
    cases h
    intro e he
    obtain ⟨⟨k, i⟩, hf, hdecode⟩ := (mem_iff_of_mapM hes).mp (Dict.mem_of_mem_ofList he)
    obtain ⟨a, ha, hentry⟩ := bind_eq_ok_iff.mp hdecode
    injection hentry with hentry
    subst hentry
    exact hvalue i a (eachField_iff.mp hj _ hf) ha
  | _ => cases h

theorem each_of_decodeRecord {origin : Origin} {type : String} {names : List String}
    {required : Nat} {r : Record} (hj : Each p j)
    (h : decodeRecord origin type names required j = .ok r) : ∀ f ∈ r.fields, Each p f.2 := by
  cases j with
  | object fields =>
    cases h
    exact eachField_iff.mp hj
  | array items =>
    cases h
    intro f hf
    exact each_of_mem_items hj _ (List.of_mem_zip hf).2
  | _ => cases h

theorem foldFields_eq_ok {σ : Type} {fields : List (String × Json)} {init s : σ}
    {step : σ → String → Json → Except DecodeError σ}
    (h : fields.foldlM (fun s (k, j) ↦ step s k j) init = .ok s) :
    Record.foldFields ⟨fields, none⟩ init step = .ok s :=
  bind_eq_ok_iff.mpr ⟨s, h, rfl⟩

theorem foldFields_replace {σ : Type} {step : σ → String → Json → Except DecodeError σ}
    {name : String} {i j : Json} (h : ∀ s, step s name i = step s name j)
    (before after : List (String × Json)) (flaw : Option DecodeError) (init : σ) :
    Record.foldFields ⟨before ++ (name, i) :: after, flaw⟩ init step =
      Record.foldFields ⟨before ++ (name, j) :: after, flaw⟩ init step := by
  simp only [Record.foldFields, List.foldlM_append, List.foldlM_cons, h]

theorem Record.foldFields_preserves {σ : Type} {r : Record} {P : σ → Prop}
    {step : σ → String → Json → Except DecodeError σ} {init s : σ}
    (hstep : ∀ s, ∀ f ∈ r.fields, ∀ t, P s → step s f.1 f.2 = .ok t → P t) (hinit : P init)
    (h : r.foldFields init step = .ok s) : P s := by
  obtain ⟨t, ht, h⟩ := bind_eq_ok_iff.mp h
  have hlast := foldlM_preserves hstep hinit ht
  split at h
  · cases h
  · cases h
    exact hlast

theorem decodeDict_entries {value : Decoder α} {encode : α → Json}
    (h : ∀ a, value (encode a) = .ok a) (d : Dict α) :
    decodeDict value (.object (d.map encode).entries) = .ok d := by
  have hvalues : (d.map encode).entries.mapM (fun (k, j) ↦ return (k, ← value j)) =
      .ok d.entries := by
    refine mapM_eq_ok_iff.mpr ?_
    rw [Dict.map, List.forall₂_map_left_iff]
    refine List.forall₂_same.mpr fun e _ ↦ ?_
    exact bind_eq_ok_iff.mpr ⟨e.2, h e.2, rfl⟩
  rw [decodeDict, hvalues]
  exact congrArg Except.ok (Dict.ofList_entries d)

end TokenContract.Json
