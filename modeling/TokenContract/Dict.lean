namespace TokenContract

/-- Entries whose keys ascend strictly. -/
structure Dict (α : Type) where
  entries : List (String × α)
  ascending : (entries.map Prod.fst).Pairwise (· < ·)

namespace Dict

variable {α : Type}

theorem ext {d e : Dict α} (h : d.entries = e.entries) : d = e := by
  cases d; cases e; cases h; rfl

instance [DecidableEq α] : DecidableEq (Dict α) := fun d e ↦
  if h : d.entries = e.entries then isTrue (ext h) else isFalse fun g ↦ h (g ▸ rfl)

def empty : Dict α := ⟨[], .nil⟩

instance : Inhabited (Dict α) := ⟨empty⟩

def keys (d : Dict α) : List String := d.entries.map Prod.fst

/-- Puts an entry in its place; an entry with the same key gives way. -/
def place (k : String) (v : α) : List (String × α) → List (String × α)
  | [] => [(k, v)]
  | (j, w) :: es =>
    if k < j then (k, v) :: (j, w) :: es
    else if k = j then (k, v) :: es
    else (j, w) :: place k v es

theorem mem_keys_place {k j : String} {v : α} {es : List (String × α)} :
    j ∈ (place k v es).map Prod.fst ↔ j = k ∨ j ∈ es.map Prod.fst := by
  induction es with
  | nil => simp [place]
  | cons e es ih =>
    obtain ⟨i, w⟩ := e
    simp only [place]
    split
    · simp
    · split
      · rename_i h; subst h; simp
      · simp only [List.map_cons, List.mem_cons, ih]
        constructor
        · rintro (h | h | h) <;> simp [h]
        · rintro (h | h | h) <;> simp [h]

theorem ascending_place (k : String) (v : α) {es : List (String × α)}
    (h : (es.map Prod.fst).Pairwise (· < ·)) :
    ((place k v es).map Prod.fst).Pairwise (· < ·) := by
  induction es with
  | nil => simp [place]
  | cons e es ih =>
    obtain ⟨i, w⟩ := e
    simp only [List.map_cons, List.pairwise_cons] at h
    obtain ⟨hi, hs⟩ := h
    simp only [place]
    split
    · rename_i hk
      simp only [List.map_cons, List.pairwise_cons, List.mem_cons]
      refine ⟨?_, hi, hs⟩
      rintro j (rfl | hj)
      · exact hk
      · exact String.lt_trans hk (hi j hj)
    · split
      · rename_i hk
        subst hk
        exact List.pairwise_cons.mpr ⟨hi, hs⟩
      · rename_i hk hne
        refine List.pairwise_cons.mpr ⟨fun j hj ↦ ?_, ih hs⟩
        rcases mem_keys_place.mp hj with rfl | hj
        · rcases Std.lt_trichotomy i j with h | h | h
          · exact h
          · exact absurd h.symm hne
          · exact absurd h hk
        · exact hi j hj

def insert (d : Dict α) (k : String) (v : α) : Dict α :=
  ⟨place k v d.entries, ascending_place k v d.ascending⟩

def find? (d : Dict α) (k : String) : Option α :=
  (d.entries.find? fun e ↦ e.1 == k).map Prod.snd

def contains (d : Dict α) (k : String) : Bool :=
  (d.find? k).isSome

theorem find?_eq_of_mem {es : List (String × α)} (h : (es.map Prod.fst).Pairwise (· < ·))
    {k : String} {v : α} (hm : (k, v) ∈ es) :
    (es.find? fun e ↦ e.1 == k).map Prod.snd = some v := by
  induction es with
  | nil => simp at hm
  | cons e es ih =>
    obtain ⟨hi, hs⟩ := List.pairwise_cons.mp h
    rcases List.mem_cons.mp hm with rfl | hm
    · simp
    · have hlt : e.1 < k := hi k (List.mem_map_of_mem hm)
      have hne : e.1 ≠ k := fun he ↦ absurd (he ▸ hlt) (String.lt_irrefl k)
      simp [beq_eq_false_iff_ne.mpr hne, ih hs hm]

theorem mem_entries_iff {d : Dict α} {k : String} {v : α} :
    (k, v) ∈ d.entries ↔ d.find? k = some v := by
  refine ⟨find?_eq_of_mem d.ascending, fun h ↦ ?_⟩
  obtain ⟨⟨j, w⟩, hf, rfl⟩ := Option.map_eq_some_iff.mp h
  have hj : j = k := by simpa using List.find?_some hf
  exact hj ▸ List.mem_of_find?_eq_some hf

theorem mem_keys_iff {d : Dict α} {k : String} : k ∈ d.keys ↔ d.contains k := by
  simp only [keys, contains, List.mem_map, Option.isSome_iff_exists, ← mem_entries_iff]
  exact ⟨fun ⟨e, he, hk⟩ ↦ ⟨e.2, hk ▸ he⟩, fun ⟨v, hv⟩ ↦ ⟨(k, v), hv, rfl⟩⟩

theorem eq_of_ascending {es fs : List (String × α)} (he : (es.map Prod.fst).Pairwise (· < ·))
    (hf : (fs.map Prod.fst).Pairwise (· < ·)) (h : ∀ e, e ∈ es ↔ e ∈ fs) : es = fs := by
  induction es generalizing fs with
  | nil =>
    cases fs with
    | nil => rfl
    | cons f fs => simpa using h f
  | cons e es ih =>
    cases fs with
    | nil => simpa using h e
    | cons f fs =>
      obtain ⟨hi, hs⟩ := List.pairwise_cons.mp he
      obtain ⟨hj, ht⟩ := List.pairwise_cons.mp hf
      have hef : e = f := by
        rcases List.mem_cons.mp ((h e).mp List.mem_cons_self) with rfl | h₁
        · rfl
        rcases List.mem_cons.mp ((h f).mpr List.mem_cons_self) with rfl | h₂
        · rfl
        · exact absurd (String.lt_trans (hi _ (List.mem_map_of_mem h₂))
            (hj _ (List.mem_map_of_mem h₁))) (String.lt_irrefl _)
      subst hef
      congr 1
      refine ih hs ht fun g ↦ ⟨fun hg ↦ ?_, fun hg ↦ ?_⟩
      · rcases List.mem_cons.mp ((h g).mp (List.mem_cons_of_mem _ hg)) with rfl | hg'
        · exact absurd (hi _ (List.mem_map_of_mem hg)) (String.lt_irrefl _)
        · exact hg'
      · rcases List.mem_cons.mp ((h g).mpr (List.mem_cons_of_mem _ hg)) with rfl | hg'
        · exact absurd (hj _ (List.mem_map_of_mem hg)) (String.lt_irrefl _)
        · exact hg'

theorem ext_find? {d e : Dict α} (h : ∀ k, d.find? k = e.find? k) : d = e :=
  ext (eq_of_ascending d.ascending e.ascending fun (k, v) ↦ by
    rw [mem_entries_iff, mem_entries_iff, h k])

theorem find?_place (k j : String) (v : α) (es : List (String × α)) :
    ((place k v es).find? fun e ↦ e.1 == j).map Prod.snd =
      if k = j then some v else (es.find? fun e ↦ e.1 == j).map Prod.snd := by
  induction es with
  | nil => by_cases h : k = j <;> simp [place, h]
  | cons e es ih =>
    obtain ⟨i, w⟩ := e
    simp only [place]
    split
    · by_cases h : k = j <;> simp [h]
    · split
      · rename_i h; subst h
        by_cases h : k = j <;> simp [h]
      · rename_i hne
        by_cases h : i = j
        · subst h; simp [hne]
        · simp only [List.find?_cons, beq_eq_false_iff_ne.mpr h, ih]

theorem find?_insert (d : Dict α) (k j : String) (v : α) :
    (d.insert k v).find? j = if k = j then some v else d.find? j :=
  find?_place k j v d.entries

theorem mem_keys_insert {d : Dict α} {k j : String} {v : α} :
    j ∈ (d.insert k v).keys ↔ j = k ∨ j ∈ d.keys :=
  mem_keys_place

/-- The dictionary of a list of entries; of several with one key the last counts. -/
def ofList (es : List (String × α)) : Dict α :=
  es.foldl (fun d e ↦ d.insert e.1 e.2) empty

def map {β : Type} (f : α → β) (d : Dict α) : Dict β :=
  ⟨d.entries.map fun e ↦ (e.1, f e.2), by
    simpa only [List.map_map, Function.comp_def] using d.ascending⟩

end Dict

end TokenContract
