import TokenContract.History
import TokenContract.Proofs.Generation.Alike

namespace TokenContract

/-- Among some specifications the fingerprint tells the canonical texts apart. -/
def CollisionFree (asked : List Spec) : Prop :=
  ∀ s ∈ asked, ∀ t ∈ asked, s.fingerprint = t.fingerprint → s.canonical = t.canonical

theorem CollisionFree.generate_eq {asked : List Spec} (hasked : CollisionFree asked) {s t : Spec}
    (hs : s ∈ asked) (ht : t ∈ asked) (h : s.fingerprint = t.fingerprint) (c : Catalog)
    (settings : Settings) : c.generate s settings = c.generate t settings :=
  (Spec.alike_of_canonical_eq (hasked s hs t ht h)).generate_eq c settings

namespace Record

theorem fingerprint_ofResult (s : Spec) (result : Except Rejection Artifact) :
    (ofResult s result).fingerprint = s.fingerprint := by
  cases result with
  | error e => rfl
  | ok a => rfl

theorem artifact?_ofResult {s : Spec} {result : Except Rejection Artifact} {a : Artifact} :
    (ofResult s result).artifact? = some a ↔ result = .ok a := by
  cases result with
  | error e => simp [ofResult, artifact?, Except.toOption]
  | ok b => simp [ofResult, artifact?, Except.toOption]

end Record

namespace History

variable {c : Catalog} {settings : Settings} {asked : List Spec} {h : History} {s : Spec}

/-- Every record is that of the result of a request. -/
def Faithful (c : Catalog) (settings : Settings) (asked : List Spec) (h : History) : Prop :=
  ∀ r ∈ h.records, ∃ s ∈ asked, r = .ofResult s (c.generate s settings)

def run (c : Catalog) (settings : Settings) (h : History) :
    List Spec → List (Except Rejection Artifact) × History
  | [] => ([], h)
  | s :: ss =>
    let (answer, next) := h.generate c settings s
    let (answers, last) := run c settings next ss
    (answer :: answers, last)

theorem find?_eq_some {r : Record} (hr : h.find? s = some r) :
    r ∈ h.records ∧ r.fingerprint = s.fingerprint := by
  unfold find? latest? at hr
  refine ⟨?_, ?_⟩
  · exact List.mem_reverse.mp (List.mem_of_find?_eq_some hr)
  · simpa using List.find?_some hr

theorem mem_records_record {capacity : Nat} {r x : Record}
    (hx : x ∈ (h.record capacity r).records) : x ∈ h.records ∨ x = r := by
  unfold record at hx
  split at hx
  · exact .inl hx
  · rcases List.mem_append.mp hx with hx | hx
    · split at hx
      · exact .inl (List.mem_of_mem_drop hx)
      · exact .inl hx
    · exact .inr (List.mem_singleton.mp hx)

theorem Faithful.served (hh : h.Faithful c settings asked) (hasked : CollisionFree asked)
    (hs : s ∈ asked) {a : Artifact} (ha : (h.find? s).bind Record.artifact? = some a) :
    c.generate s settings = .ok a := by
  obtain ⟨r, hr, ha⟩ := Option.bind_eq_some_iff.mp ha
  obtain ⟨hmem, hprint⟩ := find?_eq_some hr
  obtain ⟨t, ht, rfl⟩ := hh r hmem
  -- The record may be that of another specification, but of one with the same text.
  rw [Record.fingerprint_ofResult] at hprint
  rw [hasked.generate_eq hs ht hprint.symm]
  exact Record.artifact?_ofResult.mp ha

theorem Faithful.record (hh : h.Faithful c settings asked) (hs : s ∈ asked) (capacity : Nat) :
    (h.record capacity (.ofResult s (c.generate s settings))).Faithful c settings asked := by
  intro r hr
  rcases mem_records_record hr with hr | rfl
  · exact hh r hr
  · exact ⟨s, hs, rfl⟩

theorem Faithful.generate (hh : h.Faithful c settings asked) (hasked : CollisionFree asked)
    (hs : s ∈ asked) : (h.generate c settings s).1 = c.generate s settings ∧
      (h.generate c settings s).2.Faithful c settings asked := by
  unfold History.generate
  split
  · rename_i a ha
    exact ⟨(hh.served hasked hs ha).symm, hh⟩
  · have hmissed : Faithful c settings asked { h with misses := h.misses + 1 } := hh
    exact ⟨rfl, hmissed.record hs settings.capacity⟩

theorem Faithful.run (hh : h.Faithful c settings asked) (hasked : CollisionFree asked)
    {ss : List Spec} (hss : ss ⊆ asked) : (h.run c settings ss).1 = ss.map (c.generate · settings) ∧
      (h.run c settings ss).2.Faithful c settings asked := by
  induction ss generalizing h with
  | nil => exact ⟨rfl, hh⟩
  | cons s ss ih =>
    obtain ⟨hanswer, hnext⟩ := hh.generate hasked (hss List.mem_cons_self)
    obtain ⟨hanswers, hlast⟩ := ih hnext fun t ht ↦ hss (List.mem_cons_of_mem s ht)
    refine ⟨?_, hlast⟩
    rw [List.map_cons, ← hanswer, ← hanswers]
    rfl

theorem faithful_empty : Faithful c settings asked {} :=
  fun _ hr ↦ absurd hr List.not_mem_nil

/-- Every answer of a run is the result of its request. -/
theorem answers_eq_map_generate (c : Catalog) (settings : Settings) {ss : List Spec}
    (hss : CollisionFree ss) :
    (({} : History).run c settings ss).1 = ss.map (c.generate · settings) :=
  (faithful_empty.run hss (List.Subset.refl ss)).1

def taxWithNote (x : Binary64) : Spec where
  name := "Noted"
  symbol := "NTD"
  totalSupply := "1000000"
  decimals := 18
  features := Dict.ofList [(Tax.feature.id, ⟨true, Dict.ofList [("note", .number x)]⟩)]

theorem answers_taxWithNote :
    CollisionFree [taxWithNote .nan, taxWithNote (.infinite true), taxWithNote .nan] ∧
      (({} : History).run .standard { capacity := 1 }
        [taxWithNote .nan, taxWithNote (.infinite true), taxWithNote .nan]).1 =
      [taxWithNote .nan, taxWithNote (.infinite true), taxWithNote .nan].map
        (Catalog.standard.generate · { capacity := 1 }) := by
  have hcanonical : (taxWithNote (.infinite true)).canonical = (taxWithNote .nan).canonical := by
    decide +kernel
  have hone : ∀ s ∈ [taxWithNote .nan, taxWithNote (.infinite true), taxWithNote .nan],
      s.canonical = (taxWithNote .nan).canonical := by
    simp [hcanonical]
  have hfree : CollisionFree [taxWithNote .nan, taxWithNote (.infinite true), taxWithNote .nan] :=
    fun s hs t ht _ ↦ (hone s hs).trans (hone t ht).symm
  exact ⟨hfree, answers_eq_map_generate .standard { capacity := 1 } hfree⟩

end History

end TokenContract
