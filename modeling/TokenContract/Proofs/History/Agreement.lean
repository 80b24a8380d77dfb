import TokenContract.Proofs.History.Retention

namespace TokenContract.History

variable {c : Catalog} {settings : Settings} {asked : List Spec} {h : History} {s : Spec}

def generated (h : History) : List String :=
  (h.records.filter (·.artifact?.isSome)).map (·.fingerprint)

/-- What the records of a history say about each other, and about the requests it has answered. -/
structure Consistent (c : Catalog) (settings : Settings) (asked : List Spec) (h : History) :
    Prop where
  agree : ∀ r ∈ h.records, ∀ t ∈ h.records, r.fingerprint = t.fingerprint →
    (∃ a, r.artifact? = some a ∧ t.artifact? = some a) ∨
      ∃ e, r.errorMessage? = some e ∧ t.errorMessage? = some e
  once : h.generated.Nodup
  counted : h.summary.successful = h.generated.toFinset.card
  origin : ∀ f ∈ h.generated, ∃ s ∈ asked, s.fingerprint = f ∧
    ∃ a, c.generate s settings = .ok a
  complete : asked.length ≤ settings.capacity → ∀ s ∈ asked, ∀ a,
    c.generate s settings = .ok a → s.fingerprint ∈ h.generated

theorem mem_generated_iff {f : String} :
    f ∈ h.generated ↔ ∃ r ∈ h.records, r.artifact?.isSome ∧ r.fingerprint = f := by
  simp [generated, and_assoc]

theorem Faithful.eq_of_fingerprint (hh : h.Faithful c settings asked)
    (hasked : CollisionFree asked) {r t : Record} (hr : r ∈ h.records) (ht : t ∈ h.records)
    (heq : r.fingerprint = t.fingerprint) : r = t := by
  obtain ⟨s, hs, rfl⟩ := hh r hr
  obtain ⟨u, hu, rfl⟩ := hh t ht
  rw [Record.fingerprint_ofResult, Record.fingerprint_ofResult] at heq
  have hname := (Spec.alike_of_canonical_eq (hasked s hs u hu heq)).name
  rw [hasked.generate_eq hs hu heq]
  cases c.generate u settings with
  | error e => simp only [Record.ofResult, Spec.contractName, heq, hname]
  | ok a => simp only [Record.ofResult, heq]

theorem exists_latest {r : Record} (hr : r ∈ h.records) (heq : r.fingerprint = s.fingerprint) :
    ∃ t, Latest h.records s.fingerprint t := by
  have hsome : (h.find? s).isSome := by
    rw [find?, latest?, List.find?_isSome]
    exact ⟨r, List.mem_reverse.mpr hr, by simpa using heq⟩
  obtain ⟨t, ht⟩ := Option.isSome_iff_exists.mp hsome
  exact ⟨t, find?_eq_some_iff.mp ht⟩

theorem Faithful.notMem_generated (hh : h.Faithful c settings asked)
    (hasked : CollisionFree asked)
    (hnone : ¬∃ r a, Latest h.records s.fingerprint r ∧ r.outcome = .ok a) :
    s.fingerprint ∉ h.generated := by
  intro hmem
  obtain ⟨r, hr, hsome, heq⟩ := mem_generated_iff.mp hmem
  obtain ⟨t, ht⟩ := exists_latest hr heq
  obtain ⟨hrecord, hprint⟩ := find?_eq_some (find?_eq_some_iff.mpr ht)
  obtain rfl := hh.eq_of_fingerprint hasked hr hrecord (heq.trans hprint.symm)
  obtain ⟨a, ha⟩ := Option.isSome_iff_exists.mp hsome
  exact hnone ⟨r, a, ht, Record.artifact?_eq_some_iff.mp ha⟩

theorem generated_record {capacity : Nat} {r : Record} :
    (h.record capacity r).generated.Sublist
      (h.generated ++ if r.artifact?.isSome then [r.fingerprint] else []) := by
  have hnew {kept : List Record} (hkept : kept.Sublist h.records) :
      (((kept ++ [r]).filter (·.artifact?.isSome)).map (·.fingerprint)).Sublist
        (h.generated ++ if r.artifact?.isSome then [r.fingerprint] else []) := by
    rw [List.filter_append, List.map_append]
    refine ((hkept.filter _).map _).append ?_
    cases hr : r.artifact?.isSome with
    | false => simp [hr]
    | true => simp [hr]
  unfold record
  split
  · exact List.sublist_append_left _ _
  · apply hnew
    split
    · exact List.drop_sublist 1 _
    · exact List.Sublist.refl _

theorem Faithful.nodup_generated (hh : h.Faithful c settings asked)
    (hasked : CollisionFree asked) (hnodup : h.generated.Nodup) (s : Spec) :
    (h.generate c settings s).2.generated.Nodup := by
  by_cases hex : ∃ r a, Latest h.records s.fingerprint r ∧ r.outcome = .ok a
  · obtain ⟨r, a, hr, ha⟩ := hex
    rw [generate_of_latest hr ha]
    exact hnodup
  · rw [generate_of_not_latest hex]
    refine generated_record.nodup ?_
    have hfresh := hh.notMem_generated hasked hex
    rw [Record.fingerprint_ofResult]
    split
    · exact List.nodup_append_comm.mp (List.nodup_cons.mpr ⟨hfresh, hnodup⟩)
    · rw [List.append_nil]
      exact hnodup

theorem Faithful.nodup_generated_run (hh : h.Faithful c settings asked)
    (hasked : CollisionFree asked) (hnodup : h.generated.Nodup) {ss : List Spec}
    (hss : ss ⊆ asked) : (h.run c settings ss).2.generated.Nodup := by
  induction ss generalizing h with
  | nil => exact hnodup
  | cons s ss ih =>
    have hnext := (hh.generate hasked (hss List.mem_cons_self)).2
    exact ih hnext (hh.nodup_generated hasked hnodup s) fun t ht ↦ hss (List.mem_cons_of_mem s ht)

theorem generated_generate (hroom : h.records.length < settings.capacity) (c : Catalog) (s : Spec) :
    h.generated ⊆ (h.generate c settings s).2.generated ∧
      (∀ a, c.generate s settings = .ok a →
        s.fingerprint ∈ (h.generate c settings s).2.generated) ∧
      (h.generate c settings s).2.records.length ≤ h.records.length + 1 := by
  by_cases hex : ∃ r a, Latest h.records s.fingerprint r ∧ r.outcome = .ok a
  · obtain ⟨r, a, hr, ha⟩ := hex
    obtain ⟨hmem, hprint⟩ := find?_eq_some (find?_eq_some_iff.mpr hr)
    have hsome : r.artifact?.isSome := by rw [Record.artifact?_eq_some_iff.mpr ha]; rfl
    rw [generate_of_latest hr ha]
    exact ⟨List.Subset.refl _, fun _ _ ↦ mem_generated_iff.mpr ⟨r, hmem, hsome, hprint⟩,
      Nat.le_succ _⟩
  · have hrecords : (h.generate c settings s).2.records =
        h.records ++ [.ofResult s (c.generate s settings)] := by
      rw [generate_of_not_latest hex, History.record, if_neg (by omega),
        if_neg (by simpa using hroom)]
    refine ⟨fun f hf ↦ ?_, fun a ha ↦ ?_, by simp [hrecords]⟩
    · obtain ⟨r, hr, hgenerated⟩ := mem_generated_iff.mp hf
      rw [mem_generated_iff, hrecords]
      exact ⟨r, List.mem_append_left _ hr, hgenerated⟩
    · rw [mem_generated_iff, hrecords]
      refine ⟨_, List.mem_append_right _ List.mem_cons_self, ?_, Record.fingerprint_ofResult s _⟩
      rw [Record.artifact?_ofResult.mpr ha]
      rfl

theorem generated_run (c : Catalog) {ss : List Spec}
    (hroom : h.records.length + ss.length ≤ settings.capacity) :
    h.generated ⊆ (h.run c settings ss).2.generated ∧
      ∀ s ∈ ss, ∀ a, c.generate s settings = .ok a →
        s.fingerprint ∈ (h.run c settings ss).2.generated := by
  induction ss generalizing h with
  | nil => exact ⟨List.Subset.refl _, fun s hs ↦ absurd hs List.not_mem_nil⟩
  | cons s ss ih =>
    rw [List.length_cons] at hroom
    have hspace : h.records.length < settings.capacity := by omega
    obtain ⟨hkept, hadded, hlength⟩ := generated_generate hspace c s
    obtain ⟨hrest, hlater⟩ := ih (h := (h.generate c settings s).2) (by omega)
    refine ⟨List.Subset.trans hkept hrest, fun t ht a ha ↦ ?_⟩
    rcases List.mem_cons.mp ht with rfl | ht
    · exact hrest (hadded a ha)
    · exact hlater t ht a ha

theorem length_generated (h : History) : h.generated.length = h.summary.successful := by
  rw [generated, List.length_map, ← List.countP_eq_length_filter, summary]

/-- After any run the records under one fingerprint agree, and at most one of them is of a
success. -/
theorem consistent_run (c : Catalog) (settings : Settings) {ss : List Spec}
    (hss : CollisionFree ss) :
    (({} : History).run c settings ss).2.Consistent c settings ss := by
  have hempty : ({} : History).generated.Nodup := List.nodup_nil
  have hstart : ({} : History).Faithful c settings ss := faithful_empty
  have hfaithful := (hstart.run hss (List.Subset.refl ss)).2
  have honce := hstart.nodup_generated_run hss hempty (List.Subset.refl ss)
  refine ⟨fun r hr t ht heq ↦ ?_, honce, ?_, fun f hf ↦ ?_, fun hroom s hs a ha ↦ ?_⟩
  · obtain rfl := hfaithful.eq_of_fingerprint hss hr ht heq
    cases hartifact : r.artifact? with
    | some a => exact .inl ⟨a, rfl, rfl⟩
    | none =>
      have hsome : r.errorMessage?.isSome := by
        rw [Record.isSome_errorMessage?_iff, hartifact]
        exact Bool.false_ne_true
      obtain ⟨e, he⟩ := Option.isSome_iff_exists.mp hsome
      exact .inr ⟨e, he, he⟩
  · rw [List.toFinset_card_of_nodup honce, length_generated]
  · obtain ⟨r, hr, hsome, rfl⟩ := mem_generated_iff.mp hf
    obtain ⟨s, hs, rfl⟩ := hfaithful r hr
    obtain ⟨a, ha⟩ := Option.isSome_iff_exists.mp hsome
    exact ⟨s, hs, (Record.fingerprint_ofResult s _).symm, a, Record.artifact?_ofResult.mp ha⟩
  · have hfits : ({} : History).records.length + ss.length ≤ settings.capacity := by
      simpa using hroom
    exact (generated_run c hfits).2 s hs a ha

def noted (x : Binary64) : Spec where
  name := "N"
  symbol := "N"
  totalSupply := "1"
  decimals := 18
  features := Dict.ofList [(Tax.feature.id, ⟨false, Dict.ofList [("n", .number x)]⟩)]

def nameless : Spec :=
  { name := "", symbol := "", totalSupply := "", decimals := 0, features := .empty }

theorem consistent_noted :
    CollisionFree [noted .nan, nameless, noted (.infinite true), nameless] ∧
      (({} : History).run .standard { capacity := 3 }
        [noted .nan, nameless, noted (.infinite true), nameless]).2.Consistent
        .standard { capacity := 3 } [noted .nan, nameless, noted (.infinite true), nameless] := by
  have hnote : (noted (.infinite true)).canonical = (noted .nan).canonical := by decide +kernel
  have htext : ∀ s ∈ [noted .nan, nameless, noted (.infinite true), nameless],
      s.canonical = (noted .nan).canonical ∨ s.canonical = nameless.canonical := by
    simp [hnote]
  have hapart : (noted .nan).fingerprint ≠ nameless.fingerprint := by decide +kernel
  have hfree : CollisionFree [noted .nan, nameless, noted (.infinite true), nameless] := by
    intro s hs t ht heq
    rcases htext s hs with hs | hs <;> rcases htext t ht with ht | ht
    · exact hs.trans ht.symm
    · rw [Spec.fingerprint_eq_of_canonical_eq hs, Spec.fingerprint_eq_of_canonical_eq ht] at heq
      exact absurd heq hapart
    · rw [Spec.fingerprint_eq_of_canonical_eq hs, Spec.fingerprint_eq_of_canonical_eq ht] at heq
      exact absurd heq.symm hapart
    · exact hs.trans ht.symm
  exact ⟨hfree, consistent_run .standard { capacity := 3 } hfree⟩

end TokenContract.History
