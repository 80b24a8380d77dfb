import TokenContract.Proofs.Plan.Setters

namespace TokenContract

open Results

/-- A setter without a flag, or with one that is set. -/
def SetterDeclaration.isOffered (d : SetterDeclaration) (r : Resolved) : Bool :=
  d.requiresFlag.all fun flag ↦ r.boolean flag = .ok true

/-- The inherited names of a scope. -/
def inheritedOf : Option Scope → List String
  | none => []
  | some s => ["transferOwnership", "renounceOwnership"].filter fun name ↦ s.Matches name

/-- The names that are offered, each with its contributor. -/
def offered (features : List (Feature × Resolved)) (scope : Option Scope) :
    List (String × Contributor) :=
  (features.flatMap fun (f, r) ↦
    (f.setters.filter (·.isOffered r)).map fun d ↦ (d.name, .feature f.id)) ++
  (inheritedOf scope).map fun name ↦ (name, .base)

/-- The first name that is offered again, who offers it first and who does again. -/
def FirstClash (offers : List (String × Contributor)) (name : String) (c d : Contributor) : Prop :=
  ∃ before after, offers = before ++ (name, d) :: after ∧ (before.map Prod.fst).Nodup ∧
    (name, c) ∈ before

/-- All that is offered is there, and waits if it matches the scope. -/
structure Administered (features : List (Feature × Resolved)) (scope : Option Scope)
    (bs : List Binding) : Prop where
  setters : bs.map (fun b ↦ (b.name, b.contributor)) = offered features scope
  waits : ∀ b ∈ bs, b.timelocked ↔ ∃ s, scope = some s ∧ s.Matches b.name
  wrapped : ∀ s, scope = some s → ∀ x ∈ offered features scope, s.Matches x.1 →
    ∃! b, b ∈ bs ∧ b.timelocked ∧ b.name = x.1

/-- What becomes of the setters of features. -/
structure SettersPlanned (features : List (Feature × Resolved)) (scope : Option Scope) : Prop where
  succeeds : (∃ bs, planSetters features scope = .ok bs) ↔
    ((offered features scope).map Prod.fst).Nodup
  administered : ∀ bs, planSetters features scope = .ok bs → Administered features scope bs
  clash : ∀ d, planSetters features scope = .error d ↔
    ∃ name first second, FirstClash (offered features scope) name first second ∧
      d = .duplicateSetter name first.label second.label

def limited : List (Feature × Resolved) :=
  [(Tax.feature, .ofSelection Tax.feature ⟨true, .empty⟩),
    (Antibot.feature, .ofSelection Antibot.feature
      ⟨true, Dict.ofList [("enableBlacklist", .bool true)]⟩)]

def leaving : Feature :=
  { id := "leaving", kind := .timelock, setters := [⟨"renounceOwnership", none⟩] }

theorem SetterDeclaration.isOffered_eq (d : SetterDeclaration) (r : Resolved) :
    d.isOffered r = (d.applies r).toOption.getD false := by
  rw [isOffered, applies]
  cases d.requiresFlag with
  | none => rfl
  | some flag =>
    rw [Option.all_some]
    dsimp only
    cases r.boolean flag with
    | error e => simp [Except.toOption]
    | ok b => simp [Except.toOption]

theorem inheritedOf_eq (scope : Option Scope) :
    inheritedOf scope = inheritedNames.filter fun name ↦ scope.any (·.covers name) := by
  cases scope with
  | none => simp [inheritedOf]
  | some s =>
    simp only [inheritedOf, Option.any_some, ← s.covers_iff, Bool.decide_eq_true]
    rfl

def bindingOf (x : String × Contributor) : Binding :=
  ⟨x.1, x.2, false⟩

theorem unlockedBindings_eq (features : List (Feature × Resolved)) (scope : Option Scope) :
    unlockedBindings features scope = (offered features scope).map bindingOf := by
  simp only [unlockedBindings, offered, List.map_append, List.map_flatMap, List.map_map]
  congr 1
  · refine List.flatMap_congr fun fr _ ↦ ?_
    simp only [Feature.bindings, SetterDeclaration.isOffered_eq]
    rfl
  · rw [inheritedBindings, inheritedOf_eq]
    rfl

theorem names_unlockedBindings (features : List (Feature × Resolved)) (scope : Option Scope) :
    (unlockedBindings features scope).map (·.name) = (offered features scope).map Prod.fst := by
  rw [unlockedBindings_eq, List.map_map]
  rfl

section Clash

variable {offers before after : List (String × Contributor)} {name : String} {c d : Contributor}

theorem not_nodup_of_mem (h : (name, c) ∈ before) :
    ¬((before ++ (name, d) :: after).map Prod.fst).Nodup := by
  intro hd
  rw [List.map_append, List.map_cons, List.nodup_middle, List.nodup_cons] at hd
  exact hd.1 (List.mem_append_left _ (List.mem_map.mpr ⟨_, h, rfl⟩))

theorem FirstClash.not_nodup (h : FirstClash offers name c d) :
    ¬(offers.map Prod.fst).Nodup := by
  obtain ⟨before, after, rfl, -, hc⟩ := h
  exact not_nodup_of_mem hc

/-- The first clash is one only: an offer after it comes too late, and one before it is the first of
its name. -/
theorem FirstClash.unique {name' : String} {c' d' : Contributor}
    (h : FirstClash offers name c d) (h' : FirstClash offers name' c' d') :
    name = name' ∧ c = c' ∧ d = d' := by
  obtain ⟨before, after, rfl, hd, hc⟩ := h
  obtain ⟨before', after', he, hd', hc'⟩ := h'
  have hsame : before = before' := by
    rcases List.append_eq_append_iff.mp he with ⟨more, rfl, hmore⟩ | ⟨more, rfl, hmore⟩
    · cases more with
      | nil => exact (List.append_nil _).symm
      | cons x more =>
        cases hmore
        exact absurd hd' (not_nodup_of_mem hc)
    · cases more with
      | nil => exact List.append_nil _
      | cons x more =>
        cases hmore
        exact absurd hd (not_nodup_of_mem hc')
  subst hsame
  cases List.append_cancel_left he
  cases List.inj_on_of_nodup_map hd hc hc' rfl
  exact ⟨rfl, rfl, rfl⟩

theorem exists_of_addSetter_error {done : List (String × Contributor)} {e : Defect}
    (h : addSetter (done.map bindingOf) name d = .error e) :
    ∃ c, (name, c) ∈ done ∧ e = .duplicateSetter name c.label d.label := by
  rw [addSetter] at h
  cases hf : (done.map bindingOf).find? (·.name == name) with
  | none =>
    rw [hf] at h
    cases h
  | some b =>
    rw [hf] at h
    cases h
    obtain ⟨x, hx, rfl⟩ := List.mem_map.mp (List.mem_of_find?_eq_some hf)
    obtain rfl : x.1 = name := by simpa [bindingOf] using List.find?_some hf
    exact ⟨x.2, hx, rfl⟩

theorem exists_clash_of_addAll {done : List (String × Contributor)} {e : Defect}
    (hd : (done.map Prod.fst).Nodup)
    (h : addAll (done.map bindingOf) (offers.map bindingOf) = .error e) :
    ∃ name c d, FirstClash (done ++ offers) name c d ∧
      e = .duplicateSetter name c.label d.label := by
  -- What is done grows by each offer that is new, so its names stay apart.
  induction offers generalizing done with
  | nil => cases h
  | cons x offers ih =>
    rw [addAll, List.map_cons, List.foldlM_cons] at h
    rcases bind_eq_error_iff.mp h with hx | ⟨bs, hx, hlater⟩
    · obtain ⟨c, hc, he⟩ := exists_of_addSetter_error hx
      exact ⟨x.1, c, x.2, ⟨done, offers, rfl, hd, hc⟩, he⟩
    · obtain ⟨hfresh, rfl⟩ := addSetter_eq_ok_iff.mp hx
      have hnext : ((done ++ [x]).map Prod.fst).Nodup := by
        rw [List.map_map] at hfresh
        rw [List.map_append, List.map_singleton, ← List.concat_eq_append]
        exact hd.concat hfresh
      rw [List.append_cons]
      refine ih hnext ?_
      rw [List.map_append]
      exact hlater

end Clash

section Planned

variable {features : List (Feature × Resolved)} {scope : Option Scope}

theorem exists_clash_of_planSetters (h : ∀ fr ∈ features, fr.1.FlagsRead fr.2) {e : Defect}
    (he : planSetters features scope = .error e) :
    ∃ name c d, FirstClash (offered features scope) name c d ∧
      e = .duplicateSetter name c.label d.label := by
  rw [planSetters_eq h, unlockedBindings_eq] at he
  exact @exists_clash_of_addAll (offered features scope) [] e List.nodup_nil
    (map_eq_error_iff.mp he)

theorem planSetters_eq_error_iff (h : ∀ fr ∈ features, fr.1.FlagsRead fr.2) {e : Defect} :
    planSetters features scope = .error e ↔ ∃ name c d,
      FirstClash (offered features scope) name c d ∧
        e = .duplicateSetter name c.label d.label := by
  refine ⟨exists_clash_of_planSetters h, fun hx ↦ ?_⟩
  obtain ⟨name, c, d, hclash, rfl⟩ := hx
  cases hp : planSetters features scope with
  | ok bs =>
    have hd := (planSetters_eq_ok_iff.mp hp).2.1
    rw [names_unlockedBindings] at hd
    exact absurd hd hclash.not_nodup
  | error e =>
    obtain ⟨_, _, _, hclash', rfl⟩ := exists_clash_of_planSetters h hp
    obtain ⟨rfl, rfl, rfl⟩ := hclash.unique hclash'
    rfl

theorem administered_of_planSetters {bs : List Binding} (h : planSetters features scope = .ok bs) :
    Administered features scope bs := by
  obtain ⟨-, hd, rfl⟩ := planSetters_eq_ok_iff.mp h
  rw [unlockedBindings_eq, List.map_map] at hd ⊢
  refine ⟨?_, fun b hb ↦ ?_, fun s hs x hx hm ↦ ?_⟩
  · rw [List.map_map]
    exact List.map_id _
  · obtain ⟨x, -, rfl⟩ := List.mem_map.mp hb
    exact (bindingOf x).timelocked_wait_iff scope
  · have hwaits := ((bindingOf x).timelocked_wait_iff scope).mpr ⟨s, hs, hm⟩
    refine ⟨_, ⟨List.mem_map_of_mem hx, hwaits, rfl⟩, fun b hb ↦ ?_⟩
    obtain ⟨hb, -, hname⟩ := hb
    obtain ⟨y, hy, rfl⟩ := List.mem_map.mp hb
    rw [List.inj_on_of_nodup_map hd hy hx hname]

/-- Setters whose flags can be read are planned unless two of them have one name. -/
theorem settersPlanned_of_flagsRead (h : ∀ fr ∈ features, fr.1.FlagsRead fr.2)
    (scope : Option Scope) : SettersPlanned features scope where
  succeeds := by
    simp only [planSetters_eq_ok_iff, and_iff_right h, names_unlockedBindings, exists_and_left,
      exists_eq, and_true]
  administered bs hbs := administered_of_planSetters hbs
  clash e := planSetters_eq_error_iff h

end Planned

theorem settersPlanned_limited : (∀ fr ∈ limited, fr.1.FlagsRead fr.2) ∧
    SettersPlanned limited (some .taxOnly) := by
  have hsetters : (planSetters limited (some .taxOnly)).toOption.any (·.length = 9) := by
    decide +kernel
  obtain ⟨bs, hbs, -⟩ := exists_ok_of_any hsetters
  have hread := (planSetters_eq_ok_iff.mp hbs).1
  exact ⟨hread, settersPlanned_of_flagsRead hread (some .taxOnly)⟩

example : planSetters [(leaving, .ofSelection leaving ⟨true, .empty⟩)] (some .ownershipOnly) =
    .error (.duplicateSetter "renounceOwnership" "leaving" "base") := by
  decide +kernel

end TokenContract
