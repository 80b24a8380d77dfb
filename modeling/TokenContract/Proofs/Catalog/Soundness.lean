import TokenContract.Catalog.Standard
import Mathlib.Data.List.Nodup

namespace TokenContract

/-- The keys of a list are new and none comes twice. -/
def Fresh {α κ : Type} (key : α → κ) (seen : List κ) (as : List α) : Prop :=
  (∀ a ∈ as, key a ∉ seen) ∧ (as.map key).Nodup

theorem fresh_nil_iff {α κ : Type} {key : α → κ} {as : List α} :
    Fresh key [] as ↔ (as.map key).Nodup := by
  simp [Fresh]

theorem fresh_cons_iff {α κ : Type} {key : α → κ} {seen : List κ} {a : α} {as : List α} :
    Fresh key seen (a :: as) ↔ key a ∉ seen ∧ Fresh key (key a :: seen) as := by
  have hm : key a ∉ as.map key ↔ ∀ b ∈ as, key b ≠ key a := by simp [List.mem_map]
  have hs : (∀ b ∈ as, key b ∉ key a :: seen) ↔ ∀ b ∈ as, key b ≠ key a ∧ key b ∉ seen := by
    simp only [List.mem_cons, not_or]
  rw [Fresh, Fresh, List.forall_mem_cons, List.map_cons, List.nodup_cons, hm, hs]
  constructor
  · intro hx
    obtain ⟨⟨ha, has⟩, hne, hd⟩ := hx
    exact ⟨ha, fun b hb ↦ ⟨hne b hb, has b hb⟩, hd⟩
  · intro hx
    obtain ⟨ha, has, hd⟩ := hx
    exact ⟨⟨ha, fun b hb ↦ (has b hb).2⟩, fun b hb ↦ (has b hb).1, hd⟩

section Scan

variable {α κ β : Type} [DecidableEq κ]

/-- The first fault of a list: a key that came before, or else what is wrong with a member itself. -/
def firstFault (key : α → κ) (repeated : α → β) (fault? : α → Option β) (seen : List κ) :
    List α → Option β
  | [] => none
  | a :: as =>
    if key a ∈ seen then some (repeated a)
    else fault? a <|> firstFault key repeated fault? (key a :: seen) as

/-- A scan of a list gets to `a` past members whose keys differ and of which each is fine. -/
structure Reached (key : α → κ) (fine : α → Prop) (as before : List α) (a : α) : Prop where
  split : ∃ after, as = before ++ a :: after
  distinct : (before.map key).Nodup
  fine : ∀ c ∈ before, fine c

variable {key : α → κ} {repeated : α → β} {fault? : α → Option β} {seen : List κ} {as : List α}
  {b : β}

theorem firstFault_eq_none_iff : firstFault key repeated fault? seen as = none ↔
    Fresh key seen as ∧ ∀ a ∈ as, fault? a = none := by
  induction as generalizing seen with
  | nil => simp [firstFault, Fresh]
  | cons a as ih =>
    rw [fresh_cons_iff, List.forall_mem_cons]
    by_cases ha : key a ∈ seen
    · simp [firstFault, ha]
    · simp only [firstFault, ha, if_false, Option.orElse_eq_orElse, Option.orElse_eq_or,
        Option.or_eq_none_iff, ih, not_false_eq_true, true_and]
      exact and_left_comm

theorem firstFault_eq_some_iff : firstFault key repeated fault? seen as = some b ↔
    ∃ before a after, as = before ++ a :: after ∧
      (Fresh key seen before ∧ ∀ c ∈ before, fault? c = none) ∧
      ((key a ∈ seen ∨ key a ∈ before.map key) ∧ b = repeated a ∨
        ¬(key a ∈ seen ∨ key a ∈ before.map key) ∧ fault? a = some b) := by
  induction as generalizing seen with
  | nil => simp [firstFault]
  | cons x as ih =>
    have hseen (before : List α) (k : κ) : k ∈ key x :: seen ∨ k ∈ before.map key ↔
        k ∈ seen ∨ k ∈ (x :: before).map key := by
      rw [List.map_cons, List.mem_cons, List.mem_cons, or_assoc, or_left_comm]
    constructor
    · intro h
      rw [firstFault] at h
      split at h
      · rename_i hx
        cases h
        exact ⟨[], x, as, rfl, by simp [Fresh], .inl ⟨.inl hx, rfl⟩⟩
      · rename_i hx
        rw [Option.orElse_eq_orElse, Option.orElse_eq_or, Option.or_eq_some_iff] at h
        rcases h with hfault | ⟨hnone, h⟩
        · exact ⟨[], x, as, rfl, by simp [Fresh], .inr ⟨by simpa using hx, hfault⟩⟩
        · obtain ⟨before, a, after, rfl, ⟨hfresh, hbefore⟩, hcase⟩ := ih.mp h
          rw [hseen] at hcase
          exact ⟨x :: before, a, after, rfl, ⟨fresh_cons_iff.mpr ⟨hx, hfresh⟩,
            List.forall_mem_cons.mpr ⟨hnone, hbefore⟩⟩, hcase⟩
    · intro h
      obtain ⟨before, a, after, has, ⟨hfresh, hbefore⟩, hcase⟩ := h
      rw [firstFault]
      cases before with
      | nil =>
        obtain ⟨rfl, rfl⟩ := List.cons.inj has
        simp only [List.map_nil, List.not_mem_nil, or_false] at hcase
        rcases hcase with ⟨hx, rfl⟩ | ⟨hx, hfault⟩
        · exact if_pos hx
        · rw [if_neg hx, hfault]
          rfl
      | cons y before =>
        obtain ⟨rfl, rfl⟩ := List.cons.inj has
        obtain ⟨hx, hfresh⟩ := fresh_cons_iff.mp hfresh
        obtain ⟨hnone, hbefore⟩ := List.forall_mem_cons.mp hbefore
        rw [if_neg hx, hnone]
        rw [← hseen] at hcase
        exact ih.mpr ⟨before, a, after, rfl, ⟨hfresh, hbefore⟩, hcase⟩

theorem firstFault_nil_eq_some_iff : firstFault key repeated fault? [] as = some b ↔
    ∃ before a, Reached key (fun c ↦ fault? c = none) as before a ∧
      (key a ∈ before.map key ∧ b = repeated a ∨ key a ∉ before.map key ∧ fault? a = some b) := by
  simp only [firstFault_eq_some_iff, fresh_nil_iff, List.not_mem_nil, false_or]
  constructor
  · intro h
    obtain ⟨before, a, after, has, ⟨hdistinct, hfine⟩, hcase⟩ := h
    exact ⟨before, a, ⟨⟨after, has⟩, hdistinct, hfine⟩, hcase⟩
  · intro h
    obtain ⟨before, a, ⟨⟨after, has⟩, hdistinct, hfine⟩, hcase⟩ := h
    exact ⟨before, a, after, has, ⟨hdistinct, hfine⟩, hcase⟩

end Scan

namespace Parameter

theorem inBounds_iff {p : Parameter} {x : Binary64} :
    p.inBounds x ↔ (∀ m, p.min = some m → ¬x < m) ∧ ∀ m, p.max = some m → ¬m < x := by
  rw [inBounds, Bool.and_eq_true]
  refine and_congr ?_ ?_
  · cases p.min with
    | none => simp
    | some m => simp
  · cases p.max with
    | none => simp
    | some m => simp

end Parameter

namespace Feature

/-- What the check of a feature leaves. -/
structure Sound (f : Feature) : Prop where
  distinct : (f.parameters.map (·.id)).Nodup
  parameters : ∀ p ∈ f.parameters, p.flaw? = none
  hooks : f.hooks.Nodup
  stage : .transfer ∈ f.hooks ↔ f.transferStage.isSome
  setters : .admin ∈ f.hooks ↔ f.setters ≠ []
  flags : ∀ d ∈ f.setters, ∀ flag, d.requiresFlag = some flag → f.isBooleanParameter flag

theorem contributesTo_iff (f : Feature) (h : Hook) : f.contributesTo h ↔ h ∈ f.hooks := by
  simp [contributesTo]

theorem contributesTo_eq_stage_iff (f : Feature) :
    f.contributesTo .transfer = f.transferStage.isSome ↔
      (.transfer ∈ f.hooks ↔ f.transferStage.isSome) := by
  rw [← contributesTo_iff, Bool.eq_iff_iff]

theorem contributesTo_eq_setters_iff (f : Feature) :
    f.contributesTo .admin = !f.setters.isEmpty ↔ (.admin ∈ f.hooks ↔ f.setters ≠ []) := by
  rw [← contributesTo_iff, Bool.eq_iff_iff]
  simp

theorem parameterFlaw?_eq (seen : List String) (ps : List Parameter) : parameterFlaw? seen ps =
    firstFault (·.id) (fun p ↦ .repeatedParameter p.id) Parameter.flaw? seen ps := by
  induction ps generalizing seen with
  | nil => rfl
  | cons p ps ih => rw [parameterFlaw?, firstFault, ih]

theorem hookFlaw?_eq (seen hs : List Hook) :
    hookFlaw? seen hs = firstFault (fun h ↦ h) .repeatedHook (fun _ ↦ none) seen hs := by
  induction hs generalizing seen with
  | nil => rfl
  | cons h hs ih =>
    rw [hookFlaw?, firstFault, ih]
    rfl

theorem parameterFlaw?_eq_none_iff {seen : List String} {ps : List Parameter} :
    parameterFlaw? seen ps = none ↔ Fresh (·.id) seen ps ∧ ∀ p ∈ ps, p.flaw? = none := by
  rw [parameterFlaw?_eq, firstFault_eq_none_iff]

theorem hookFlaw?_eq_none_iff {seen hs : List Hook} :
    hookFlaw? seen hs = none ↔ Fresh (fun h ↦ h) seen hs := by
  rw [hookFlaw?_eq, firstFault_eq_none_iff, and_iff_left fun _ _ ↦ rfl]

theorem flagFlaw?_eq_none_iff {f : Feature} {d : SetterDeclaration} :
    f.flagFlaw? d = none ↔ ∀ flag, d.requiresFlag = some flag → f.isBooleanParameter flag := by
  cases hd : d.requiresFlag with
  | none => simp [flagFlaw?, hd]
  | some flag => simp [flagFlaw?, hd]

theorem flaw?_eq_none_iff {f : Feature} : f.flaw? = none ↔ f.Sound := by
  simp only [flaw?, Option.orElse_eq_orElse, Option.orElse_eq_or, Option.or_eq_none_iff,
    parameterFlaw?_eq_none_iff, hookFlaw?_eq_none_iff, fresh_nil_iff, List.map_id',
    ite_eq_left_iff, reduceCtorEq, imp_false, not_not, contributesTo_eq_stage_iff,
    contributesTo_eq_setters_iff, List.findSome?_eq_none_iff, flagFlaw?_eq_none_iff]
  constructor
  · intro hx
    obtain ⟨⟨hd, hp⟩, hh, ht, hs, hf⟩ := hx
    exact ⟨hd, hp, hh, ht, hs, hf⟩
  · intro hx
    obtain ⟨hd, hp, hh, ht, hs, hf⟩ := hx
    exact ⟨⟨hd, hp⟩, hh, ht, hs, hf⟩

end Feature

namespace Catalog

/-- What the check of a catalog leaves. -/
structure Sound (c : Catalog) : Prop where
  distinct : (c.features.map (·.id)).Nodup
  features : ∀ f ∈ c.features, f.Sound

theorem featureDefect?_eq (seen : List FeatureId) (fs : List Feature) : featureDefect? seen fs =
    firstFault (·.id) (fun f ↦ .duplicateFeature f.id) Feature.defect? seen fs := by
  induction fs generalizing seen with
  | nil => rfl
  | cons f fs ih => rw [featureDefect?, firstFault, ih]

theorem featureDefect?_eq_none_iff {seen : List FeatureId} {fs : List Feature} :
    featureDefect? seen fs = none ↔ Fresh (·.id) seen fs ∧ ∀ f ∈ fs, f.Sound := by
  simp only [featureDefect?_eq, firstFault_eq_none_iff, Feature.defect?, Option.map_eq_none_iff,
    Feature.flaw?_eq_none_iff]

theorem verify_eq_ok_iff {c : Catalog} : c.verify = .ok () ↔ c.Sound := by
  have hd : c.defect? = none ↔ c.Sound := by
    rw [defect?, featureDefect?_eq_none_iff, fresh_nil_iff]
    exact ⟨fun ⟨hd, hf⟩ ↦ ⟨hd, hf⟩, fun ⟨hd, hf⟩ ↦ ⟨hd, hf⟩⟩
  rw [← hd, verify]
  cases c.defect? with
  | none => simp
  | some d => simp

theorem verify_of_defect? {c : Catalog} (h : c.defect? = none) : c.verify = .ok () := by
  rw [verify, h]

theorem verify_standard : standard.verify = .ok () := by
  apply verify_of_defect?
  decide +kernel

theorem Sound.eq_of_id_eq {c : Catalog} (hc : c.Sound) {f g : Feature} (hf : f ∈ c.features)
    (hg : g ∈ c.features) (h : f.id = g.id) : f = g :=
  List.inj_on_of_nodup_map hc.distinct hf hg h

end Catalog

end TokenContract
