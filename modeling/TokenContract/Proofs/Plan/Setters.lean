import TokenContract.Plan.Setters
import TokenContract.Proofs.Catalog.Soundness
import TokenContract.Proofs.Grouped
import TokenContract.Proofs.Results
import TokenContract.Proofs.Scope

namespace TokenContract

open Grouped Results

/-- Whether every flag of a feature's setters can be read. -/
def Feature.FlagsRead (f : Feature) (r : Resolved) : Prop :=
  ∀ d ∈ f.setters, ∃ b, d.applies r = .ok b

def Feature.bindings (f : Feature) (r : Resolved) : List Binding :=
  (f.setters.filter fun d ↦ (d.applies r).toOption.getD false).map fun d ↦
    ⟨d.name, .feature f.id, false⟩

def inheritedBindings (scope : Option Scope) : List Binding :=
  (inheritedNames.filter fun name ↦ scope.any (·.covers name)).map fun name ↦ ⟨name, .base, false⟩

def unlockedBindings (features : List (Feature × Resolved)) (scope : Option Scope) : List Binding :=
  (features.flatMap fun (f, r) ↦ f.bindings r) ++ inheritedBindings scope

/-- A setter waits if the scope covers its name. -/
def Binding.wait (scope : Option Scope) (b : Binding) : Binding :=
  { b with timelocked := scope.any (·.covers b.name) }

@[simp]
theorem Binding.name_wait (scope : Option Scope) (b : Binding) : (b.wait scope).name = b.name :=
  rfl

@[simp]
theorem Binding.contributor_wait (scope : Option Scope) (b : Binding) :
    (b.wait scope).contributor = b.contributor :=
  rfl

@[simp]
theorem Binding.timelocked_wait (scope : Option Scope) (b : Binding) :
    (b.wait scope).timelocked = scope.any (·.covers b.name) :=
  rfl

theorem Binding.timelocked_wait_iff (scope : Option Scope) (b : Binding) :
    (b.wait scope).timelocked ↔ ∃ sc, scope = some sc ∧ sc.Matches b.name := by
  rw [timelocked_wait, Scope.any_covers_iff]

def addAll (bound new : List Binding) : Except Defect (List Binding) :=
  new.foldlM (fun bound b ↦ addSetter bound b.name b.contributor) bound

theorem addSetter_eq_ok_iff {bound bs : List Binding} {name : String} {c : Contributor} :
    addSetter bound name c = .ok bs ↔
      name ∉ bound.map (·.name) ∧ bs = bound ++ [⟨name, c, false⟩] := by
  rw [addSetter]
  cases h : bound.find? (·.name == name) with
  | none =>
    have hn : name ∉ bound.map (·.name) := fun hm ↦ by
      obtain ⟨b, hb, he⟩ := List.mem_map.mp hm
      exact absurd (beq_iff_eq.mpr he) (List.find?_eq_none.mp h b hb)
    simp [hn, eq_comm]
  | some b =>
    have hm : name ∈ bound.map (·.name) :=
      List.mem_map.mpr ⟨b, List.mem_of_find?_eq_some h, by simpa using List.find?_some h⟩
    simp [hm]

theorem addAll_eq_ok_iff {bound new bs : List Binding} (h : ∀ b ∈ new, b.timelocked = false) :
    addAll bound new = .ok bs ↔ Fresh (·.name) (bound.map (·.name)) new ∧ bs = bound ++ new := by
  induction new generalizing bound with
  | nil => simp [addAll, Fresh, pure, Except.pure, eq_comm]
  | cons b new ih =>
    have hb : (⟨b.name, b.contributor, false⟩ : Binding) = b := by
      rw [← h b List.mem_cons_self]
    have hseen : Fresh (·.name) ((bound ++ [b]).map (·.name)) new ↔
        Fresh (·.name) (b.name :: bound.map (·.name)) new := by
      simp [Fresh, or_comm]
    have hrest := @ih (bound ++ [b]) fun a ha ↦ h a (List.mem_cons_of_mem _ ha)
    rw [addAll, List.foldlM_cons, bind_eq_ok_iff, fresh_cons_iff]
    simp only [addSetter_eq_ok_iff, hb]
    constructor
    · intro hx
      obtain ⟨_, ⟨hn, rfl⟩, hbs⟩ := hx
      obtain ⟨hf, rfl⟩ := hrest.mp hbs
      exact ⟨⟨hn, hseen.mp hf⟩, List.append_cons .. |>.symm⟩
    · intro hx
      obtain ⟨⟨hn, hf⟩, rfl⟩ := hx
      exact ⟨_, ⟨hn, rfl⟩, hrest.mpr ⟨hseen.mpr hf, List.append_cons ..⟩⟩

theorem addAll_append (bound new more : List Binding) :
    addAll bound (new ++ more) = addAll bound new >>= (addAll · more) :=
  List.foldlM_append ..

theorem addSetters_eq {f : Feature} {r : Resolved} (h : f.FlagsRead r) (bound : List Binding) :
    addSetters bound f r = addAll bound (f.bindings r) := by
  unfold addSetters Feature.bindings addAll
  rw [Feature.FlagsRead] at h
  generalize f.setters = ds at h ⊢
  induction ds generalizing bound with
  | nil => rfl
  | cons d ds ih =>
    obtain ⟨b, hb⟩ := h d List.mem_cons_self
    have hds := fun bound ↦ ih bound fun e he ↦ h e (List.mem_cons_of_mem _ he)
    rw [List.foldlM_cons, hb]
    cases b with
    | false =>
      have hd : (d.applies r).toOption.getD false = false := by rw [hb]; rfl
      rw [List.filter_cons, hd]
      exact hds bound
    | true =>
      have hd : (d.applies r).toOption.getD false = true := by rw [hb]; rfl
      rw [List.filter_cons, hd]
      exact bind_congr hds

theorem flagsRead_of_addSetters {f : Feature} {r : Resolved} {bound bs : List Binding}
    (h : addSetters bound f r = .ok bs) : f.FlagsRead r := by
  unfold addSetters at h
  rw [Feature.FlagsRead]
  generalize f.setters = ds at h ⊢
  induction ds generalizing bound with
  | nil => simp
  | cons d ds ih =>
    rw [List.foldlM_cons] at h
    obtain ⟨next, hd, hds⟩ := bind_eq_ok_iff.mp h
    obtain ⟨b, hb, -⟩ := bind_eq_ok_iff.mp hd
    exact List.forall_mem_cons.mpr ⟨⟨b, hb⟩, ih hds⟩

theorem foldlM_addSetters_eq {features : List (Feature × Resolved)}
    (h : ∀ fr ∈ features, fr.1.FlagsRead fr.2) (bound : List Binding) :
    features.foldlM (fun bound (f, r) ↦ addSetters bound f r) bound =
      addAll bound (features.flatMap fun (f, r) ↦ f.bindings r) := by
  induction features generalizing bound with
  | nil => rfl
  | cons fr features ih =>
    obtain ⟨f, r⟩ := fr
    rw [List.foldlM_cons, List.flatMap_cons, addAll_append]
    dsimp only
    rw [addSetters_eq (h (f, r) List.mem_cons_self)]
    exact bind_congr fun next ↦ ih (fun gr hg ↦ h gr (List.mem_cons_of_mem _ hg)) next

theorem flagsRead_of_foldlM {features : List (Feature × Resolved)} {bound bs : List Binding}
    (h : features.foldlM (fun bound (f, r) ↦ addSetters bound f r) bound = .ok bs) :
    ∀ fr ∈ features, fr.1.FlagsRead fr.2 := by
  induction features generalizing bound with
  | nil => simp
  | cons fr features ih =>
    obtain ⟨next, hf, hfs⟩ := bind_eq_ok_iff.mp h
    exact List.forall_mem_cons.mpr ⟨flagsRead_of_addSetters hf, ih hfs⟩

theorem addInherited_eq (bound : List Binding) (s : Scope) :
    addInherited bound s = addAll bound (inheritedBindings (some s)) := by
  rw [addInherited, addAll, inheritedBindings, List.foldlM_map]
  rfl

theorem timelocked_of_mem_unlocked (features : List (Feature × Resolved)) (scope : Option Scope) :
    ∀ b ∈ unlockedBindings features scope, b.timelocked = false := by
  intro b hb
  rcases List.mem_append.mp hb with hb | hb
  · obtain ⟨fr, -, hb⟩ := List.mem_flatMap.mp hb
    obtain ⟨d, -, rfl⟩ := List.mem_map.mp hb
    rfl
  · obtain ⟨name, -, rfl⟩ := List.mem_map.mp hb
    rfl

theorem map_wait_none {bs : List Binding} (h : ∀ b ∈ bs, b.timelocked = false) :
    bs.map (Binding.wait none) = bs := by
  conv_rhs => rw [← List.map_id bs]
  refine List.map_congr_left fun b hb ↦ ?_
  rw [Binding.wait, Option.any_none, ← h b hb]
  rfl

theorem planSetters_eq {features : List (Feature × Resolved)}
    (h : ∀ fr ∈ features, fr.1.FlagsRead fr.2) (scope : Option Scope) :
    planSetters features scope =
      (addAll [] (unlockedBindings features scope)).map (·.map (Binding.wait scope)) := by
  rw [planSetters, foldlM_addSetters_eq h]
  cases scope with
  | none =>
    have hu := timelocked_of_mem_unlocked features none
    have happ : unlockedBindings features none = features.flatMap fun (f, r) ↦ f.bindings r := by
      simp [unlockedBindings, inheritedBindings]
    rw [← happ]
    cases hb : addAll [] (unlockedBindings features none) with
    | error d => rfl
    | ok bs =>
      obtain ⟨-, rfl⟩ := (addAll_eq_ok_iff hu).mp hb
      exact congrArg Except.ok (map_wait_none hu).symm
  | some s =>
    rw [unlockedBindings, addAll_append]
    simp only [addInherited_eq]
    cases addAll [] (features.flatMap fun (f, r) ↦ f.bindings r) with
    | error d => rfl
    | ok bound =>
      change (addAll bound (inheritedBindings (some s)) >>= _) = (addAll bound _).map _
      cases addAll bound (inheritedBindings (some s)) with
      | error d => rfl
      | ok bs => rfl

theorem planSetters_eq_ok_iff {features : List (Feature × Resolved)} {scope : Option Scope}
    {bs : List Binding} :
    planSetters features scope = .ok bs ↔ (∀ fr ∈ features, fr.1.FlagsRead fr.2) ∧
      ((unlockedBindings features scope).map (·.name)).Nodup ∧
      bs = (unlockedBindings features scope).map (Binding.wait scope) := by
  constructor
  · intro h
    have hread : ∀ fr ∈ features, fr.1.FlagsRead fr.2 := by
      obtain ⟨bound, hb, -⟩ := bind_eq_ok_iff.mp h
      exact flagsRead_of_foldlM hb
    rw [planSetters_eq hread] at h
    obtain ⟨all, hall, rfl⟩ := map_eq_ok_iff.mp h
    obtain ⟨hf, rfl⟩ := (addAll_eq_ok_iff (timelocked_of_mem_unlocked _ _)).mp hall
    exact ⟨hread, fresh_nil_iff.mp hf, rfl⟩
  · intro hx
    obtain ⟨hread, hd, rfl⟩ := hx
    rw [planSetters_eq hread]
    exact map_eq_ok_iff.mpr ⟨_, (addAll_eq_ok_iff (timelocked_of_mem_unlocked _ _)).mpr
      ⟨fresh_nil_iff.mpr hd, rfl⟩, rfl⟩

def setterGroups (features : List (Feature × Resolved)) (scope : Option Scope) :
    List (Contributor × List Binding) :=
  (features.map fun (f, r) ↦ (.feature f.id, (f.bindings r).map (Binding.wait scope))) ++
    [(.base, (inheritedBindings scope).map (Binding.wait scope))]

theorem flatMap_setterGroups (features : List (Feature × Resolved)) (scope : Option Scope) :
    (setterGroups features scope).flatMap Prod.snd =
      (unlockedBindings features scope).map (Binding.wait scope) := by
  simp only [setterGroups, unlockedBindings, List.flatMap_append, List.flatMap_map, List.map_append,
    List.map_flatMap, List.flatMap_singleton]

theorem contributor_of_mem_bindings {f : Feature} {r : Resolved} {b : Binding}
    (h : b ∈ f.bindings r) : b.contributor = .feature f.id := by
  obtain ⟨d, -, rfl⟩ := List.mem_map.mp h
  rfl

theorem contributor_of_mem_inherited {scope : Option Scope} {b : Binding}
    (h : b ∈ inheritedBindings scope) : b.contributor = .base := by
  obtain ⟨name, -, rfl⟩ := List.mem_map.mp h
  rfl

theorem groups_setterGroups {features : List (Feature × Resolved)}
    (h : (features.map (·.1.id)).Nodup) (scope : Option Scope) :
    Groups (·.contributor) (setterGroups features scope) := by
  constructor
  · have hinj : Function.Injective Contributor.feature := fun i j he ↦ by injection he
    have hf := h.map hinj
    rw [List.map_map] at hf
    simp only [setterGroups, List.map_append, List.map_map, List.map_cons, List.map_nil]
    refine List.nodup_append.mpr ⟨hf, List.nodup_singleton _, ?_⟩
    intro c hc d hd he
    obtain ⟨fr, -, hfr⟩ := List.mem_map.mp hc
    rw [List.mem_singleton.mp hd, ← hfr] at he
    cases he
  · intro g hg b hb
    rcases List.mem_append.mp hg with hg | hg
    · obtain ⟨fr, -, rfl⟩ := List.mem_map.mp hg
      obtain ⟨a, ha, rfl⟩ := List.mem_map.mp hb
      rw [Binding.contributor_wait]
      exact contributor_of_mem_bindings ha
    · obtain rfl := List.mem_singleton.mp hg
      obtain ⟨a, ha, rfl⟩ := List.mem_map.mp hb
      rw [Binding.contributor_wait]
      exact contributor_of_mem_inherited ha

end TokenContract
