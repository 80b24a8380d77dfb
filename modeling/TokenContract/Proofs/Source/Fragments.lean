import TokenContract.Proofs.Dict
import TokenContract.Proofs.Feature.Output
import TokenContract.Proofs.Plan.Coherence
import TokenContract.Source.Assembly

namespace TokenContract

open Results

/-- A place for a text: at a hook, for a contributor, and among the owner's functions for one of its
setters. -/
structure Slot where
  hook : Hook
  origin : Contributor
  binding? : Option Binding := none

namespace Plan

def slotsOf (p : Plan) (h : Hook) (x : Contributor) : List Slot :=
  if h = .admin then (p.settersOf x).map fun b ↦ ⟨h, x, some b⟩ else [⟨h, x, none⟩]

def slots (p : Plan) : List Slot :=
  Hook.all.flatMap fun h ↦ (p.contributors h).flatMap (p.slotsOf h)

/-- The setters that a contributor can write. -/
def Offers (p : Plan) (e : Environment) (x : Contributor) (st : Setter) : Prop :=
  match x with
  | .base => st ∈ Setter.inherited
  | .capability _ _ => False
  | .feature id => ∃ f ∈ p.features, f.id = id ∧
    ∃ o, f.kind.output f.parameters e = .ok o ∧ st ∈ o.setters

/-- The text of a setter, with a guard if it waits. -/
def Renders (p : Plan) (e : Environment) (b : Binding) (text : String) : Prop :=
  ∃ st, p.Offers e b.contributor st ∧ st.name = b.name ∧ text = st.render b.timelocked ∧
    (st.Guarded text ↔ b.timelocked)

/-- A fragment stands at its place. -/
structure Fills (p : Plan) (e : Environment) (slot : Slot) (x : Fragment) : Prop where
  hook : x.hook = slot.hook
  origin : x.origin = slot.origin
  text : ∀ b, slot.binding? = some b → p.Renders e b x.text

variable {p : Plan} {c : Catalog} {s : Spec} {e : Environment} {os : Dict Output} {id : FeatureId}
  {o : Output}

theorem expects_iff {h : Hook} : p.expects id h ↔ .feature id ∈ p.contributors h := by
  rw [expects, List.contains_iff_mem]
  rfl

theorem expectsSetter_iff {name : String} :
    p.expectsSetter id name ↔ name ∈ (p.settersOf (.feature id)).map (·.name) := by
  simp [expectsSetter]

theorem unexpected?_eq_none_iff :
    p.unexpected? id o = none ↔
      (∀ h, (o.sections h).isSome → h ≠ .admin → .feature id ∈ p.contributors h) ∧
      ∀ name ∈ o.setters.map (·.name), name ∈ (p.settersOf (.feature id)).map (·.name) := by
  have hhooks : (o.hooks.find? fun h ↦ h != .admin && !p.expects id h) = none ↔
      ∀ h, (o.sections h).isSome → h ≠ .admin → .feature id ∈ p.contributors h := by
    rw [List.find?_eq_none]
    constructor
    · intro hall h hs ha
      have hm : h ∈ o.hooks := by simp [Output.hooks, Hook.mem_all, hs]
      have hnot := hall h hm
      rw [← expects_iff]
      simpa [ha] using hnot
    · intro hall h hm
      by_cases ha : h = .admin
      · simp [ha]
      · have hs : (o.sections h).isSome := by simpa [Output.hooks, ha] using (List.mem_filter.mp hm).2
        simp [expects_iff.mpr (hall h hs ha)]
  have hsetters : o.setters.all (p.expectsSetter id ·.name) = true ↔
      ∀ name ∈ o.setters.map (·.name), name ∈ (p.settersOf (.feature id)).map (·.name) := by
    simp only [List.all_eq_true, expectsSetter_iff, List.forall_mem_map]
  rw [← hhooks, ← hsetters, unexpected?, Option.orElse_eq_orElse, Option.orElse_eq_or,
    Option.or_eq_none_iff, ite_eq_left_iff]
  simp

theorem outputOf_eq_ok_iff {f : PlannedFeature} {x : FeatureId × Output} :
    p.outputOf e f = .ok x ↔
      ∃ o, f.kind.output f.parameters e = .ok o ∧ p.unexpected? f.id o = none ∧ x = (f.id, o) := by
  rw [outputOf, bind_eq_ok_iff]
  refine exists_congr fun o ↦ and_congr_right fun _ ↦ ?_
  cases p.unexpected? f.id o with
  | none => simp [pure, Except.pure, eq_comm]
  | some h => simp

theorem exists_outputs_iff :
    (∃ os, p.outputs e = .ok os) ↔ ∀ f ∈ p.features, ∃ x, p.outputOf e f = .ok x := by
  rw [← exists_mapM_iff]
  constructor
  · intro h
    obtain ⟨os, h⟩ := h
    obtain ⟨xs, hxs, -⟩ := bind_eq_ok_iff.mp h
    exact ⟨xs, hxs⟩
  · intro h
    obtain ⟨xs, hxs⟩ := h
    exact ⟨_, bind_eq_ok_iff.mpr ⟨xs, hxs, rfl⟩⟩

theorem unexpected?_of_outputs (h : p.outputs e = .ok os) {f : PlannedFeature}
    (hf : f ∈ p.features) (hwrite : f.kind.output f.parameters e = .ok o) :
    p.unexpected? f.id o = none := by
  obtain ⟨_, hout⟩ := exists_outputs_iff.mp ⟨os, h⟩ f hf
  obtain ⟨_, hwrite', hnone, -⟩ := outputOf_eq_ok_iff.mp hout
  rw [hwrite'] at hwrite
  cases hwrite
  exact hnone

theorem exists_of_find?_outputs (h : p.outputs e = .ok os) (ho : os.find? id = some o) :
    ∃ f ∈ p.features, f.id = id ∧ f.kind.output f.parameters e = .ok o := by
  obtain ⟨xs, hxs, h⟩ := bind_eq_ok_iff.mp h
  cases h
  have hm : (id, o) ∈ xs := Dict.mem_of_mem_ofList (Dict.mem_entries_iff.mpr ho)
  obtain ⟨f, hf, hout⟩ := (mem_iff_of_mapM hxs).mp hm
  obtain ⟨_, hwrite, -, he⟩ := outputOf_eq_ok_iff.mp hout
  cases he
  exact ⟨f, hf, rfl, hwrite⟩

theorem setterFragments_eq_ok_iff {h : Hook} {x : Contributor} {owner : FeatureId}
    {setter? : String → Option Setter} {fs : List Fragment} :
    p.setterFragments h x owner setter? = .ok fs ↔ List.Forall₂ (fun b y ↦
      ∃ st, setter? b.name = some st ∧ y = ⟨h, x, st.render b.timelocked⟩) (p.settersOf x) fs := by
  rw [setterFragments, mapM_eq_ok_iff]
  refine iff_of_eq (congrArg (List.Forall₂ · _ _) ?_)
  funext b y
  cases setter? b.name with
  | none => simp
  | some st => simp [pure, Except.pure, eq_comm]

theorem exists_setterFragments_iff {h : Hook} {x : Contributor} {owner : FeatureId}
    {setter? : String → Option Setter} :
    (∃ fs, p.setterFragments h x owner setter? = .ok fs) ↔
      ∀ b ∈ p.settersOf x, (setter? b.name).isSome := by
  rw [setterFragments, exists_mapM_iff]
  refine forall₂_congr fun b _ ↦ ?_
  cases setter? b.name with
  | none => simp
  | some st => simp [pure, Except.pure]

theorem mem_settersOf_iff {x : Contributor} {b : Binding} :
    b ∈ p.settersOf x ↔ b ∈ p.setters ∧ b.contributor = x := by
  simp [settersOf]

theorem Follows.mem_admin_iff (hp : p.Follows c s) {x : Contributor} :
    x ∈ p.contributors .admin ↔ ∃ b ∈ p.setters, b.contributor = x := by
  have hadmin : p.contributors .admin = (p.setters.map (·.contributor)).eraseDups :=
    hp.contributors .admin
  rw [hadmin, List.mem_eraseDups, List.mem_map]

theorem Follows.name_of_base (hp : p.Follows c s) {b : Binding} (hb : b ∈ p.settersOf .base) :
    b.name ∈ inheritedNames := by
  obtain ⟨hb, hx⟩ := mem_settersOf_iff.mp hb
  rw [hp.setters_eq, flatMap_setterGroups] at hb
  obtain ⟨a, ha, rfl⟩ := List.mem_map.mp hb
  rcases List.mem_append.mp ha with ha | ha
  · obtain ⟨fr, -, ha⟩ := List.mem_flatMap.mp ha
    rw [Binding.contributor_wait, contributor_of_mem_bindings ha] at hx
    cases hx
  · obtain ⟨name, hname, rfl⟩ := List.mem_map.mp ha
    exact List.mem_of_mem_filter hname

theorem isSome_inherited? : ∀ name ∈ inheritedNames, (Setter.inherited? name).isSome := by
  decide +kernel

theorem plain_of_offers {x : Contributor} {st : Setter} (h : p.Offers e x st) : st.Plain := by
  cases x with
  | base => exact Setter.plain_of_mem_inherited st h
  | capability cap owner => exact absurd h not_false
  | feature id =>
    obtain ⟨f, -, -, o, ho, hst⟩ := h
    rw [(FeatureKind.ofKind_of_output ho).setters] at hst
    exact FeatureKind.plain_of_mem_setters hst

theorem renders_of_offers {b : Binding} {st : Setter} (h : p.Offers e b.contributor st)
    (hname : st.name = b.name) : p.Renders e b (st.render b.timelocked) :=
  ⟨st, h, hname, rfl, Setter.guarded_render_iff (plain_of_offers h)⟩

theorem fills_of_setterFragments {x : Contributor} {owner : FeatureId}
    {setter? : String → Option Setter} {fs : List Fragment}
    (hfs : p.setterFragments .admin x owner setter? = .ok fs)
    (hoffers : ∀ name st, setter? name = some st → p.Offers e x st ∧ st.name = name) :
    List.Forall₂ (p.Fills e) (p.slotsOf .admin x) fs := by
  rw [slotsOf, if_pos rfl, List.forall₂_map_left_iff]
  have hall := (List.forall₂_and_left _ _).mpr
    ⟨fun b (hb : b ∈ p.settersOf x) ↦ hb, setterFragments_eq_ok_iff.mp hfs⟩
  refine hall.imp fun b y hy ↦ ?_
  obtain ⟨hb, st, hst, rfl⟩ := hy
  obtain ⟨ho, hname⟩ := hoffers _ _ hst
  refine ⟨rfl, rfl, fun a ha ↦ ?_⟩
  cases ha
  refine renders_of_offers ?_ hname
  rw [(mem_settersOf_iff.mp hb).2]
  exact ho

theorem exists_fragmentsOf_iff (hc : c.Sound) (hp : p.Follows c s) {h : Hook} {x : Contributor}
    (hx : x ∈ p.contributors h) :
    (∃ fs, p.fragmentsOf os h x = .ok fs) ↔ ∀ id, x = .feature id → ∃ o, os.find? id = some o ∧
      (h ≠ .admin → (o.sections h).isSome) ∧
      (h = .admin → ∀ b ∈ p.settersOf x, (o.setter? b.name).isSome) := by
  obtain ⟨_, ha⟩ := exists_arranged hc hp h
  cases x with
  | base =>
    obtain ⟨rfl, -⟩ := ha.mem_base_iff.mp hx
    simp only [reduceCtorEq, false_imp_iff, implies_true, iff_true]
    exact exists_setterFragments_iff.mpr fun b hb ↦ isSome_inherited? _ (hp.name_of_base hb)
  | capability cap owner =>
    have hsome := (cap.isSome_section? h).mpr (ha.mem_capability_iff.mp hx).1
    obtain ⟨ls, hls⟩ := Option.isSome_iff_exists.mp hsome
    simp [fragmentsOf, hls]
  | feature id =>
    simp only [Contributor.feature.injEq, forall_eq']
    by_cases hadmin : h = .admin
    · subst hadmin
      cases ho : os.find? id with
      | none => simp [fragmentsOf, ho]
      | some o => simp [fragmentsOf, ho, exists_setterFragments_iff]
    · cases ho : os.find? id with
      | none => simp [fragmentsOf, ho]
      | some o => cases hs : o.sections h with
        | none => simp [fragmentsOf, ho, hs, Output.text?, hadmin]
        | some ls => simp [fragmentsOf, ho, hs, Output.text?, hadmin]

theorem slotsOf_of_ne {h : Hook} (hadmin : h ≠ .admin) (x : Contributor) :
    p.slotsOf h x = [⟨h, x, none⟩] :=
  if_neg hadmin

theorem fills_single {h : Hook} (hadmin : h ≠ .admin) (x : Contributor) (text : String) :
    List.Forall₂ (p.Fills e) (p.slotsOf h x) [⟨h, x, text⟩] := by
  rw [slotsOf_of_ne hadmin]
  refine .cons ⟨rfl, rfl, fun b hb ↦ ?_⟩ .nil
  cases hb

theorem inherited?_eq_some {name : String} {st : Setter} (h : Setter.inherited? name = some st) :
    p.Offers e .base st ∧ st.name = name :=
  ⟨List.mem_of_find?_eq_some h, by simpa using List.find?_some h⟩

theorem setter?_eq_some {name : String} {st : Setter} (h : o.setter? name = some st) :
    st ∈ o.setters ∧ st.name = name :=
  ⟨List.mem_of_find?_eq_some h, by simpa using List.find?_some h⟩

theorem isSome_setter?_iff {name : String} :
    (o.setter? name).isSome ↔ name ∈ o.setters.map (·.name) := by
  simp [Output.setter?, List.find?_isSome]

theorem fills_of_fragmentsOf (hc : c.Sound) (hp : p.Follows c s) (hos : p.outputs e = .ok os)
    {h : Hook} {x : Contributor} (hx : x ∈ p.contributors h) {fs : List Fragment}
    (hfs : p.fragmentsOf os h x = .ok fs) : List.Forall₂ (p.Fills e) (p.slotsOf h x) fs := by
  obtain ⟨_, ha⟩ := exists_arranged hc hp h
  cases x with
  | base =>
    obtain ⟨rfl, -⟩ := ha.mem_base_iff.mp hx
    exact fills_of_setterFragments hfs fun _ _ ↦ inherited?_eq_some
  | capability cap owner =>
    have hh := (ha.mem_capability_iff.mp hx).1
    have hadmin : h ≠ .admin := by
      rintro rfl
      cases cap
      exact absurd hh (by decide)
    obtain ⟨ls, hls⟩ := Option.isSome_iff_exists.mp ((cap.isSome_section? h).mpr hh)
    rw [fragmentsOf, hls] at hfs
    cases hfs
    exact fills_single hadmin _ _
  | feature id =>
    obtain ⟨o, ho, hsection, -⟩ := (exists_fragmentsOf_iff hc hp hx).mp ⟨fs, hfs⟩ id rfl
    by_cases hadmin : h = .admin
    · subst hadmin
      simp only [fragmentsOf, ho] at hfs
      refine fills_of_setterFragments hfs fun name st hst ↦ ?_
      obtain ⟨hm, hname⟩ := setter?_eq_some hst
      obtain ⟨f, hf, hid, hwrite⟩ := exists_of_find?_outputs hos ho
      exact ⟨⟨f, hf, hid, o, hwrite, hm⟩, hname⟩
    · obtain ⟨ls, hls⟩ := Option.isSome_iff_exists.mp (hsection hadmin)
      have htext : o.text? h = some (Text.joinLines ls) := by rw [Output.text?, hls]; rfl
      simp only [fragmentsOf, ho, htext] at hfs
      cases hfs
      exact fills_single hadmin _ _

theorem fragmentsAt_eq_ok_iff {h : Hook} {fs : List Fragment} :
    p.fragmentsAt os h = .ok fs ↔
      ∃ fss, (p.contributors h).mapM (p.fragmentsOf os h) = .ok fss ∧ fs = fss.flatten := by
  rw [fragmentsAt, bind_eq_ok_iff]
  refine exists_congr fun fss ↦ and_congr_right fun _ ↦ ?_
  simp [pure, Except.pure, eq_comm]

theorem exists_fragmentsAt_iff {h : Hook} :
    (∃ fs, p.fragmentsAt os h = .ok fs) ↔
      ∀ x ∈ p.contributors h, ∃ fs, p.fragmentsOf os h x = .ok fs := by
  rw [← exists_mapM_iff]
  simp only [fragmentsAt_eq_ok_iff]
  exact ⟨fun ⟨_, fss, hfss, _⟩ ↦ ⟨fss, hfss⟩, fun ⟨fss, hfss⟩ ↦ ⟨_, fss, hfss, rfl⟩⟩

theorem assemble_eq_ok_iff {settings : Settings} {a : Assembly} :
    p.assemble s settings = .ok a ↔ ∃ os, p.outputs (s.environment p) = .ok os ∧
      ∃ fss, Hook.all.mapM (p.fragmentsAt os) = .ok fss ∧
        a = ⟨s.header settings, fss.flatten, p.frame, p.enabled⟩ := by
  simp only [assemble, bind_eq_ok_iff]
  refine exists_congr fun os ↦ and_congr_right fun _ ↦ exists_congr fun fss ↦
    and_congr_right fun _ ↦ ?_
  simp [pure, Except.pure, eq_comm]

theorem header_of_assemble {settings : Settings} {a : Assembly}
    (ha : p.assemble s settings = .ok a) : a.header = s.header settings := by
  obtain ⟨_, -, _, -, rfl⟩ := assemble_eq_ok_iff.mp ha
  rfl

theorem exists_assemble_iff {settings : Settings} :
    (∃ a, p.assemble s settings = .ok a) ↔ ∃ os, p.outputs (s.environment p) = .ok os ∧
      ∀ h, ∀ x ∈ p.contributors h, ∃ fs, p.fragmentsOf os h x = .ok fs := by
  have hfragments (os : Dict Output) : (∃ fss, Hook.all.mapM (p.fragmentsAt os) = .ok fss) ↔
      ∀ h, ∀ x ∈ p.contributors h, ∃ fs, p.fragmentsOf os h x = .ok fs := by
    simp only [exists_mapM_iff, exists_fragmentsAt_iff, Hook.mem_all, true_imp_iff]
  simp only [← hfragments, assemble_eq_ok_iff]
  constructor
  · intro h
    obtain ⟨_, os, hos, fss, hfss, -⟩ := h
    exact ⟨os, hos, fss, hfss⟩
  · intro h
    obtain ⟨os, hos, fss, hfss⟩ := h
    exact ⟨_, os, hos, fss, hfss, rfl⟩

theorem fills_of_assemble (hc : c.Sound) (hp : p.Follows c s) {settings : Settings} {a : Assembly}
    (h : p.assemble s settings = .ok a) :
    List.Forall₂ (p.Fills (s.environment p)) p.slots a.fragments := by
  obtain ⟨os, hos, fss, hfss, rfl⟩ := assemble_eq_ok_iff.mp h
  refine forall₂_flatten hfss fun h _ fs hfs ↦ ?_
  obtain ⟨gss, hgss, rfl⟩ := fragmentsAt_eq_ok_iff.mp hfs
  exact forall₂_flatten hgss fun x hx gs hgs ↦ fills_of_fragmentsOf hc hp hos hx hgs

end Plan

end TokenContract
