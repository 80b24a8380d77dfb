import TokenContract.Proofs.Generation.Timelock
import TokenContract.Proofs.Plan.Extension
import Mathlib.Data.List.Find

namespace TokenContract

open Grouped Results
open Text (deeper joinLines)

/-- The head of a setter is one line, without a bracket before that of its parameters. -/
def Setter.Tidy (s : Setter) : Prop :=
  '(' ∉ s.name.toList ∧ ∀ t ∈ [s.name, s.params, s.modifiers], '\n' ∉ t.toList

instance (s : Setter) : Decidable s.Tidy :=
  instDecidableAnd

/-- Whoever contributes to a contract with or without a timelock. -/
def Contributor.lasting : Contributor → Bool
  | .base => false
  | .capability _ _ => true
  | .feature id => id != Scope.featureId

namespace Fragment

/-- The name in the head of a setter. -/
def setterName (x : Fragment) : String :=
  String.ofList ((x.text.toList.drop "function ".length).takeWhile (· != '('))

/-- `y` is `x`, or if this is a setter in the scope, `x` with a guard right after the head. -/
structure Overlaid (sc : Scope) (x y : Fragment) : Prop where
  hook : y.hook = x.hook
  origin : y.origin = x.origin
  text : x.hook ≠ .admin → y.text = x.text
  setter : x.hook = .admin → ∃ head rest, '\n' ∉ head.toList ∧ x.text = joinLines (head :: rest) ∧
    y.text = joinLines (head ::
      (if sc.Matches x.setterName then Setter.guardLines x.setterName else []) ++ rest)

end Fragment

/-- `b` is `a` with a timelock laid over it. -/
structure Assembly.Overlaid (a b : Assembly) (sc : Scope) : Prop where
  header : a.header = b.header
  frame : a.frame = b.frame
  fragments : List.Forall₂ (Fragment.Overlaid sc) a.fragments (b.fragments.filter (·.origin.lasting))

namespace Setter

theorem toList_signature (s : Setter) : s.signature.toList =
    "function ".toList ++ s.name.toList ++ '(' :: (s.params ++ ") " ++ s.modifiers).toList := by
  have hopen : "(".toList = ['('] := rfl
  simp only [signature, String.toList_append, toString, hopen, List.append_assoc,
    List.cons_append, List.nil_append]

theorem Tidy.notMem_signature {s : Setter} (h : s.Tidy) : '\n' ∉ s.signature.toList := by
  have hname := h.2 s.name (by simp)
  have hparams := h.2 s.params (by simp)
  have hmodifiers := h.2 s.modifiers (by simp)
  simp [toList_signature, hname, hparams, hmodifiers]

end Setter

theorem FeatureKind.tidy_of_mem_setters {k : FeatureKind} {r : Resolved} {s : Setter}
    (h : s ∈ k.setters r) : s.Tidy := by
  have hall : ∀ s ∈ allSetters, s.Tidy := by decide +kernel
  exact hall s (mem_allSetters h)

namespace Fragment

theorem setterName_render {st : Setter} (h : st.Tidy) (hook : Hook) (x : Contributor)
    (timelocked : Bool) : setterName ⟨hook, x, st.render timelocked⟩ = st.name := by
  obtain ⟨cs, hcs⟩ := Text.exists_toList_joinLines (st.signature ++ " \x7b")
    (deeper ((if timelocked then Setter.guard st.name else []) ++ st.body) ++ ["\x7d"])
  have hlength : "function ".length = "function ".toList.length := rfl
  have hname : ∀ c ∈ st.name.toList, (c != '(') = true := by
    intro c hc
    have hne : c ≠ '(' := fun he ↦ h.1 (he ▸ hc)
    simpa using hne
  rw [setterName, Setter.render, Setter.lines, Solidity.block, List.cons_append, hcs,
    String.toList_append, Setter.toList_signature, hlength]
  simp only [List.append_assoc, List.drop_left, List.cons_append]
  rw [List.takeWhile_append_of_pos hname, List.takeWhile_cons_of_neg (by simp), List.append_nil,
    String.ofList_toList]

theorem overlaid_refl {sc : Scope} {x : Fragment} (h : x.hook ≠ .admin) : Overlaid sc x x :=
  ⟨rfl, rfl, fun _ ↦ rfl, fun hadmin ↦ absurd hadmin h⟩

theorem overlaid_render {sc : Scope} {st : Setter} (h : st.Tidy) (x : Contributor) :
    Overlaid sc ⟨.admin, x, st.render false⟩ ⟨.admin, x, st.render (sc.covers st.name)⟩ := by
  refine ⟨rfl, rfl, fun hadmin ↦ absurd rfl hadmin, fun _ ↦ ?_⟩
  refine ⟨st.signature ++ " \x7b", deeper st.body ++ ["\x7d"], ?_, rfl, ?_⟩
  · have hbrace : '\n' ∉ " \x7b".toList := by decide
    rw [String.toList_append, List.mem_append]
    exact not_or.mpr ⟨h.notMem_signature, hbrace⟩
  · rw [setterName_render h, Setter.render, Setter.lines, Solidity.block, ← Setter.deeper_guard]
    simp only [← sc.covers_iff]
    cases sc.covers st.name with
    | false => rfl
    | true => simp [deeper]

end Fragment

/-- The features with an id take no part in transfers and need no infrastructure. -/
def Catalog.Aside (c : Catalog) (id : FeatureId) : Prop :=
  ∀ f ∈ c.features, f.id = id → f.transferStage = none ∧ f.capabilities = []

namespace Plan

variable {p q : Plan} {c : Catalog} {s t : Spec} {id : FeatureId}

def written (p : Plan) (os : Dict Output) (h : Hook) (x : Contributor) : List Fragment :=
  (p.fragmentsOf os h x).toOption.getD []

theorem written_eq {os : Dict Output} {h : Hook} {x : Contributor} {fs : List Fragment}
    (hfs : p.fragmentsOf os h x = .ok fs) : p.written os h x = fs := by
  rw [written, hfs]
  rfl

theorem flatten_eq_of_assemble {os : Dict Output} {fss : List (List Fragment)}
    (h : Hook.all.mapM (p.fragmentsAt os) = .ok fss) :
    fss.flatten = Hook.all.flatMap fun h ↦ (p.contributors h).flatMap (p.written os h) := by
  rw [flatten_of_mapM h]
  refine List.flatMap_congr fun hook hhook ↦ ?_
  obtain ⟨fs, hfs⟩ := exists_mapM_iff.mp ⟨fss, h⟩ hook hhook
  obtain ⟨gss, hgss, rfl⟩ := fragmentsAt_eq_ok_iff.mp hfs
  rw [hfs]
  exact flatten_of_mapM hgss

theorem origin_of_mem_written (hc : c.Sound) (hp : p.Follows c s) {os : Dict Output}
    (hos : p.outputs (s.environment p) = .ok os) {h : Hook} {x : Contributor}
    (hx : x ∈ p.contributors h) {y : Fragment} (hy : y ∈ p.written os h x) : y.origin = x := by
  cases hfs : p.fragmentsOf os h x with
  | error d =>
    rw [written, hfs] at hy
    exact absurd hy List.not_mem_nil
  | ok fs =>
    rw [written_eq hfs] at hy
    obtain ⟨slot, hslot, hfills⟩ := exists_of_forall₂ (fills_of_fragmentsOf hc hp hos hx hfs) hy
    rw [hfills.origin]
    rw [slotsOf] at hslot
    split at hslot
    · obtain ⟨b, -, rfl⟩ := List.mem_map.mp hslot
      rfl
    · rw [List.mem_singleton.mp hslot]

theorem Follows.contributors_eq (hp : p.Follows c s) (hc : c.Sound) (h : Hook) :
    p.contributors h = capabilitiesAt p.capabilities h ++ (p.featuresAt h).map .feature ++
      baseAt p.scope h := by
  obtain ⟨fs, ha⟩ := exists_arranged hc hp h
  rw [featuresAt, ha.filterMap_own?, List.map_map]
  exact ha.contributors

section Gains

variable (hp : p.Follows c s) (hq : q.Follows c t) (h : s.Gains t id)

include hp hq h

theorem capabilities_eq_of_aside (hid : c.Aside id) : p.capabilities = q.capabilities := by
  rw [hp.capabilities, hq.capabilities]
  funext cap
  rw [ownerOf?, ownerOf?, h.enabled_eq, List.find?_filter]
  refine congrArg _ (List.find?_congr fun f hf ↦ ?_)
  by_cases hf' : f.id = id
  · simp [(hid f (Catalog.mem_enabled_iff.mp hf).1 hf').2]
  · simp [hf']

theorem transfer_eq_of_aside (hid : c.Aside id) : p.transfer = q.transfer := by
  have hstages : stagesOf (c.enabled s) = stagesOf (c.enabled t) := by
    rw [h.enabled_eq, stagesOf_filter, List.filter_eq_self]
    intro st hst
    obtain ⟨f, hf, hfid, hstage⟩ := mem_stagesOf_iff.mp hst
    have hne : st.feature ≠ id := by
      intro he
      rw [(hid f (Catalog.mem_enabled_iff.mp hf).1 (hfid.trans he)).1] at hstage
      cases hstage
    simpa using hne
  rw [hp.transfer_eq, hq.transfer_eq, hstages, hasCapability, hasCapability,
    capabilities_eq_of_aside hp hq h hid]

theorem frame_eq_of_aside (hid : c.Aside id) : p.frame = q.frame := by
  rw [frame, frame, transfer_eq_of_aside hp hq h hid]

theorem environment_eq_of_aside (hid : c.Aside id) : s.environment p = t.environment q := by
  rw [Spec.environment, Spec.environment, Spec.supplyExpression, Spec.supplyExpression, h.totalSupply,
    h.decimals, hasCapability, hasCapability, capabilities_eq_of_aside hp hq h hid]

theorem exists_settersOf_eq {k : FeatureId} (hk : k ≠ id) :
    ∃ bs : List Binding, p.settersOf (.feature k) = bs.map (Binding.wait p.scope) ∧
      q.settersOf (.feature k) = bs.map (Binding.wait q.scope) := by
  have hbut (r : Plan) : r.settersOf (.feature k) =
      (r.settersBut id).filter (·.contributor == .feature k) := by
    rw [settersOf, settersBut, List.filter_filter]
    refine List.filter_congr fun b _ ↦ ?_
    by_cases hb : b.contributor = .feature k
    · simp [hb, Contributor.own?, hk]
    · simp [hb]
  rw [hbut, hbut, hp.settersBut_eq, hq.settersBut_eq, h.bindings_eq, List.filter_map, List.filter_map]
  exact ⟨_, rfl, rfl⟩

theorem find?_outputs_of_gains (hc : c.Sound) {e : Environment} {os os' : Dict Output}
    (hos : p.outputs e = .ok os) (hos' : q.outputs e = .ok os') {k : FeatureId} {o : Output}
    (ho : os.find? k = some o) : os'.find? k = some o := by
  obtain ⟨f, hf, rfl, hwrite⟩ := exists_of_find?_outputs hos ho
  have hf' : f ∈ q.features := by
    rw [hp.features, h.plannedFeatures_eq] at hf
    exact hq.features ▸ List.mem_of_mem_filter hf
  exact (last_of_nodup (hq.features ▸ hc.nodup_planned t) hf').find?_outputs hos' hwrite

end Gains

theorem tidy_of_outputs {e : Environment} {os : Dict Output} (hos : p.outputs e = .ok os)
    {k : FeatureId} {o : Output} (ho : os.find? k = some o) {st : Setter} (hst : st ∈ o.setters) :
    st.Tidy := by
  obtain ⟨f, -, -, hwrite⟩ := exists_of_find?_outputs hos ho
  rw [(FeatureKind.ofKind_of_output hwrite).setters] at hst
  exact FeatureKind.tidy_of_mem_setters hst

section Overlay

variable (hc : c.Sound) (hp : p.Follows c s) (hq : q.Follows c t)
  (h : s.Gains t Scope.featureId) (hid : c.Aside Scope.featureId)

include hc hp hq h hid

omit hc hq hid in
theorem scope_eq_none_of_gains : p.scope = none := by
  rw [← Option.not_isSome_iff_eq_none, isSome_scope_iff hp.scope,
    hp.exists_feature_iff fun k _ ↦ k = Scope.featureId]
  intro hex
  obtain ⟨f, -, hs, hf⟩ := hex
  rw [Spec.enables, hf, h.off] at hs
  cases hs

theorem filter_lasting_contributors (hook : Hook) :
    (q.contributors hook).filter (·.lasting) = p.contributors hook := by
  have hcapabilities : (capabilitiesAt q.capabilities hook).filter (·.lasting) =
      capabilitiesAt q.capabilities hook := by
    refine List.filter_eq_self.mpr fun x hx ↦ ?_
    obtain ⟨_, _, -, -, rfl⟩ := mem_capabilitiesAt_iff.mp hx
    rfl
  have hbase : (baseAt q.scope hook).filter (·.lasting) = [] := by
    refine List.filter_eq_nil_iff.mpr fun x hx ↦ ?_
    rw [(mem_baseAt_iff.mp hx).1]
    exact Bool.false_ne_true
  have hnone : baseAt p.scope hook = [] := by
    rw [scope_eq_none_of_gains hp h, baseAt, if_neg]
    simp [inheritedBindings]
  rw [hq.contributors_eq hc, hp.contributors_eq hc, List.filter_append, List.filter_append,
    hcapabilities, hbase, hnone, capabilities_eq_of_aside hp hq h hid,
    featuresAt_eq_of_gains hp hq h hc, List.filter_map]
  rfl

omit hid in
theorem overlaid_of_fragmentsOf {e : Environment} {os os' : Dict Output}
    (hos : p.outputs e = .ok os) (hos' : q.outputs e = .ok os') {sc : Scope}
    (hsc : q.scope = some sc) {hook : Hook} {x : Contributor} (hx : x ∈ p.contributors hook)
    {fs gs : List Fragment} (hfs : p.fragmentsOf os hook x = .ok fs)
    (hgs : q.fragmentsOf os' hook x = .ok gs) : List.Forall₂ (Fragment.Overlaid sc) fs gs := by
  have hnone := scope_eq_none_of_gains hp h
  obtain ⟨_, ha⟩ := exists_arranged hc hp hook
  cases x with
  | base =>
    obtain ⟨-, sd, hsd, -⟩ := ha.mem_base_iff.mp hx
    rw [hnone] at hsd
    cases hsd
  | capability cap owner =>
    have hadmin : hook ≠ .admin := by
      rintro rfl
      have hh := (ha.mem_capability_iff.mp hx).1
      cases cap
      exact absurd hh (by decide)
    rw [fragmentsOf] at hfs hgs
    rw [hgs] at hfs
    cases hfs
    split at hgs
    · cases hgs
      exact .cons (Fragment.overlaid_refl hadmin) .nil
    · cases hgs
  | feature k =>
    have hk : k ≠ Scope.featureId := by
      rintro rfl
      obtain ⟨f, -, hf, hs, -⟩ := (hp.mem_feature_iff hc hook).mp hx
      rw [Spec.enables, hf, h.off] at hs
      cases hs
    obtain ⟨o, ho, hsection, -⟩ := (exists_fragmentsOf_iff hc hp hx).mp ⟨fs, hfs⟩ k rfl
    have ho' := find?_outputs_of_gains hp hq h hc hos hos' ho
    by_cases hadmin : hook = .admin
    · subst hadmin
      simp only [fragmentsOf, ho] at hfs
      simp only [fragmentsOf, ho'] at hgs
      obtain ⟨bs, hbs, hbs'⟩ := exists_settersOf_eq hp hq h hk
      rw [setterFragments_eq_ok_iff, hbs, List.forall₂_map_left_iff] at hfs
      rw [setterFragments_eq_ok_iff, hbs', List.forall₂_map_left_iff] at hgs
      refine forall₂_of_common hfs hgs fun b y z hy hz ↦ ?_
      obtain ⟨st, hst, rfl⟩ := hy
      obtain ⟨_, hst', rfl⟩ := hz
      rw [Binding.name_wait] at hst hst'
      rw [hst] at hst'
      cases hst'
      obtain ⟨hm, hname⟩ := setter?_eq_some hst
      rw [Binding.timelocked_wait, Binding.timelocked_wait, hnone, hsc, Option.any_none,
        Option.any_some, ← hname]
      exact Fragment.overlaid_render (tidy_of_outputs hos ho hm) _
    · obtain ⟨ls, hls⟩ := Option.isSome_iff_exists.mp (hsection hadmin)
      have htext : o.text? hook = some (joinLines ls) := by rw [Output.text?, hls]; rfl
      simp only [fragmentsOf, ho, htext] at hfs
      simp only [fragmentsOf, ho', htext] at hgs
      cases hfs
      cases hgs
      exact .cons (Fragment.overlaid_refl hadmin) .nil

theorem overlaid_of_assemble {settings : Settings} {a b : Assembly}
    (ha : p.assemble s settings = .ok a) (hb : q.assemble t settings = .ok b) {sc : Scope}
    (hsc : q.scope = some sc) : a.Overlaid b sc := by
  obtain ⟨os, hos, hall⟩ := exists_assemble_iff.mp ⟨a, ha⟩
  obtain ⟨os', hos', hall'⟩ := exists_assemble_iff.mp ⟨b, hb⟩
  obtain ⟨_, hos₁, fss, hfss, rfl⟩ := assemble_eq_ok_iff.mp ha
  obtain ⟨_, hos₂, gss, hgss, rfl⟩ := assemble_eq_ok_iff.mp hb
  rw [hos] at hos₁
  rw [hos'] at hos₂
  cases hos₁
  cases hos₂
  have henvironment := environment_eq_of_aside hp hq h hid
  constructor
  · simp only [Spec.header, Spec.contractName, Spec.supplyExpression, h.name, h.symbol, h.totalSupply,
      h.decimals]
  · exact frame_eq_of_aside hp hq h hid
  · have hkept (hook : Hook) : ((q.contributors hook).flatMap (q.written os' hook)).filter
        (·.origin.lasting) = (p.contributors hook).flatMap (q.written os' hook) := by
      rw [← filter_lasting_contributors hc hp hq h hid]
      refine filter_flatMap fun x hx y hy ↦ ?_
      rw [origin_of_mem_written hc hq hos' hx hy]
    rw [flatten_eq_of_assemble hfss, flatten_eq_of_assemble hgss, List.filter_flatMap]
    simp only [hkept]
    refine forall₂_flatMap fun hook _ ↦ forall₂_flatMap fun x hx ↦ ?_
    obtain ⟨fs, hfs⟩ := hall hook x hx
    have hx' : x ∈ q.contributors hook := by
      rw [← filter_lasting_contributors hc hp hq h hid] at hx
      exact List.mem_of_mem_filter hx
    obtain ⟨gs, hgs⟩ := hall' hook x hx'
    rw [written_eq hfs, written_eq hgs]
    rw [henvironment] at hos
    exact overlaid_of_fragmentsOf hc hp hq h hos hos' hsc hx hfs hgs

end Overlay

end Plan

theorem Parameter.exists_chosen {p : Parameter} {given : Option Value} (hrequired : p.required)
    (ht : p.type = .select) (h : p.objection? given = none) :
    ∃ s ∈ p.options, given = some (.text s) ∧ Text.blank s = false := by
  rw [objection?] at h
  cases hv : given.filter (!·.isBlank) with
  | none => simp [hv, hrequired] at h
  | some v =>
    rw [hv] at h
    obtain ⟨hgiven, hblank⟩ := Option.filter_eq_some_iff.mp hv
    obtain ⟨s, hs, htext⟩ := p.exists_choice ht (admits_of_valueObjection? h)
    cases v with
    | text s' =>
      cases htext
      exact ⟨s, hs, hgiven, by simpa [Value.isBlank] using hblank⟩
    | bool b | number x => cases htext

namespace Catalog

variable {s : Spec} {parameters : Dict Value} {settings : Settings}

theorem aside_timelock : standard.Aside Scope.featureId := by
  unfold Aside
  decide

theorem exists_scope_of_violations
    (hvs : standard.violations (s.choose Scope.featureId ⟨true, parameters⟩) = []) :
    ∃ sc, parameters.find? Scope.parameterId = some (.text (Scope.name sc)) ∧
      scopeOf (standard.plannedFeatures (s.choose Scope.featureId ⟨true, parameters⟩)) = .ok (some sc) := by
  have hselection : (s.choose Scope.featureId ⟨true, parameters⟩).selection? Timelock.feature.id =
      some ⟨true, parameters⟩ := by
    rw [Spec.selection?, Spec.choose, Dict.find?_insert]
    rfl
  have hmem : Timelock.feature ∈ standard.features := by simp [standard]
  obtain ⟨choice, hchoice, hid, hrequired, htype, hoptions⟩ : ∃ p ∈ Timelock.feature.parameters,
      p.id = Scope.parameterId ∧ p.required ∧ p.type = .select ∧
        p.options = Scope.options.map Scope.name := by
    decide
  have hchosen := (violations_eq_nil_iff.mp hvs).2 _ hmem _ hselection choice hchoice
  rw [hid] at hchosen
  obtain ⟨name, hname, hgiven, hblank⟩ := choice.exists_chosen hrequired htype hchosen
  rw [hoptions] at hname
  obtain ⟨sc, -, rfl⟩ := List.mem_map.mp hname
  have hvalue : Resolved.valueOf choice ⟨true, parameters⟩ = .text sc.name := by
    rw [Resolved.valueOf, hid]
    simp only [hgiven, Value.isBlank, hblank, Bool.false_eq_true, if_false]
  have hsound := regular_standard.sound
  have hfound := Resolved.find?_ofSelection (s := ⟨true, parameters⟩)
    (hsound.features _ hmem).distinct hchoice
  rw [hvalue, hid] at hfound
  obtain ⟨scope, hscope⟩ := regular_standard.exists_scope hvs
  refine ⟨sc, hgiven, ?_⟩
  rw [hscope, (scopeOf_eq_some_iff (hsound.nodup_planned _) hscope sc).mpr]
  refine ⟨plannedFeature Timelock.feature (.ofSelection _ ⟨true, parameters⟩), ?_, rfl, sc.name,
    Resolved.get_eq_ok hfound rfl, Scope.ofName?_name sc⟩
  exact List.mem_map_of_mem (mem_resolved_iff.mpr ⟨hmem, _, hselection, rfl⟩)

/-- A timelock may be laid over any contract that can be generated without one. -/
theorem overlaid_of_generate {art : Artifact} (h : standard.generate s settings = .ok art)
    (hoff : s.selection? Scope.featureId = none)
    (hvalid : standard.validate (s.choose Scope.featureId ⟨true, parameters⟩) = .ok ()) :
    ∃ a b sc, art = .ofAssembly a ∧ standard.assembly s settings = .ok a ∧
      standard.assembly (s.choose Scope.featureId ⟨true, parameters⟩) settings = .ok b ∧
      standard.generate (s.choose Scope.featureId ⟨true, parameters⟩) settings = .ok (.ofAssembly b) ∧
      parameters.find? Scope.parameterId = some (.text (Scope.name sc)) ∧ a.Overlaid b sc := by
  have hgains := Spec.gains_choose hoff parameters
  have hvs := validate_eq_ok_iff.mp hvalid
  have hsound := regular_standard.sound
  obtain ⟨p, a, hplan, ha, rfl⟩ := exists_assemble_of_generate h
  have hp := Plan.follows_of_plan hplan
  have hknown : standard.checkKnown (s.choose Scope.featureId ⟨true, parameters⟩) = .ok () := by
    have hkeys := (regular_standard.decides s settings).accepted.mp ⟨_, h⟩
    refine checkKnown_of_forall fun k hk ↦ ?_
    rcases Dict.mem_keys_insert.mp hk with rfl | hk
    · exact ⟨Timelock.feature, by simp [standard], rfl⟩
    · exact hkeys.2 k hk
  obtain ⟨q, hplan'⟩ := regular_standard.exists_plan hvs hknown
  have hq := Plan.follows_of_plan hplan'
  obtain ⟨b, hb⟩ := regular_standard.exists_assemble hvs hplan' settings
  obtain ⟨sc, hgiven, hscope⟩ := exists_scope_of_violations hvs
  have hsc : q.scope = some sc := by
    have hqscope := hq.scope
    rw [hq.features, hscope] at hqscope
    exact (Except.ok.inj hqscope).symm
  refine ⟨a, b, sc, rfl, ?_, ?_, generate_of_assemble hvs hplan' hb, hgiven,
    Plan.overlaid_of_assemble hsound hp hq hgains aside_timelock ha hb hsc⟩
  · exact bind_eq_ok_iff.mpr ⟨p, hplan, ha⟩
  · exact bind_eq_ok_iff.mpr ⟨q, hplan', hb⟩

theorem overlaid_tax :
    let s := (⟨[Tax.feature]⟩ : Catalog).token
    let parameters := Dict.ofList [(Scope.parameterId, .text Scope.taxOnly.name)]
    s.selection? Scope.featureId = none ∧
      standard.validate (s.choose Scope.featureId ⟨true, parameters⟩) = .ok () ∧
      ∃ art, standard.generate s {} = .ok art ∧
        ∃ a b sc, art = .ofAssembly a ∧ standard.assembly s {} = .ok a ∧
          standard.assembly (s.choose Scope.featureId ⟨true, parameters⟩) {} = .ok b ∧
          standard.generate (s.choose Scope.featureId ⟨true, parameters⟩) {} = .ok (.ofAssembly b) ∧
          parameters.find? Scope.parameterId = some (.text (Scope.name sc)) ∧ a.Overlaid b sc := by
  intro s parameters
  have hoff : s.selection? Scope.featureId = none := by decide +kernel
  have hvalid : standard.validate (s.choose Scope.featureId ⟨true, parameters⟩) = .ok () :=
    validate_eq_ok_iff.mpr (by decide +kernel)
  have hvs : standard.violations s = [] := by decide +kernel
  have hok : (standard.assembly s {}).toOption.any fun _ ↦ true := by decide +kernel
  obtain ⟨a, ha, -⟩ := exists_ok_of_any hok
  obtain ⟨p, hp, ha⟩ := bind_eq_ok_iff.mp ha
  have hgen := generate_of_assemble hvs hp ha
  exact ⟨hoff, hvalid, _, hgen, overlaid_of_generate hgen hoff hvalid⟩

end Catalog

end TokenContract
