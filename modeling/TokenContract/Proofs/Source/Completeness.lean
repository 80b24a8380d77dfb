import TokenContract.Proofs.Source.Fragments

namespace TokenContract

open Results

namespace Plan

def write (p : Plan) (s : Spec) (f : PlannedFeature) : Except Defect Output :=
  f.kind.output f.parameters (s.environment p)

/-- A planned feature with no later one of its id, whose text would count instead. -/
def Last (p : Plan) (f : PlannedFeature) : Prop :=
  ∃ l m, p.features = l ++ f :: m ∧ ∀ g ∈ m, g.id ≠ f.id

/-- A contract that has what the features of its plan write: the sections of each with no later one of
its id, and the setters of each that stands at the owner's functions. -/
structure Complete (p : Plan) (s : Spec) (a : Assembly) : Prop where
  written : ∀ f ∈ p.features, ∃ o, p.write s f = .ok o
  sections : ∀ f o, p.Last f → p.write s f = .ok o →
    ∀ h text, o.text? h = some text → ⟨h, .feature f.id, text⟩ ∈ a.fragments
  bound : ∀ f ∈ p.features, ∀ o, p.write s f = .ok o →
    ∀ st ∈ o.setters, ∃ b ∈ p.setters, b.contributor = .feature f.id ∧ b.name = st.name
  setters : ∀ f ∈ p.features, ∀ o, p.write s f = .ok o →
    .feature f.id ∈ p.contributors .admin →
      ∀ st ∈ o.setters, ∀ b ∈ p.setters, b.contributor = .feature f.id → b.name = st.name →
        ⟨.admin, .feature f.id, st.render b.timelocked⟩ ∈ a.fragments

/-- Why no contract is assembled. -/
inductive Fault (p : Plan) (s : Spec) : Defect → Prop
  | parameter {f : PlannedFeature} (hf : f ∈ p.features) (name : String) :
      p.write s f = .error (.missingParameter f.parameters.feature name) →
      Fault p s (.missingParameter f.parameters.feature name)
  | undeclared {f : PlannedFeature} (hf : f ∈ p.features) {o : Output} (ho : p.write s f = .ok o)
      {h : Hook} : (o.text? h).isSome → .feature f.id ∉ p.contributors h →
      Fault p s (.unexpectedFragment f.id h)
  | unbound {f : PlannedFeature} (hf : f ∈ p.features) {o : Output} (ho : p.write s f = .ok o)
      {st : Setter} : st ∈ o.setters →
      (∀ b ∈ p.setters, b.contributor = .feature f.id → b.name ≠ st.name) →
      Fault p s (.unexpectedFragment f.id .admin)
  | missing {h : Hook} {x : Contributor} : x ∈ p.contributors h →
      Fault p s (.missingFragment (x.feature?.getD Contributor.baseLabel) h)

variable {p : Plan} {c : Catalog} {s : Spec} {e : Environment} {settings : Settings}
  {a : Assembly} {os : Dict Output} {f : PlannedFeature} {o : Output} {d : Defect}

theorem last_of_nodup (hd : (p.features.map (·.id)).Nodup) (hf : f ∈ p.features) : p.Last f := by
  obtain ⟨l, m, hsplit⟩ := List.append_of_mem hf
  refine ⟨l, m, hsplit, ?_⟩
  intro g hg hid
  rw [hsplit, List.map_append, List.map_cons] at hd
  apply (List.nodup_cons.mp hd.of_append_right).1
  rw [← hid]
  exact List.mem_map_of_mem hg

theorem Last.mem (hf : p.Last f) : f ∈ p.features := by
  obtain ⟨l, m, hsplit, -⟩ := hf
  rw [hsplit]
  exact List.mem_append_right l List.mem_cons_self

theorem Last.find?_outputs (hf : p.Last f) (hos : p.outputs e = .ok os)
    (ho : f.kind.output f.parameters e = .ok o) : os.find? f.id = some o := by
  have hout : p.outputOf e f = .ok (f.id, o) :=
    outputOf_eq_ok_iff.mpr ⟨o, ho, unexpected?_of_outputs hos hf.mem ho, rfl⟩
  obtain ⟨l, m, hsplit, hm⟩ := hf
  obtain ⟨xs, hxs, hos⟩ := bind_eq_ok_iff.mp hos
  cases hos
  rw [hsplit, List.mapM_append, bind_eq_ok_iff] at hxs
  obtain ⟨ys, -, hxs⟩ := hxs
  obtain ⟨zs, hzs, hxs⟩ := bind_eq_ok_iff.mp hxs
  cases hxs
  rw [List.mapM_cons, bind_eq_ok_iff] at hzs
  obtain ⟨x, hx, hzs⟩ := hzs
  obtain ⟨ws, hws, hzs⟩ := bind_eq_ok_iff.mp hzs
  rw [hout] at hx
  cases hx
  cases hzs
  -- The features after `f` have other ids, so that what it writes is not replaced.
  apply Dict.find?_ofList_append_cons
  intro hid
  obtain ⟨y, hy, hid⟩ := List.mem_map.mp hid
  obtain ⟨g, hg, hgo⟩ := (mem_iff_of_mapM hws).mp hy
  obtain ⟨o', -, -, rfl⟩ := outputOf_eq_ok_iff.mp hgo
  exact hm g hg hid

theorem mem_fragments_iff {fss : List (List Fragment)}
    (hfss : Hook.all.mapM (p.fragmentsAt os) = .ok fss) {x : Fragment} :
    x ∈ fss.flatten ↔
      ∃ h, ∃ y ∈ p.contributors h, ∃ fs, p.fragmentsOf os h y = .ok fs ∧ x ∈ fs := by
  rw [List.mem_flatten]
  constructor
  · intro hx
    obtain ⟨fs, hfs, hx⟩ := hx
    obtain ⟨h, -, hh⟩ := (mem_iff_of_mapM hfss).mp hfs
    obtain ⟨gss, hgss, rfl⟩ := fragmentsAt_eq_ok_iff.mp hh
    obtain ⟨gs, hgs, hx⟩ := List.mem_flatten.mp hx
    obtain ⟨y, hy, hyo⟩ := (mem_iff_of_mapM hgss).mp hgs
    exact ⟨h, y, hy, gs, hyo, hx⟩
  · intro hx
    obtain ⟨h, y, hy, gs, hyo, hx⟩ := hx
    obtain ⟨fs, hfs⟩ := exists_mapM_iff.mp ⟨fss, hfss⟩ h h.mem_all
    refine ⟨fs, (mem_iff_of_mapM hfss).mpr ⟨h, h.mem_all, hfs⟩, ?_⟩
    obtain ⟨gss, hgss, rfl⟩ := fragmentsAt_eq_ok_iff.mp hfs
    exact List.mem_flatten.mpr ⟨gs, (mem_iff_of_mapM hgss).mpr ⟨y, hy, hyo⟩, hx⟩

theorem mem_setterFragments_iff {h : Hook} {x : Contributor} {owner : FeatureId}
    {setter? : String → Option Setter} {fs : List Fragment}
    (hfs : p.setterFragments h x owner setter? = .ok fs) {y : Fragment} :
    y ∈ fs ↔ ∃ b ∈ p.settersOf x, ∃ st, setter? b.name = some st ∧
      y = ⟨h, x, st.render b.timelocked⟩ := by
  rw [mem_iff_of_mapM hfs]
  apply exists_congr
  intro b
  apply and_congr_right
  intro _
  cases setter? b.name with
  | none => simp
  | some st => simp [pure, Except.pure, eq_comm]

theorem section_mem_fragments (hf : p.Last f) (ha : p.assemble s settings = .ok a)
    (ho : p.write s f = .ok o) {h : Hook} {text : String} (htext : o.text? h = some text) :
    ⟨h, .feature f.id, text⟩ ∈ a.fragments := by
  obtain ⟨os, hos, fss, hfss, rfl⟩ := assemble_eq_ok_iff.mp ha
  have hsome : (o.sections h).isSome := by
    rw [← Option.isSome_map (f := Text.joinLines)]
    exact Option.isSome_of_eq_some htext
  have hadmin : h ≠ .admin := by
    rintro rfl
    rw [FeatureKind.sections_admin ho] at hsome
    cases hsome
  have hlisted : .feature f.id ∈ p.contributors h :=
    (unexpected?_eq_none_iff.mp (unexpected?_of_outputs hos hf.mem ho)).1 h hsome hadmin
  apply (mem_fragments_iff hfss).mpr
  refine ⟨h, _, hlisted, [⟨h, .feature f.id, text⟩], ?_, List.mem_singleton_self _⟩
  simp [fragmentsOf, hf.find?_outputs hos ho, htext]

theorem exists_binding (ha : p.assemble s settings = .ok a) (hf : f ∈ p.features)
    (ho : p.write s f = .ok o) {st : Setter} (hst : st ∈ o.setters) :
    ∃ b ∈ p.setters, b.contributor = .feature f.id ∧ b.name = st.name := by
  obtain ⟨os, hos, -⟩ := assemble_eq_ok_iff.mp ha
  have hname := (unexpected?_eq_none_iff.mp (unexpected?_of_outputs hos hf ho)).2 st.name
    (List.mem_map_of_mem hst)
  obtain ⟨b, hb, hname⟩ := List.mem_map.mp hname
  obtain ⟨hb, hx⟩ := mem_settersOf_iff.mp hb
  exact ⟨b, hb, hx, hname⟩

/-- Unlike its other text, the setters of a feature stand though a later one has its id: that one
has to write setters of their names too, which are then the same. -/
theorem setter_mem_fragments (ha : p.assemble s settings = .ok a) (ho : p.write s f = .ok o)
    (hlisted : .feature f.id ∈ p.contributors .admin) {st : Setter} (hst : st ∈ o.setters)
    {b : Binding} (hb : b ∈ p.setters) (hx : b.contributor = .feature f.id)
    (hname : b.name = st.name) : ⟨.admin, .feature f.id, st.render b.timelocked⟩ ∈ a.fragments := by
  obtain ⟨os, hos, fss, hfss, rfl⟩ := assemble_eq_ok_iff.mp ha
  obtain ⟨fs, hfs⟩ := exists_mapM_iff.mp ⟨fss, hfss⟩ .admin (Hook.mem_all _)
  obtain ⟨gs, hgs⟩ := exists_fragmentsAt_iff.mp ⟨fs, hfs⟩ _ hlisted
  apply (mem_fragments_iff hfss).mpr
  refine ⟨.admin, _, hlisted, gs, hgs, ?_⟩
  have hb := mem_settersOf_iff.mpr ⟨hb, hx⟩
  cases hfound : os.find? f.id with
  | none => simp [fragmentsOf, hfound] at hgs
  | some o' =>
    simp only [fragmentsOf, hfound] at hgs
    obtain ⟨g, -, -, ho'⟩ := exists_of_find?_outputs hos hfound
    obtain ⟨st', hst'⟩ :=
      Option.isSome_iff_exists.mp (exists_setterFragments_iff.mp ⟨gs, hgs⟩ b hb)
    obtain ⟨hm, hname'⟩ := setter?_eq_some hst'
    rw [(FeatureKind.ofKind_of_output ho').setters] at hm
    rw [(FeatureKind.ofKind_of_output ho).setters] at hst
    obtain rfl := FeatureKind.setter_eq_of_name_eq hm hst (hname'.trans hname)
    exact (mem_setterFragments_iff hgs).mpr ⟨b, hb, st', hst', rfl⟩

theorem complete_of_assemble (ha : p.assemble s settings = .ok a) : p.Complete s a := by
  constructor
  · intro f hf
    obtain ⟨os, hos, -⟩ := assemble_eq_ok_iff.mp ha
    obtain ⟨x, hx⟩ := exists_outputs_iff.mp ⟨os, hos⟩ f hf
    obtain ⟨o, ho, -⟩ := outputOf_eq_ok_iff.mp hx
    exact ⟨o, ho⟩
  · intro f o hf ho h text
    exact section_mem_fragments hf ha ho
  · intro f hf o ho st
    exact exists_binding ha hf ho
  · intro f _ o ho hlisted st hst b
    exact setter_mem_fragments ha ho hlisted hst

theorem fault_of_unexpected? (hf : f ∈ p.features) (ho : p.write s f = .ok o) {h : Hook}
    (hun : p.unexpected? f.id o = some h) : p.Fault s (.unexpectedFragment f.id h) := by
  rw [unexpected?, Option.orElse_eq_orElse, Option.orElse_eq_or, Option.or_eq_some_iff] at hun
  rcases hun with hhook | ⟨-, hsetters⟩
  · have hagainst := List.find?_some hhook
    have hm := List.mem_of_find?_eq_some hhook
    rw [Bool.and_eq_true, bne_iff_ne, Bool.not_eq_true', ← Bool.not_eq_true, expects_iff] at hagainst
    obtain ⟨hadmin, hnot⟩ := hagainst
    have hsome : (o.sections h).isSome := by
      simpa [Output.hooks, hadmin] using (List.mem_filter.mp hm).2
    exact .undeclared hf ho (by simpa [Output.text?] using hsome) hnot
  · split at hsetters
    · cases hsetters
    · rename_i hall
      cases hsetters
      obtain ⟨st, hst, hnot⟩ : ∃ st ∈ o.setters, ¬p.expectsSetter f.id st.name := by
        simpa using hall
      refine .unbound hf ho hst ?_
      intro b hb hx hname
      apply hnot
      rw [expectsSetter_iff, ← hname]
      exact List.mem_map_of_mem (mem_settersOf_iff.mpr ⟨hb, hx⟩)

theorem fault_of_outputOf (hf : f ∈ p.features) (h : p.outputOf (s.environment p) f = .error d) :
    p.Fault s d := by
  rcases bind_eq_error_iff.mp h with hd | ⟨o, ho, hd⟩
  · obtain ⟨name, rfl⟩ := FeatureKind.asks_output _ _ _ d hd
    exact .parameter hf name hd
  · split at hd
    · rename_i hook hun
      cases hd
      exact fault_of_unexpected? hf ho hun
    · cases hd

theorem eq_of_setterFragments_error {h : Hook} {x : Contributor} {owner : FeatureId}
    {setter? : String → Option Setter} (hd : p.setterFragments h x owner setter? = .error d) :
    d = .missingFragment owner h := by
  obtain ⟨b, -, hb⟩ := exists_mem_of_mapM_error hd
  split at hb
  · cases hb
  · cases hb
    rfl

theorem eq_of_fragmentsOf_error {h : Hook} {x : Contributor}
    (hd : p.fragmentsOf os h x = .error d) :
    d = .missingFragment (x.feature?.getD Contributor.baseLabel) h := by
  cases x with
  | base => exact eq_of_setterFragments_error hd
  | capability cap owner =>
    rw [fragmentsOf] at hd
    split at hd
    · cases hd
    · cases hd
      rfl
  | feature id =>
    unfold fragmentsOf at hd
    dsimp only at hd
    split at hd
    · exact eq_of_setterFragments_error hd
    · split at hd
      · cases hd
      · cases hd
        rfl
    · cases hd
      rfl

theorem fault_of_assemble (h : p.assemble s settings = .error d) : p.Fault s d := by
  rcases bind_eq_error_iff.mp h with hd | ⟨os, -, h⟩
  · rcases bind_eq_error_iff.mp hd with hd | ⟨xs, -, hd⟩
    · obtain ⟨f, hf, hd⟩ := exists_mem_of_mapM_error hd
      exact fault_of_outputOf hf hd
    · cases hd
  · rcases bind_eq_error_iff.mp h with hd | ⟨fss, -, hd⟩
    · obtain ⟨hook, -, hd⟩ := exists_mem_of_mapM_error hd
      rcases bind_eq_error_iff.mp hd with hd | ⟨fs, -, hd⟩
      · obtain ⟨x, hx, hd⟩ := exists_mem_of_mapM_error hd
        rw [eq_of_fragmentsOf_error hd]
        exact .missing hx
      · cases hd
    · cases hd

/-- Whatever the plan, a contract that is assembled is complete, and if none is, there is a fault. -/
theorem complete_or_fault (p : Plan) (s : Spec) (settings : Settings) :
    (∀ a, p.assemble s settings = .ok a → p.Complete s a) ∧
      ∀ d, p.assemble s settings = .error d → p.Fault s d :=
  ⟨fun _ ↦ complete_of_assemble, fun _ ↦ fault_of_assemble⟩

theorem Follows.writer_of_fragment (hc : c.Sound) (hp : p.Follows c s)
    (ha : p.assemble s settings = .ok a) {x : Fragment} (hx : x ∈ a.fragments)
    (hadmin : x.hook ≠ .admin) :
    (∃ cap id ls, x.origin = .capability cap id ∧ p.capabilities cap = some id ∧
      cap.section? x.hook = some ls ∧ x.text = Text.joinLines ls) ∨
    ∃ f ∈ p.features, x.origin = .feature f.id ∧
      ∃ o, p.write s f = .ok o ∧ o.text? x.hook = some x.text := by
  obtain ⟨os, hos, fss, hfss, rfl⟩ := assemble_eq_ok_iff.mp ha
  obtain ⟨h, y, hy, fs, hfs, hx⟩ := (mem_fragments_iff hfss).mp hx
  obtain ⟨_, harranged⟩ := exists_arranged hc hp h
  cases y with
  | base =>
    obtain ⟨b, -, st, -, rfl⟩ := (mem_setterFragments_iff hfs).mp hx
    exact absurd (harranged.mem_base_iff.mp hy).1 hadmin
  | capability cap id =>
    obtain ⟨hh, hid⟩ := harranged.mem_capability_iff.mp hy
    obtain ⟨ls, hls⟩ := Option.isSome_iff_exists.mp ((cap.isSome_section? h).mpr hh)
    rw [fragmentsOf, hls] at hfs
    cases hfs
    obtain rfl := List.mem_singleton.mp hx
    exact .inl ⟨cap, id, ls, rfl, hid, hls, rfl⟩
  | feature id =>
    obtain ⟨o, ho, hsection, -⟩ := (exists_fragmentsOf_iff hc hp hy).mp ⟨fs, hfs⟩ id rfl
    obtain ⟨f, hf, rfl, hwrite⟩ := exists_of_find?_outputs hos ho
    by_cases hh : h = .admin
    · subst hh
      simp only [fragmentsOf, ho] at hfs
      obtain ⟨b, -, st, -, rfl⟩ := (mem_setterFragments_iff hfs).mp hx
      exact absurd rfl hadmin
    · obtain ⟨ls, hls⟩ := Option.isSome_iff_exists.mp (hsection hh)
      have htext : o.text? h = some (Text.joinLines ls) := by rw [Output.text?, hls]; rfl
      simp only [fragmentsOf, ho, htext] at hfs
      cases hfs
      obtain rfl := List.mem_singleton.mp hx
      exact .inr ⟨f, hf, rfl, o, hwrite, htext⟩

theorem Follows.declarations_eq (hp : p.Follows c s) : p.frame.declarations =
    (sharedValuesOf (stagesOf (c.enabled s))).map SharedValue.declaration := by
  rw [frame, hp.transfer_eq, transferOf]
  cases stagesOf (c.enabled s) with
  | nil => rfl
  | cons st stages => rfl

theorem Follows.mem_declarations_iff (hp : p.Follows c s) {text : String} :
    text ∈ p.frame.declarations ↔ ∃ f ∈ c.features, s.enables f ∧ ∃ stage,
      f.transferStage = some stage ∧ ∃ v ∈ stage.produces ++ stage.consumes,
        v.declaration = text := by
  rw [hp.declarations_eq, List.mem_map]
  simp only [mem_sharedValuesOf_iff, Catalog.mem_enabled_iff]
  constructor
  · intro h
    obtain ⟨v, ⟨f, ⟨hf, hs⟩, stage, hstage, hv⟩, rfl⟩ := h
    exact ⟨f, hf, hs, stage, hstage, v, hv, rfl⟩
  · intro h
    obtain ⟨f, hf, hs, stage, hstage, v, hv, rfl⟩ := h
    exact ⟨v, ⟨f, ⟨hf, hs⟩, stage, hstage, hv⟩, rfl⟩

/-- A plan by hand. Its features stand at the hooks that their kinds fill, but not at the owner's
functions, though their setters are bound. -/
def unlisted (fs : List PlannedFeature) : Plan where
  features := fs
  hooks := fun h ↦
    if h = .admin then none
    else some ((fs.filter (·.kind.feature.contributesTo h)).map fun f ↦ .feature f.id)
  capabilities := fun _ ↦ none
  transfer := none
  setters := fs.flatMap fun f ↦ f.kind.feature.setters.map fun d ↦ ⟨d.name, .feature f.id, false⟩
  scope := none

def plainFeature (k : FeatureKind) (parameters : Dict Value) : PlannedFeature :=
  ⟨k.feature.id, k, .ofSelection k.feature ⟨true, parameters⟩⟩

def taxed (parameters : Dict Value) : Plan :=
  unlisted [plainFeature .tax parameters]

theorem complete_or_fault_taxed :
    (∃ a, (taxed .empty).assemble guardedTax {} = .ok a ∧ (taxed .empty).Complete guardedTax a) ∧
      ∃ d, { taxed .empty with setters := [] }.assemble guardedTax {} = .error d ∧
        Fault { taxed .empty with setters := [] } guardedTax d := by
  have hok : ((taxed .empty).assemble guardedTax {}).toOption.any fun _ ↦ true := by
    decide +kernel
  have herror : { taxed .empty with setters := [] }.assemble guardedTax {} =
      .error (.unexpectedFragment "tax" .admin) := by
    decide +kernel
  obtain ⟨a, ha, -⟩ := exists_ok_of_any hok
  exact ⟨⟨a, ha, (complete_or_fault _ _ _).1 a ha⟩,
    _, herror, (complete_or_fault _ _ _).2 _ herror⟩

/-- Two features of one id. -/
def doubled : Plan :=
  unlisted [plainFeature .reflection (Dict.ofList [("reflectionPercent", .number 10)]),
    plainFeature .reflection (Dict.ofList [("reflectionPercent", .number 20)])]

/-- The setters of a feature are lost where it is not listed at the owner's functions, and the text
of a feature is lost to a later one of its id. A value of the wrong type is an error of its own. -/
theorem lost_or_refused :
    (∃ a, (taxed .empty).assemble guardedTax {} = .ok a ∧
      ∃ f ∈ (taxed .empty).features, ∃ o, (taxed .empty).write guardedTax f = .ok o ∧
        o.setters ≠ [] ∧ ∀ x ∈ a.fragments, x.hook ≠ .admin) ∧
    (∃ a, doubled.assemble guardedTax {} = .ok a ∧
      ∃ f ∈ doubled.features, ∃ o, doubled.write guardedTax f = .ok o ∧
        ∃ text, o.text? .state = some text ∧ ∀ x ∈ a.fragments, x.text ≠ text) ∧
    (taxed (Dict.ofList [("buyTax", .text "much")])).assemble guardedTax {} =
      .error (.missingParameter "tax" "buyTax") := by
  refine ⟨?_, ?_, by decide +kernel⟩
  · have hall : ((taxed .empty).assemble guardedTax {}).toOption.any fun a ↦
        (taxed .empty).features.any fun f ↦ ((taxed .empty).write guardedTax f).toOption.any fun o ↦
          !o.setters.isEmpty && a.fragments.all (·.hook != .admin) := by
      decide +kernel
    obtain ⟨a, ha, hlost⟩ := exists_ok_of_any hall
    obtain ⟨f, hf, hlost⟩ := List.any_eq_true.mp hlost
    obtain ⟨o, ho, hlost⟩ := exists_ok_of_any hlost
    exact ⟨a, ha, f, hf, o, ho, by simpa using hlost⟩
  · have hall : (doubled.assemble guardedTax {}).toOption.any fun a ↦
        doubled.features.any fun f ↦ (doubled.write guardedTax f).toOption.any fun o ↦
          (o.text? .state).any fun text ↦ a.fragments.all (·.text != text) := by
      decide +kernel
    obtain ⟨a, ha, hlost⟩ := exists_ok_of_any hall
    obtain ⟨f, hf, hlost⟩ := List.any_eq_true.mp hlost
    obtain ⟨o, ho, hlost⟩ := exists_ok_of_any hlost
    obtain ⟨text, htext, hlost⟩ := (Option.any_eq_true _ _).mp hlost
    exact ⟨a, ha, f, hf, o, ho, text, htext, by simpa using hlost⟩

end Plan

end TokenContract
