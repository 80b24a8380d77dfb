import TokenContract.Proofs.Plan.Contributors
import Mathlib.Data.List.Permutation

namespace TokenContract

open Results

def staged (enabled : List Feature) : List Staged :=
  enabled.filterMap fun f ↦ f.transferStage.map (⟨f.id, ·⟩)

/-- The stages of features by priority. Among equals they stay in the order of the features. -/
structure InOrder (enabled : List Feature) (stages : List Staged) : Prop where
  perm : stages.Perm (staged enabled)
  sorted : stages.Pairwise fun s t ↦ s.stage.priority ≤ t.stage.priority
  ties : ∀ n, stages.filter (·.stage.priority == n) =
    (staged enabled).filter (·.stage.priority == n)

/-- The stage at a position takes up a value whose first producer comes later. -/
structure Early (stages : List Staged) (i j : Nat) (v : SharedValue) : Prop where
  consumes : Consumes stages i v
  produces : Produces stages j v
  first : ∀ k < j, ¬Produces stages k v
  late : i < j

/-- Of the first stage with an early use, the first value. -/
structure FirstEarly (stages : List Staged) (i j : Nat) (v : SharedValue) : Prop where
  early : Early stages i j v
  stage : ∀ k < i, ∀ l w, ¬Early stages k l w
  value : ∃ s before after, stages[i]? = some s ∧ s.stage.consumes = before ++ v :: after ∧
    ∀ w ∈ before, ∀ l, ¬Early stages i l w

def uses (stages : List Staged) : List SharedValue :=
  stages.flatMap fun s ↦ s.stage.produces ++ s.stage.consumes

/-- A transfer with given stages. Each of their values is there once, in the order of first use, and
whatever is taken up is zero or was handed on by then. -/
structure Transfer.Conveys (t : Transfer) (stages : List Staged) (swapRouter : Bool) : Prop where
  layout : t.stages = stages.map fun s ↦ (s.feature, s.stage.priority)
  shared : ∀ v, v ∈ t.sharedValues ↔ ∃ i, Produces stages i v ∨ Consumes stages i v
  distinct : t.sharedValues.Nodup
  firstUse : t.sharedValues.Pairwise fun v w ↦ (uses stages).idxOf v < (uses stages).idxOf w
  zero : ∀ v, v ∈ t.zeroSeeded ↔ (∃ i, Consumes stages i v) ∧ ∀ j, ¬Produces stages j v
  once : t.zeroSeeded.Nodup
  guard : t.swapGuard = swapRouter
  supplied : ∀ i v, Consumes stages i v → v ∈ t.zeroSeeded ∨ ∃ k ≤ i, Produces stages k v

/-- Features whose stages come in another order than they do. A rebate both takes up the fee and hands
it on, as the tax does; nobody hands on the reserve. -/
def pipeline : List Feature :=
  [{ id := "rebate", kind := .reflection
     transferStage := some ⟨300, [.feeAmount], [.feeAmount]⟩ },
    { id := "tax", kind := .tax, transferStage := some ⟨200, [.feeAmount], []⟩ },
    { id := "levy", kind := .tax
      transferStage := some ⟨200, [], [⟨"reserve", "uint256"⟩, .feeAmount]⟩ }]

/-- What becomes of the transfer of features. -/
structure TransferPlanned (enabled : List Feature) (swapRouter : Bool) : Prop where
  ordered : InOrder enabled (stagesOf enabled)
  absent : planTransfer enabled swapRouter = .ok none ↔ ∀ f ∈ enabled, f.transferStage = none
  refused : (∃ d, planTransfer enabled swapRouter = .error d) ↔
    ∃ i j v, Early (stagesOf enabled) i j v
  defect : ∀ d, planTransfer enabled swapRouter = .error d ↔
    ∃ i j v s t, FirstEarly (stagesOf enabled) i j v ∧ (stagesOf enabled)[i]? = some s ∧
      (stagesOf enabled)[j]? = some t ∧ d = .dependencyOrder s.feature t.feature v.name
  planned : ∀ t, planTransfer enabled swapRouter = .ok (some t) →
    t.Conveys (stagesOf enabled) swapRouter

section Stages

variable {stages : List Staged} {s t : Staged} {i j : Nat} {v : SharedValue} {d : Defect}

theorem exists_produces_iff : (∃ i, Produces stages i v) ↔ ∃ s ∈ stages, v ∈ s.stage.produces :=
  Positions.exists_getElem?_iff

theorem exists_consumes_iff : (∃ i, Consumes stages i v) ↔ ∃ s ∈ stages, v ∈ s.stage.consumes :=
  Positions.exists_getElem?_iff

theorem Early.producer?_eq (h : Early stages i j v) (ht : stages[j]? = some t) :
    producer? stages v = some (t.feature, j) :=
  producer?_eq_some_iff.mpr ⟨h.produces, h.first, by rw [ht]; rfl⟩

theorem earlyUse?_eq_some_iff (hs : stages[i]? = some s) (hv : v ∈ s.stage.consumes) :
    earlyUse? stages s i v = some d ↔ ∃ j t, Early stages i j v ∧ stages[j]? = some t ∧
      d = .dependencyOrder s.feature t.feature v.name := by
  constructor
  · intro h
    unfold earlyUse? at h
    split at h
    · rename_i id j hp
      obtain ⟨hprod, hfirst, hid⟩ := producer?_eq_some_iff.mp hp
      obtain ⟨t, ht, rfl⟩ := Option.map_eq_some_iff.mp hid
      split at h
      · rename_i hlate
        cases h
        exact ⟨j, t, ⟨⟨s, hs, hv⟩, hprod, hfirst, hlate⟩, ht, rfl⟩
      · cases h
    · cases h
  · intro h
    obtain ⟨j, t, hearly, ht, rfl⟩ := h
    unfold earlyUse?
    rw [hearly.producer?_eq ht]
    exact if_pos hearly.late

theorem earlyUse?_eq_none_iff (hs : stages[i]? = some s) (hv : v ∈ s.stage.consumes) :
    earlyUse? stages s i v = none ↔ ∀ j, ¬Early stages i j v := by
  rw [Option.eq_none_iff_forall_ne_some]
  simp only [ne_eq, earlyUse?_eq_some_iff hs hv]
  constructor
  · intro h j hearly
    obtain ⟨t, ht, -⟩ := id hearly.produces
    exact h _ ⟨j, t, hearly, ht, rfl⟩
  · intro h d hd
    obtain ⟨j, -, hearly, -⟩ := hd
    exact h j hearly

theorem findSome?_earlyUse?_eq_none_iff (hs : stages[i]? = some s) :
    s.stage.consumes.findSome? (earlyUse? stages s i) = none ↔ ∀ j v, ¬Early stages i j v := by
  rw [List.findSome?_eq_none_iff]
  constructor
  · intro h j v hearly
    obtain ⟨t, ht, hv⟩ := hearly.consumes
    rw [hs] at ht
    cases ht
    exact (earlyUse?_eq_none_iff hs hv).mp (h v hv) j hearly
  · intro h v hv
    exact (earlyUse?_eq_none_iff hs hv).mpr fun j ↦ h j v

theorem orderDefect?_eq_none_iff : orderDefect? stages = none ↔ ∀ i j v, ¬Early stages i j v := by
  rw [orderDefect?, List.findSome?_eq_none_iff]
  constructor
  · intro h i j v hearly
    obtain ⟨s, hs, -⟩ := id hearly.consumes
    have hnone := h (s, i) (List.mem_zipIdx_iff_getElem?.mpr hs)
    exact (findSome?_earlyUse?_eq_none_iff hs).mp hnone j v hearly
  · intro h x hx
    exact (findSome?_earlyUse?_eq_none_iff (List.mem_zipIdx_iff_getElem?.mp hx)).mpr (h x.2)

theorem orderDefect?_eq_some_iff : orderDefect? stages = some d ↔
    ∃ i j v s t, FirstEarly stages i j v ∧ stages[i]? = some s ∧ stages[j]? = some t ∧
      d = .dependencyOrder s.feature t.feature v.name := by
  rw [orderDefect?, Positions.findSome?_zipIdx_eq_some_iff]
  constructor
  · intro h
    obtain ⟨i, s, hs, hd, hstage⟩ := h
    obtain ⟨before, v, after, hcs, hd, hvalue⟩ := List.findSome?_eq_some_iff.mp hd
    have hmem (w : SharedValue) (hw : w ∈ before ++ [v]) : w ∈ s.stage.consumes := by
      rw [hcs, List.append_cons]
      exact List.mem_append_left _ hw
    obtain ⟨j, t, hearly, ht, hd⟩ := (earlyUse?_eq_some_iff hs (hmem v (by simp))).mp hd
    refine ⟨i, j, v, s, t, ⟨hearly, fun k hk l w he ↦ ?_, s, before, after, hs, hcs, ?_⟩, hs, ht, hd⟩
    · obtain ⟨u, hu, -⟩ := id he.consumes
      exact (findSome?_earlyUse?_eq_none_iff hu).mp (hstage k hk u hu) l w he
    · intro w hw
      exact (earlyUse?_eq_none_iff hs (hmem w (List.mem_append_left _ hw))).mp (hvalue w hw)
  · intro h
    obtain ⟨i, j, v, s, t, hfirst, hs, ht, hd⟩ := h
    obtain ⟨_, before, after, hs', hcs, hvalue⟩ := hfirst.value
    rw [hs] at hs'
    cases hs'
    have hmem (w : SharedValue) (hw : w ∈ before ++ [v]) : w ∈ s.stage.consumes := by
      rw [hcs, List.append_cons]
      exact List.mem_append_left _ hw
    refine ⟨i, s, hs, ?_, fun k hk u hu ↦ ?_⟩
    · refine List.findSome?_eq_some_iff.mpr ⟨before, v, after, hcs, ?_, fun w hw ↦ ?_⟩
      · exact (earlyUse?_eq_some_iff hs (hmem v (by simp))).mpr ⟨j, t, hfirst.early, ht, hd⟩
      · exact (earlyUse?_eq_none_iff hs (hmem w (List.mem_append_left _ hw))).mpr (hvalue w hw)
    · exact (findSome?_earlyUse?_eq_none_iff hu).mpr (hfirst.stage k hk)

theorem supplied_of_not_early (h : ∀ i j v, ¬Early stages i j v) (hc : Consumes stages i v) :
    (∀ j, ¬Produces stages j v) ∨ ∃ k ≤ i, Produces stages k v := by
  cases hp : producer? stages v with
  | none => exact .inl (producer?_eq_none_iff.mp hp)
  | some x =>
    obtain ⟨_, k⟩ := x
    obtain ⟨hprod, hfirst, -⟩ := producer?_eq_some_iff.mp hp
    refine .inr ⟨k, Nat.le_of_not_lt fun hlate ↦ ?_, hprod⟩
    exact h i k v ⟨hc, hprod, hfirst, hlate⟩

theorem mem_zeroSeededOf_iff : v ∈ zeroSeededOf stages ↔
    (∃ i, Consumes stages i v) ∧ ∀ j, ¬Produces stages j v := by
  rw [zeroSeededOf, List.mem_eraseDups, List.mem_filter, List.mem_flatMap, ← exists_consumes_iff,
    Option.isNone_iff_eq_none, producer?_eq_none_iff]

theorem mem_uses_iff : v ∈ uses stages ↔ ∃ i, Produces stages i v ∨ Consumes stages i v := by
  rw [exists_or, exists_produces_iff, exists_consumes_iff]
  simp only [uses, List.mem_flatMap, List.mem_append, and_or_left, exists_or]

theorem conveys_of_transferOf {tr : Transfer} {swapRouter : Bool}
    (h : ∀ i j v, ¬Early stages i j v) (ht : transferOf stages swapRouter = some tr) :
    tr.Conveys stages swapRouter := by
  rw [transferOf] at ht
  split at ht
  · cases ht
  · cases ht
    exact {
      layout := rfl
      shared := fun v ↦ List.mem_eraseDups.trans mem_uses_iff
      distinct := Positions.nodup_eraseDups _
      firstUse := Positions.pairwise_eraseDups _
      zero := fun v ↦ mem_zeroSeededOf_iff
      once := Positions.nodup_eraseDups _
      guard := rfl
      supplied := fun i v hc ↦ (supplied_of_not_early h hc).imp_left fun hnone ↦
        mem_zeroSeededOf_iff.mpr ⟨⟨i, hc⟩, hnone⟩ }

end Stages

theorem inOrder_stagesOf (enabled : List Feature) : InOrder enabled (stagesOf enabled) where
  perm := stagesOf_perm enabled
  sorted := pairwise_stagesOf enabled
  ties n := Sorting.filter_rank_sort (fun s : Staged ↦ s.stage.priority) (staged enabled) n

theorem stagesOf_eq_nil_iff {enabled : List Feature} :
    stagesOf enabled = [] ↔ ∀ f ∈ enabled, f.transferStage = none := by
  have hnil : stagesOf enabled = [] ↔ staged enabled = [] := by
    rw [← List.perm_nil, (stagesOf_perm enabled).congr_left, List.perm_nil]
    rfl
  rw [hnil, staged, List.filterMap_eq_nil_iff]
  simp only [Option.map_eq_none_iff]

section Acyclic

variable {enabled : List Feature} (h : checkAcyclic (stagesOf enabled) = .ok ())

include h

theorem planTransfer_eq_error_iff (swapRouter : Bool) {d : Defect} :
    planTransfer enabled swapRouter = .error d ↔ orderDefect? (stagesOf enabled) = some d := by
  rw [planTransfer, h]
  change (checkOrder _ >>= _) = _ ↔ _
  rw [checkOrder]
  cases orderDefect? (stagesOf enabled) with
  | none => simp [bind, Except.bind, pure, Except.pure]
  | some e => simp [bind, Except.bind]

theorem planTransfer_eq_ok_iff_of_acyclic (swapRouter : Bool) {t : Option Transfer} :
    planTransfer enabled swapRouter = .ok t ↔ (∀ i j v, ¬Early (stagesOf enabled) i j v) ∧
      t = transferOf (stagesOf enabled) swapRouter := by
  rw [planTransfer_eq_ok_iff, ← checkAcyclic_eq_ok_iff, and_iff_right h, orderDefect?_eq_none_iff]

/-- Stages that do not wait for each other are planned in their order, unless one takes up a value
too early. -/
theorem planned_of_acyclic (swapRouter : Bool) : TransferPlanned enabled swapRouter where
  ordered := inOrder_stagesOf enabled
  absent := by
    rw [planTransfer_eq_ok_iff_of_acyclic h, ← stagesOf_eq_nil_iff]
    constructor
    · intro hx
      by_contra hne
      have hsome := (isSome_transferOf _ swapRouter).mpr hne
      rw [← hx.2] at hsome
      cases hsome
    · intro hnil
      rw [hnil]
      refine ⟨fun i j v hearly ↦ ?_, rfl⟩
      obtain ⟨s, hs, -⟩ := hearly.consumes
      cases hs
  refused := by
    simp only [planTransfer_eq_error_iff h]
    rw [← Option.ne_none_iff_exists', ne_eq, orderDefect?_eq_none_iff]
    simp only [not_forall, not_not]
  defect d := (planTransfer_eq_error_iff h swapRouter).trans orderDefect?_eq_some_iff
  planned t ht := by
    obtain ⟨hearly, ht⟩ := (planTransfer_eq_ok_iff_of_acyclic h swapRouter).mp ht
    exact conveys_of_transferOf hearly ht.symm

end Acyclic

theorem planned_pipeline :
    checkAcyclic (stagesOf pipeline) = .ok () ∧ TransferPlanned pipeline true := by
  have hacyclic : checkAcyclic (stagesOf pipeline) = .ok () := by cbv
  exact ⟨hacyclic, planned_of_acyclic hacyclic true⟩

example : planTransfer pipeline true = .ok (some {
    stages := [("tax", 200), ("levy", 200), ("rebate", 300)]
    sharedValues := [.feeAmount, ⟨"reserve", "uint256"⟩]
    zeroSeeded := [⟨"reserve", "uint256"⟩]
    swapGuard := true }) := by
  cbv

end TokenContract
