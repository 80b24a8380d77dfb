import TokenContract.Plan.Graph
import Mathlib.Data.Fintype.EquivFin
import Mathlib.Data.List.Perm.Subperm
import Mathlib.Logic.Relation

namespace TokenContract.Graph

open Relation

variable {g : Graph} {s t : State} {taken : List Nat} {p c i : Nat} {cs : List Nat}

def Leads (g : Graph) (p c : Nat) : Prop :=
  p < g.size ∧ c < g.size ∧ g.edge p c

/-- A node on a cycle or behind one. -/
def Stuck (g : Graph) (c : Nat) : Prop :=
  ∃ i, TransGen g.Leads i i ∧ ReflTransGen g.Leads i c

/-- The states to which it leads to take out any ready nodes, the last one first. -/
inductive Reaches (g : Graph) : List Nat → State → Prop
  | start : g.Reaches [] g.start
  | takeOut {taken : List Nat} {s : State} {p : Nat} (h : g.Reaches taken s) (hp : p ∈ s.ready) :
    g.Reaches (p :: taken) (g.takeOut s p)

def leading (g : Graph) (taken : List Nat) (c : Nat) : List Nat :=
  g.nodes.filter fun p ↦ g.edge p c && decide (p ∉ taken)

theorem mem_nodes_iff : c ∈ g.nodes ↔ c < g.size :=
  List.mem_range

theorem mem_leading_iff :
    p ∈ g.leading taken c ↔ p < g.size ∧ g.edge p c ∧ p ∉ taken := by
  simp [leading, mem_nodes_iff]

theorem mem_successors_iff : c ∈ g.successors p ↔ c < g.size ∧ g.edge p c := by
  simp [successors, mem_nodes_iff]

theorem nodup_successors (g : Graph) (p : Nat) : (g.successors p).Nodup :=
  List.nodup_range.filter _

theorem inDegree_eq (g : Graph) (c : Nat) : g.inDegree c = (g.leading [] c).length := by
  simp [inDegree, leading, List.countP_eq_length_filter]

theorem leading_cons (g : Graph) (taken : List Nat) (p c : Nat) :
    g.leading (p :: taken) c = (g.leading taken c).erase p := by
  have hd : (g.leading taken c).Nodup := List.nodup_range.filter _
  rw [hd.erase_eq_filter, leading, leading, List.filter_filter]
  refine List.filter_congr fun q _ ↦ ?_
  by_cases hq : q = p
  · simp [hq]
  · simp [hq]

theorem length_leading_cons (hp : p < g.size) (hnew : p ∉ taken) :
    (g.leading (p :: taken) c).length =
      if g.edge p c then (g.leading taken c).length - 1 else (g.leading taken c).length := by
  rw [leading_cons]
  split
  · rename_i he
    exact List.length_erase_of_mem (mem_leading_iff.mpr ⟨hp, he, hnew⟩)
  · rename_i he
    rw [List.erase_of_not_mem fun hm ↦ he (mem_leading_iff.mp hm).2.1]

section Release

theorem waits_foldl_release (hcs : cs.Nodup) :
    (cs.foldl State.release s).waits i = if i ∈ cs then s.waits i - 1 else s.waits i := by
  induction cs generalizing s with
  | nil => simp
  | cons c cs ih =>
    obtain ⟨hc, hcs⟩ := List.nodup_cons.mp hcs
    rw [List.foldl_cons, ih hcs]
    by_cases hi : i = c
    · subst hi
      simp [hc, State.release]
    · simp [hi, State.release]

theorem mem_ready_foldl_release (hcs : cs.Nodup) :
    i ∈ (cs.foldl State.release s).ready ↔ i ∈ s.ready ∨ i ∈ cs ∧ s.waits i - 1 = 0 := by
  induction cs generalizing s with
  | nil => simp
  | cons c cs ih =>
    obtain ⟨hc, hcs⟩ := List.nodup_cons.mp hcs
    have hready : i ∈ (s.release c).ready ↔ i ∈ s.ready ∨ i = c ∧ s.waits i - 1 = 0 := by
      unfold State.release
      dsimp only
      split
      · rename_i hz
        rw [List.mem_cons, or_comm]
        refine or_congr_right ⟨fun he ↦ ?_, And.left⟩
        subst he
        exact ⟨rfl, hz⟩
      · rename_i hz
        refine ⟨.inl, fun h ↦ h.resolve_right fun ⟨he, hw⟩ ↦ ?_⟩
        subst he
        exact hz hw
    have hwaits : i ∈ cs → (s.release c).waits i = s.waits i := fun hi ↦
      if_neg fun (he : i = c) ↦ hc (he ▸ hi)
    rw [List.foldl_cons, ih hcs, hready, List.mem_cons]
    constructor
    · intro h
      rcases h with (h | h) | ⟨hi, hw⟩
      · exact .inl h
      · exact .inr ⟨.inl h.1, h.2⟩
      · exact .inr ⟨.inr hi, hwaits hi ▸ hw⟩
    · intro h
      rcases h with h | ⟨hi | hi, hw⟩
      · exact .inl (.inl h)
      · exact .inl (.inr ⟨hi, hw⟩)
      · exact .inr ⟨hi, (hwaits hi).symm ▸ hw⟩

theorem nodup_ready_foldl_release (hcs : cs.Nodup) (hs : s.ready.Nodup)
    (hnew : ∀ c ∈ cs, c ∉ s.ready) : (cs.foldl State.release s).ready.Nodup := by
  induction cs generalizing s with
  | nil => exact hs
  | cons c cs ih =>
    obtain ⟨hc, hcs⟩ := List.nodup_cons.mp hcs
    rw [List.foldl_cons]
    refine ih hcs ?_ fun d hd hm ↦ ?_
    · unfold State.release
      dsimp only
      split
      · exact List.nodup_cons.mpr ⟨hnew c List.mem_cons_self, hs⟩
      · exact hs
    · have hds := hnew d (List.mem_cons_of_mem c hd)
      unfold State.release at hm
      dsimp only at hm
      split at hm
      · rcases List.mem_cons.mp hm with rfl | hm
        · exact hc hd
        · exact hds hm
      · exact hds hm

end Release

/-- Nodes that can be taken out, the last one first: each comes after all that lead to it. -/
def Removable (g : Graph) : List Nat → Prop
  | [] => True
  | c :: cs => (c < g.size ∧ c ∉ cs ∧ ∀ p < g.size, g.edge p c → p ∈ cs) ∧ g.Removable cs

theorem Removable.lt (h : g.Removable taken) : ∀ c ∈ taken, c < g.size := by
  induction taken with
  | nil => exact fun _ hc ↦ absurd hc List.not_mem_nil
  | cons c cs ih => exact List.forall_mem_cons.mpr ⟨h.1.1, ih h.2⟩

theorem Removable.nodup (h : g.Removable taken) : taken.Nodup := by
  induction taken with
  | nil => exact .nil
  | cons c cs ih => exact List.nodup_cons.mpr ⟨h.1.2.1, ih h.2⟩

theorem Removable.subset (h : g.Removable taken) : taken ⊆ g.nodes :=
  fun c hc ↦ mem_nodes_iff.mpr (h.lt c hc)

theorem Removable.closed (h : g.Removable taken) (hc : c ∈ taken) (hp : p < g.size)
    (he : g.edge p c) : p ∈ taken := by
  induction taken with
  | nil => exact absurd hc List.not_mem_nil
  | cons d ds ih =>
    rcases List.mem_cons.mp hc with rfl | hc
    · exact List.mem_cons_of_mem _ (h.1.2.2 p hp he)
    · exact List.mem_cons_of_mem _ (ih h.2 hc)

theorem Removable.length_le (h : g.Removable taken) : taken.length ≤ g.size := by
  have hle := (List.subperm_of_subset h.nodup h.subset).length_le
  rwa [nodes, List.length_range] at hle

theorem Removable.mem_of_length (h : g.Removable taken) (hlength : g.size ≤ taken.length)
    (hc : c < g.size) : c ∈ taken := by
  have hsub := List.subperm_of_subset h.nodup h.subset
  have hperm := hsub.perm_of_length_le (by rwa [nodes, List.length_range])
  exact hperm.mem_iff.mpr (mem_nodes_iff.mpr hc)

theorem Removable.not_cycle (h : g.Removable taken) (hc : c ∈ taken) : ¬TransGen g.Leads c c := by
  induction taken generalizing c with
  | nil => exact absurd hc List.not_mem_nil
  | cons d ds ih =>
    intro hcycle
    rcases List.mem_cons.mp hc with rfl | hc
    · obtain ⟨p, hpath, hlead⟩ := TransGen.tail'_iff.mp hcycle
      exact ih h.2 (h.1.2.2 p hlead.1 hlead.2.2) (.head' hlead hpath)
    · exact ih h.2 hc hcycle

theorem Removable.mem_of_path (h : g.Removable taken) (hpath : ReflTransGen g.Leads i c)
    (hc : c ∈ taken) : i ∈ taken := by
  induction hpath with
  | refl => exact hc
  | tail _ hlead ih => exact ih (h.closed hc hlead.1 hlead.2.2)

theorem Stuck.lt (h : g.Stuck c) : c < g.size := by
  obtain ⟨i, hcycle, hpath⟩ := h
  obtain ⟨p, -, hlead⟩ := TransGen.tail'_iff.mp (hcycle.trans_left hpath)
  exact hlead.2.1

/-- A path between two nodes on the way to a third. -/
def Before (g : Graph) (c : Nat) (p q : Fin g.size) : Prop :=
  TransGen g.Leads p q ∧ ReflTransGen g.Leads q c

theorem wellFounded_before (hfree : ¬g.Stuck c) : WellFounded (g.Before c) := by
  have : IsTrans (Fin g.size) (g.Before c) := ⟨fun _ _ _ h h' ↦ ⟨h.1.trans h'.1, h'.2⟩⟩
  have : Std.Irrefl (g.Before c) := ⟨fun p h ↦ hfree ⟨p, h⟩⟩
  exact Finite.wellFounded_of_trans_of_irrefl (g.Before c)

/-- What holds of a state after some nodes were taken out. -/
structure Cleared (g : Graph) (taken : List Nat) (s : State) : Prop where
  removable : g.Removable taken
  waits : ∀ c < g.size, s.waits c = (g.leading taken c).length
  ready : ∀ c, c ∈ s.ready ↔ c < g.size ∧ c ∉ taken ∧ s.waits c = 0
  distinct : s.ready.Nodup

theorem cleared_start (g : Graph) : g.Cleared [] g.start where
  removable := trivial
  waits c _ := g.inDegree_eq c
  ready c := by simp [start, mem_nodes_iff]
  distinct := List.nodup_range.filter _

theorem Cleared.waits_pos (h : g.Cleared taken s) (hp : p ∈ s.ready) (hc : c ∈ g.successors p) :
    0 < s.waits c := by
  obtain ⟨hlt, hnew, -⟩ := (h.ready p).mp hp
  obtain ⟨hc, he⟩ := mem_successors_iff.mp hc
  rw [h.waits c hc]
  exact List.length_pos_of_mem (mem_leading_iff.mpr ⟨hlt, he, hnew⟩)

theorem Cleared.release_pos {before after : List Nat} (h : g.Cleared taken s) (hp : p ∈ s.ready)
    (hcs : g.successors p = before ++ c :: after) :
    0 < (before.foldl State.release { s with ready := s.ready.erase p }).waits c := by
  have hd := hcs ▸ g.nodup_successors p
  have hnot : c ∉ before := fun hm ↦
    List.disjoint_of_nodup_append hd hm List.mem_cons_self
  rw [waits_foldl_release hd.of_append_left, if_neg hnot]
  exact h.waits_pos hp (hcs ▸ List.mem_append_right _ List.mem_cons_self)

theorem Cleared.takeOut (h : g.Cleared taken s) (hp : p ∈ s.ready) :
    g.Cleared (p :: taken) (g.takeOut s p) := by
  obtain ⟨hlt, hnew, hzero⟩ := (h.ready p).mp hp
  have hnone : g.leading taken p = [] :=
    List.length_eq_zero_iff.mp ((h.waits p hlt).symm.trans hzero)
  have hwaits : ∀ c < g.size,
      (g.takeOut s p).waits c = (g.leading (p :: taken) c).length := fun c hc ↦ by
    rw [length_leading_cons hlt hnew, Graph.takeOut, waits_foldl_release (g.nodup_successors p)]
    simp only [mem_successors_iff, hc, true_and, h.waits c hc]
  -- Whatever `p` leads to waited at least for `p`, so it was not ready before.
  have hbusy : ∀ c ∈ g.successors p, 0 < s.waits c := fun c hc ↦ h.waits_pos hp hc
  refine ⟨⟨⟨hlt, hnew, fun q hq he ↦ ?_⟩, h.removable⟩, hwaits, fun c ↦ ?_, ?_⟩
  · by_contra hm
    exact List.not_mem_nil (hnone ▸ mem_leading_iff.mpr ⟨hq, he, hm⟩)
  · rw [Graph.takeOut, mem_ready_foldl_release (g.nodup_successors p),
      waits_foldl_release (g.nodup_successors p), h.distinct.mem_erase_iff, h.ready, List.mem_cons,
      not_or]
    constructor
    · intro hc
      rcases hc with ⟨hne, hc, hct, hz⟩ | ⟨hc, hz⟩
      · refine ⟨hc, ⟨hne, hct⟩, ?_⟩
        rw [if_neg fun hm ↦ Nat.ne_of_gt (hbusy c hm) hz, hz]
      · have hclt := (mem_successors_iff.mp hc).1
        have hpos := hbusy c hc
        have he := (mem_successors_iff.mp hc).2
        refine ⟨hclt, ⟨?_, fun hm ↦ hnew (h.removable.closed hm hlt he)⟩, ?_⟩
        · intro he
          subst he
          omega
        · rw [if_pos hc, hz]
    · intro hc
      obtain ⟨hclt, ⟨hne, hct⟩, hz⟩ := hc
      by_cases hm : c ∈ g.successors p
      · rw [if_pos hm] at hz
        exact .inr ⟨hm, hz⟩
      · rw [if_neg hm] at hz
        exact .inl ⟨hne, hclt, hct, hz⟩
  · refine nodup_ready_foldl_release (g.nodup_successors p) (h.distinct.erase p) fun c hc hm ↦ ?_
    have hz := ((h.ready c).mp (List.mem_of_mem_erase hm)).2.2
    exact Nat.ne_of_gt (hbusy c hc) hz

theorem Reaches.cleared (h : g.Reaches taken s) : g.Cleared taken s := by
  induction h with
  | start => exact g.cleared_start
  | takeOut _ hp ih => exact ih.takeOut hp

theorem Reaches.length_le (h : g.Reaches taken s) : taken.length ≤ g.size :=
  h.cleared.removable.length_le

section Ended

variable (h : g.Cleared taken s) (hend : s.ready = [])

include h hend

theorem Cleared.mem_taken_iff (hc : c < g.size) : c ∈ taken ↔ s.waits c = 0 := by
  constructor
  · intro hm
    rw [h.waits c hc, List.length_eq_zero_iff, List.eq_nil_iff_forall_not_mem]
    intro p hp
    obtain ⟨hlt, he, hnot⟩ := mem_leading_iff.mp hp
    exact hnot (h.removable.closed hm hlt he)
  · intro hz
    by_contra hm
    exact List.not_mem_nil (hend ▸ (h.ready c).mpr ⟨hc, hm, hz⟩)

theorem Cleared.mem_taken_of_forall (hc : c < g.size) (hall : ∀ p, g.Leads p c → p ∈ taken) :
    c ∈ taken := by
  rw [h.mem_taken_iff hend hc, h.waits c hc, List.length_eq_zero_iff,
    List.eq_nil_iff_forall_not_mem]
  intro p hp
  obtain ⟨hlt, he, hm⟩ := mem_leading_iff.mp hp
  exact hm (hall p ⟨hlt, hc, he⟩)

theorem Cleared.mem_taken_of_not_stuck (hc : c < g.size) (hfree : ¬g.Stuck c) : c ∈ taken := by
  have hall (p : Fin g.size) (hp : ReflTransGen g.Leads p c) : p.1 ∈ taken := by
    induction p using (wellFounded_before hfree).induction with
    | _ p ih =>
      refine h.mem_taken_of_forall hend p.2 fun q hlead ↦ ?_
      exact ih ⟨q, hlead.1⟩ ⟨.single hlead, hp⟩ (.head hlead hp)
  exact hall ⟨c, hc⟩ .refl

theorem Cleared.stuck_iff : g.Stuck c ↔ c ∈ g.waiting s := by
  rw [waiting, List.mem_filter, mem_nodes_iff, decide_eq_true_eq, Nat.pos_iff_ne_zero]
  constructor
  · intro hstuck
    refine ⟨hstuck.lt, fun hz ↦ ?_⟩
    obtain ⟨i, hcycle, hpath⟩ := hstuck
    have hm := (h.mem_taken_iff hend (Stuck.lt ⟨i, hcycle, hpath⟩)).mpr hz
    exact h.removable.not_cycle (h.removable.mem_of_path hpath hm) hcycle
  · intro hx
    obtain ⟨hc, hne⟩ := hx
    by_contra hfree
    exact hne ((h.mem_taken_iff hend hc).mp (h.mem_taken_of_not_stuck hend hc hfree))

theorem Cleared.length_eq_iff : taken.length = g.size ↔ g.waiting s = [] := by
  rw [waiting, List.filter_eq_nil_iff]
  constructor
  · intro hlength c hc
    have hm := h.removable.mem_of_length (Nat.le_of_eq hlength.symm) (mem_nodes_iff.mp hc)
    simp [(h.mem_taken_iff hend (mem_nodes_iff.mp hc)).mp hm]
  · intro hnone
    refine Nat.le_antisymm h.removable.length_le ?_
    have hsub : g.nodes ⊆ taken := fun c hc ↦ by
      have hz : s.waits c = 0 := by simpa using hnone c hc
      exact (h.mem_taken_iff hend (mem_nodes_iff.mp hc)).mpr hz
    have hle := (List.subperm_of_subset List.nodup_range hsub).length_le
    rwa [List.length_range] at hle

end Ended

theorem Cleared.waiting_eq {more : List Nat} (h : g.Cleared taken s) (hend : s.ready = [])
    (h' : g.Cleared more t) (hend' : t.ready = []) : g.waiting s = g.waiting t := by
  rw [waiting, waiting]
  refine List.filter_congr fun c hc ↦ ?_
  have hiff := (h.stuck_iff hend (c := c)).symm.trans (h'.stuck_iff hend')
  simpa [waiting, hc] using hiff

theorem Reaches.exists_run (h : g.Reaches taken s) (n : Nat) : ∃ all, g.Reaches all (g.run n s) ∧
    ((g.run n s).ready = [] ∨ all.length = taken.length + n) := by
  induction n generalizing taken s with
  | zero => exact ⟨taken, h, .inr rfl⟩
  | succ n ih =>
    rw [run]
    split
    · rename_i hnil
      exact ⟨taken, h, .inl hnil⟩
    · rename_i p ps hready
      have hp : p ∈ s.ready := hready ▸ List.mem_cons_self
      obtain ⟨all, hall, hend⟩ := ih (h.takeOut hp)
      refine ⟨all, hall, hend.imp_right fun hlength ↦ ?_⟩
      rw [hlength, List.length_cons]
      omega

theorem exists_reaches_run (g : Graph) :
    ∃ taken, g.Reaches taken (g.run g.size g.start) ∧ (g.run g.size g.start).ready = [] := by
  obtain ⟨taken, h, hend⟩ := Reaches.start.exists_run g.size
  refine ⟨taken, h, hend.elim id fun hlength ↦ ?_⟩
  rw [List.length_nil, Nat.zero_add] at hlength
  refine List.eq_nil_iff_forall_not_mem.mpr fun c hc ↦ ?_
  obtain ⟨hlt, hm, -⟩ := (h.cleared.ready c).mp hc
  exact hm (h.cleared.removable.mem_of_length (Nat.le_of_eq hlength.symm) hlt)

theorem mem_tangled_iff : c ∈ g.tangled ↔ g.Stuck c := by
  obtain ⟨taken, h, hend⟩ := g.exists_reaches_run
  exact (h.cleared.stuck_iff hend).symm

theorem path_lt (h : ∀ p c, g.edge p c → p < c) (hpath : TransGen g.Leads p c) : p < c := by
  induction hpath with
  | single hlead => exact h _ _ hlead.2.2
  | tail _ hlead ih => exact ih.trans (h _ _ hlead.2.2)

theorem tangled_eq_nil (h : ∀ p c, g.edge p c → p < c) : g.tangled = [] := by
  refine List.eq_nil_iff_forall_not_mem.mpr fun c hc ↦ ?_
  obtain ⟨i, hcycle, -⟩ := mem_tangled_iff.mp hc
  exact Nat.lt_irrefl i (path_lt h hcycle)

end TokenContract.Graph
