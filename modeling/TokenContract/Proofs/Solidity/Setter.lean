import TokenContract.Solidity.Setter
import TokenContract.Proofs.Text.Lines

namespace TokenContract.Setter

open Solidity (block)
open Text (deeper joinLines tab toList_joinLines_cons_cons exists_toList_joinLines)

/-- The lines of the guard, as they stand within the setter of a name. -/
def guardLines (name : String) : List String := [
  "    bytes32 functionId = keccak256(abi.encodePacked(\"" ++ name ++ "\"));",
  "    if (timelockExpiry[functionId] == 0) \x7b",
  "        _createTimelock(functionId);",
  "        return;",
  "    \x7d",
  "    require(_timelockExpired(functionId), \"Timelock: delay not elapsed\");",
  "    delete timelockExpiry[functionId];"]

/-- A text in which the guard of a setter stands right after its head. -/
def Guarded (s : Setter) (text : String) : Prop :=
  ∃ rest, text = joinLines ((s.signature ++ " \x7b") :: guardLines s.name ++ rest)

/-- A body that does not begin like a guard. -/
def Plain (s : Setter) : Prop :=
  s.body.head?.any fun line ↦ line.toList.head?.any (· != 'b')

instance (s : Setter) : Decidable s.Plain :=
  instDecidableEqBool _ true

theorem deeper_guard (name : String) : deeper (guard name) = guardLines name := by
  have hhead : "    bytes32 functionId = keccak256(abi.encodePacked(\"" =
      tab ++ "bytes32 functionId = keccak256(abi.encodePacked(\"" := by decide +kernel
  simp only [guard, block, deeper, guardLines, List.cons_append, List.nil_append, List.map_cons,
    List.map_nil]
  refine List.cons_eq_cons.mpr ⟨?_, by decide +kernel⟩
  rw [hhead, String.append_assoc, String.append_assoc]
  rfl

theorem guarded_render (s : Setter) : s.Guarded (s.render true) := by
  refine ⟨deeper s.body ++ ["\x7d"], ?_⟩
  rw [← deeper_guard]
  simp [render, lines, block, deeper]

theorem exists_guard (name : String) :
    ∃ g gs cs, guard name = g :: gs ∧ g.toList = 'b' :: cs := by
  have hword : "bytes32 functionId = keccak256(abi.encodePacked(\"".toList.head? = some 'b' := by
    decide +kernel
  obtain ⟨cs, hcs⟩ := List.head?_eq_some_iff.mp hword
  refine ⟨_, _, cs ++ name.toList ++ "\"));".toList, rfl, ?_⟩
  rw [String.toList_append, String.toList_append]
  change "bytes32 functionId = keccak256(abi.encodePacked(\"".toList ++ _ ++ _ = _
  rw [hcs]
  rfl

theorem not_guarded_render {s : Setter} (h : s.Plain) : ¬s.Guarded (s.render false) := by
  obtain ⟨line, hline, hch⟩ := (Option.any_eq_true _ _).mp h
  obtain ⟨ch, hch, hne⟩ := (Option.any_eq_true _ _).mp hch
  obtain ⟨ls, hbody⟩ := List.head?_eq_some_iff.mp hline
  obtain ⟨cs, hcs⟩ := List.head?_eq_some_iff.mp hch
  intro hg
  obtain ⟨rest, htext⟩ := hg
  rw [← deeper_guard] at htext
  have hrender : s.render false =
      joinLines ((s.signature ++ " \x7b") :: (tab ++ line) :: (deeper ls ++ ["\x7d"])) := by
    simp [render, lines, block, deeper, hbody]
  obtain ⟨g, gs, ds, hguard, hds⟩ := exists_guard s.name
  have hlist := congrArg String.toList (hrender.symm.trans htext)
  rw [hguard] at hlist
  simp only [deeper, List.map_cons, List.cons_append] at hlist
  rw [toList_joinLines_cons_cons, toList_joinLines_cons_cons, List.append_cancel_left_eq,
    List.cons.injEq] at hlist
  obtain ⟨t, ht⟩ := exists_toList_joinLines (tab ++ line) (deeper ls ++ ["\x7d"])
  obtain ⟨u, hu⟩ := exists_toList_joinLines (tab ++ g) (gs.map (tab ++ ·) ++ rest)
  have hlines := hlist.2
  simp only [deeper] at ht
  rw [ht, hu] at hlines
  simp only [String.toList_append, List.append_assoc, List.append_cancel_left_eq, hcs, hds] at hlines
  injection hlines with hb
  simp [hb] at hne

theorem guarded_render_iff {s : Setter} (h : s.Plain) {timelocked : Bool} :
    s.Guarded (s.render timelocked) ↔ timelocked := by
  cases timelocked with
  | false => simpa using not_guarded_render h
  | true => simpa using guarded_render s

theorem plain_of_mem_inherited : ∀ s ∈ inherited, s.Plain := by
  decide +kernel

end TokenContract.Setter
