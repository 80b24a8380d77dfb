import TokenContract.Proofs.Source.Outline
import TokenContract.Proofs.Source.Parts
import TokenContract.Proofs.Text.Inset

namespace TokenContract

open Text
open Solidity (block importOf literal mem_spaced)

theorem Solidity.head?_importOf (path : String) : (importOf path).toList.head? = some 'i' := by
  have himport : "import \"".toList.head? = some 'i' := rfl
  rw [importOf, String.append_assoc, String.toList_append, List.head?_append, himport]
  rfl

namespace Assembly

variable {a : Assembly}

theorem inset_of_mem_members (a : Assembly) {hook : Hook} (hhook : hook ≠ .imports) :
    ∀ m ∈ a.members hook, ∀ l ∈ m, Inset l := by
  have hlevel : 0 < hook.level := by
    cases hook with
    | imports => exact absurd rfl hhook
    | state | construction | transfer | admin | helpers => decide
  intro m hm
  obtain ⟨t, -, rfl⟩ := List.mem_map.mp hm
  exact inset_of_mem_indent hlevel

theorem inset_of_mem_spaced {ps : List (List String)} (h : ∀ p ∈ ps, ∀ l ∈ p, Inset l) :
    ∀ l ∈ Solidity.spaced ps, Inset l := by
  intro l hl
  rcases mem_spaced hl with rfl | ⟨p, hp, hl⟩
  · exact inset_empty
  · exact h p hp l hl

theorem inset_close : Inset (tab ++ "\x7d") :=
  inset_tab (notMem_of_eq rfl (by decide))

theorem inset_of_mem_constructor (h : a.header.Feedless) : ∀ l ∈ a.constructor, Inset l := by
  have hbody : ∀ l ∈ a.constructorBody, Inset l := by
    intro l hl
    rw [constructorBody] at hl
    split at hl
    · exact absurd hl List.not_mem_nil
    · exact inset_of_mem_spaced (a.inset_of_mem_members (by decide)) l hl
  have hhead : Inset a.header.constructorLine := by
    have hline := (Header.isLine_constructorLine h.tokenName h.tokenSymbol).1
    rw [Header.constructorLine] at hline ⊢
    simp only [String.append_assoc] at hline ⊢
    exact inset_tab (notMem_append.mp hline).2
  have hmint : Inset a.header.mintLine := by
    have hline := (Header.isLine_mintLine h.supply).1
    rw [Header.mintLine, String.append_assoc] at hline ⊢
    exact inset_tab (notMem_append.mp hline).2
  intro l hl
  rw [constructor, List.cons_append, List.cons_append, List.mem_cons, List.mem_cons,
    List.mem_append] at hl
  rcases hl with rfl | rfl | hl | hl
  · exact hhead
  · exact hmint
  · split at hl
    · exact absurd hl List.not_mem_nil
    · rcases List.mem_cons.mp hl with rfl | hl
      · exact inset_empty
      · exact hbody l hl
  · rw [List.mem_singleton.mp hl]
    exact inset_close

theorem inset_of_mem_decimalsMember (a : Assembly) :
    ∀ m ∈ a.header.decimalsMember, ∀ l ∈ m, Inset l := by
  intro m hm l hl
  have hline := (a.isLine_of_mem_decimalsMember m hm l hl).1
  rw [Header.decimalsMember] at hm
  split at hm
  · exact absurd hm List.not_mem_nil
  · obtain rfl := List.mem_singleton.mp hm
    obtain ⟨k, -, rfl⟩ := List.mem_map.mp hl
    exact inset_tab (notMem_append.mp hline).2

theorem inset_of_mem_transferMember (a : Assembly) :
    ∀ m ∈ a.transferMember, ∀ l ∈ m, Inset l := by
  have hlevel : 0 < Hook.transfer.level := by decide
  have hguard : ∀ l ∈ a.transferGuard, '\n' ∉ l.toList := by
    rw [transferGuard_eq]
    cases a.frame.swapGuard with
    | true => decide +kernel
    | false => decide +kernel
  have hdeclarations : ∀ m ∈ a.declarations, ∀ l ∈ m, Inset l := by
    intro m hm
    rw [declarations] at hm
    split at hm
    · exact absurd hm List.not_mem_nil
    · obtain rfl := List.mem_singleton.mp hm
      exact inset_of_mem_indent hlevel
  rw [transferMember]
  split
  · exact fun m hm ↦ absurd hm List.not_mem_nil
  · intro m hm l hl
    obtain rfl := List.mem_singleton.mp hm
    rw [List.cons_append, List.mem_cons, List.mem_append, List.mem_singleton] at hl
    rcases hl with rfl | hl | rfl
    · exact inset_tab (notMem_of_eq rfl (by decide))
    · refine inset_of_mem_spaced (fun p hp ↦ ?_) l hl
      simp only [List.mem_append, List.mem_singleton] at hp
      rcases hp with ((rfl | hp) | hp) | rfl
      · intro l hl
        obtain ⟨k, hk, rfl⟩ := List.mem_map.mp hl
        exact inset_padLine hlevel (hguard k hk)
      · exact hdeclarations p hp
      · exact a.inset_of_mem_members (by decide) p hp
      · intro l hl
        obtain rfl := List.mem_singleton.mp hl
        exact inset_padLine hlevel (notMem_of_eq rfl (by decide))
    · exact inset_close

theorem inset_of_mem_body (h : a.header.Feedless) : ∀ m ∈ a.body, ∀ l ∈ m, Inset l := by
  intro m hm
  simp only [body, List.mem_append, List.mem_singleton] at hm
  rcases hm with ((((hm | rfl) | hm) | hm) | hm) | hm
  · exact a.inset_of_mem_members (by decide) m hm
  · exact inset_of_mem_constructor h
  · exact a.inset_of_mem_decimalsMember m hm
  · exact a.inset_of_mem_transferMember m hm
  · exact a.inset_of_mem_members (by decide) m hm
  · exact a.inset_of_mem_members (by decide) m hm

theorem importOf_mem_lines_iff (h : a.header.Feedless) (path : String) :
    importOf path ∈ Text.lines a.sourceText ↔
      importOf path ∈ Text.lines ("// SPDX-License-Identifier: " ++ a.header.license ++ "\n") ∨
        importOf path ∈ a.imports := by
  have hhead := Solidity.head?_importOf path
  have hfront : Text.lines (endLines a.front) =
      Text.lines ("// SPDX-License-Identifier: " ++ a.header.license ++ "\n") ++
        (languageVersion :: "" :: a.imports ++ [""]) := by
    have hlines : ∀ l ∈ languageVersion :: "" :: a.imports ++ [""], IsLine l.toList := by
      simp only [List.cons_append, List.forall_mem_cons, List.forall_mem_append, List.not_mem_nil,
        false_imp_iff, implies_true, and_true]
      exact ⟨isLine_of_eq rfl (by decide), by decide, a.isLine_of_mem_imports, by decide⟩
    have hcons : a.front = ("// SPDX-License-Identifier: " ++ a.header.license) ::
        (languageVersion :: "" :: a.imports ++ [""]) := rfl
    rw [hcons, lines_endLines_cons, endLines_singleton, lines_endLines hlines]
  -- What follows the imports begins otherwise, whatever its lines are read as.
  have hrest : importOf path ∉
      Text.lines (endLines (a.header.contractLine :: Solidity.spaced a.body ++ ["\x7d"])) := by
    intro hl
    have hplain : ∀ m ∈ a.header.contractLine :: Solidity.spaced a.body ++ ["\x7d"],
        '\n' ∉ m.toList ∧ m.toList.head? ≠ some 'i' := by
      simp only [List.cons_append, List.forall_mem_cons, List.forall_mem_append]
      refine ⟨⟨(Header.isLine_contractLine h.contractName).1, ?_⟩, fun m hm ↦ ?_, by decide⟩
      · have hword : "contract ".toList.head? = some 'c' := rfl
        change ("contract " ++ a.header.contractName ++ " is ERC20, Ownable \x7b").toList.head? ≠ _
        rw [String.append_assoc, String.toList_append, List.head?_append, hword, Option.some_or]
        decide
      · have hinset := inset_of_mem_spaced (inset_of_mem_body h) m hm
        exact ⟨hinset.feedless, fun hm ↦ absurd (hinset.front _ hm) (by decide)⟩
    obtain ⟨m, hm, cs, hcs⟩ := exists_prefix_of_mem_lines_endLines (fun m hm ↦ (hplain m hm).1) hl
    refine (hplain m hm).2 ?_
    rw [← hcs, List.head?_append, hhead, Option.some_or]
  have hnot : importOf path ≠ languageVersion ∧ importOf path ≠ "" := by
    refine ⟨fun he ↦ ?_, fun he ↦ ?_⟩
    · rw [he] at hhead
      exact absurd hhead (by decide)
    · rw [he] at hhead
      cases hhead
  have htext : a.sourceText = endLines a.lines := rfl
  rw [htext, lines_eq_front, List.append_assoc, lines_endLines_append, hfront, List.mem_append,
    or_iff_left hrest, List.mem_append, List.mem_append, List.mem_cons, List.mem_cons,
    or_iff_right hnot.1, or_iff_right hnot.2, List.mem_singleton, or_iff_left hnot.2]

end Assembly

end TokenContract
