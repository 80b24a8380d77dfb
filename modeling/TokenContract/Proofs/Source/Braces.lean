import TokenContract.Proofs.Solidity.Braces
import TokenContract.Proofs.Source.Parts

namespace TokenContract.Assembly

open Text
open Solidity

/-- Parts whose braces are balanced one by one; before the contract there are none. -/
structure Braced (a : Assembly) : Prop where
  header : ∀ t ∈ [a.header.license, a.header.contractName, a.header.tokenName, a.header.tokenSymbol,
    a.header.supply], sift isBrace t = []
  imports : ∀ t ∈ a.textsAt .imports, sift isBrace t = []
  fragments : ∀ x ∈ a.fragments, Balanced (sift isBrace x.text)

def opening (a : Assembly) : String :=
  endLines a.front ++ "contract " ++ a.header.contractName ++ " is ERC20, Ownable "

/-- A text whose braces are those of a contract and its members: one pair that all members are in, and
each member begins and ends where only the first brace of that pair is open. -/
structure Nested (a : Assembly) (text : String) : Prop where
  balanced : Balanced text.toList
  inside : ∃ inner, text = a.opening ++ "\x7b" ++ inner ++ "\x7d\n" ∧
    ∀ ds, ds <+: inner.toList → 1 ≤ depth (a.opening.toList ++ '{' :: ds)
  members : ∀ ps q qs, a.body = ps ++ q :: qs →
    text = a.before ps ++ endLines q ++ after qs ∧
      depth (a.before ps).toList = 1 ∧ depth (a.before ps ++ endLines q).toList = 1

variable {a : Assembly}

theorem sift_of_mem_imports (h : a.Braced) : ∀ l ∈ a.imports, sift isBrace l = [] := by
  have hbase : ∀ l ∈ baseImports, sift isBrace l = [] := by
    simp (disch := rfl) [baseImports, importOf, sift_of_eq, isBrace]
  intro l hl
  rw [imports, List.mem_eraseDups, List.mem_append] at hl
  rcases hl with hl | hl
  · exact hbase l hl
  · obtain ⟨m, hm, rfl⟩ := List.mem_map.mp (List.mem_of_mem_filter hl)
    obtain ⟨t, ht, hm⟩ := List.mem_flatMap.mp hm
    have ht := h.imports t ht
    rw [← siftAll_lines, siftAll, List.flatMap_eq_nil_iff] at ht
    exact sift_trim (ht m hm)

theorem siftAll_front (h : a.Braced) : siftAll isBrace a.front = [] := by
  have himports : siftAll isBrace a.imports = [] :=
    List.flatMap_eq_nil_iff.mpr (sift_of_mem_imports h)
  have hlicense := h.header a.header.license (by simp)
  have hmark : sift isBrace "// SPDX-License-Identifier: " = [] := sift_of_eq rfl
  have hversion : sift isBrace languageVersion = [] := sift_of_eq rfl
  simp [front, himports, hlicense, hmark, hversion]

theorem sift_opening (h : a.Braced) : sift isBrace a.opening = [] := by
  have hname := h.header a.header.contractName (by simp)
  have hcontract : sift isBrace "contract " = [] := sift_of_eq rfl
  have hbases : sift isBrace " is ERC20, Ownable " = [] := sift_of_eq rfl
  simp [opening, siftAll_front h, hname, hcontract, hbases]

theorem sift_contractLine (h : a.Braced) : sift isBrace a.header.contractLine = ['{'] := by
  have hname := h.header a.header.contractName (by simp)
  have hcontract : sift isBrace "contract " = [] := sift_of_eq rfl
  have hbases : sift isBrace " is ERC20, Ownable \x7b" = ['{'] := sift_of_eq rfl
  simp [Header.contractLine, hname, hcontract, hbases]

theorem balanced_of_mem_members (h : a.Braced) (hook : Hook) :
    ∀ m ∈ a.members hook, Balanced (siftAll isBrace m) := by
  intro m hm
  obtain ⟨t, ht, rfl⟩ := List.mem_map.mp hm
  obtain ⟨x, hx, rfl⟩ := List.mem_map.mp ht
  rw [siftAll_indent]
  exact h.fragments x (List.mem_of_mem_filter hx)

theorem siftAll_constructorBody (a : Assembly) :
    siftAll isBrace a.constructorBody = (a.members .construction).flatMap (siftAll isBrace) := by
  rw [← siftAll_spaced, constructorBody]
  split
  · rename_i hlone
    rw [hlone]
    simp
  · rfl

theorem sift_literal (s : String) : sift isBrace (literal s) = sift isBrace s := by
  have hquote : sift isBrace "\"" = [] := sift_of_eq rfl
  have hmark : sift isBrace "unicode\"" = [] := sift_of_eq rfl
  rw [literal]
  split
  · simp [hquote]
  · simp [hquote, hmark]

theorem balanced_constructor (h : a.Braced) : Balanced (siftAll isBrace a.constructor) := by
  have hname := h.header a.header.tokenName (by simp)
  have hsymbol := h.header a.header.tokenSymbol (by simp)
  have hsupply := h.header a.header.supply (by simp)
  have hline : sift isBrace a.header.constructorLine = ['{'] := by
    have hhead : sift isBrace "constructor() ERC20(" = [] := sift_of_eq rfl
    have hcomma : sift isBrace ", \"" = [] := sift_of_eq rfl
    have hend : sift isBrace "\") \x7b" = ['{'] := sift_of_eq rfl
    simp [Header.constructorLine, sift_literal, hhead, hname, hcomma, hsymbol, hend]
  have hmint : sift isBrace a.header.mintLine = [] := by
    have hhead : sift isBrace "_mint(msg.sender, " = [] := sift_of_eq rfl
    have hend : sift isBrace ");" = [] := sift_of_eq rfl
    simp [Header.mintLine, hhead, hsupply, hend]
  have hbody : siftAll isBrace (if a.constructorBody = [] then [] else "" :: a.constructorBody) =
      (a.members .construction).flatMap (siftAll isBrace) := by
    rw [← siftAll_constructorBody]
    split
    · rename_i hnil
      rw [hnil]
    · rw [siftAll_cons, sift_empty, List.nil_append]
  have hparts : siftAll isBrace a.constructor =
      '{' :: (a.members .construction).flatMap (siftAll isBrace) ++ ['}'] := by
    simp [constructor, hline, hmint, hbody, sift_isBrace_close]
  rw [hparts]
  exact (Balanced.flatMap (balanced_of_mem_members h _)).wrap

theorem balanced_of_mem_decimalsMember (a : Assembly) :
    ∀ m ∈ a.header.decimalsMember, Balanced (siftAll isBrace m) := by
  intro m hm
  rw [Header.decimalsMember] at hm
  split at hm
  · exact absurd hm List.not_mem_nil
  · obtain rfl := List.mem_singleton.mp hm
    apply Balanced.of_closes
    simp (disch := rfl) [sift_of_eq]
    decide

theorem siftAll_transferMember (hstages : a.textsAt .transfer ≠ []) :
    ∃ m, a.transferMember = [m] ∧ siftAll isBrace m = '{' :: (['{', '}'] ++
      siftAll isBrace a.frame.declarations ++ (a.members .transfer).flatMap (siftAll isBrace)) ++ ['}'] := by
  rw [transferMember]
  split
  · rename_i hnone
    exact absurd (List.map_eq_nil_iff.mp hnone) hstages
  · refine ⟨_, rfl, ?_⟩
    have hguard : siftAll isBrace a.transferGuard = ['{', '}'] := by
      rw [transferGuard]
      cases a.frame.swapGuard with
      | true =>
        simp (disch := rfl) [sift_of_eq]
        decide
      | false =>
        simp (disch := rfl) [sift_of_eq]
        decide
    have hdeclarations : a.declarations.flatMap (siftAll isBrace) = siftAll isBrace a.frame.declarations := by
      rw [declarations]
      split
      · rename_i hnil
        rw [hnil]
        rfl
      · rw [List.flatMap_singleton, siftAll_indent, sift_joinLines]
    have hhead : sift isBrace
        "function _transfer(address from, address to, uint256 amount) internal override \x7b" = ['{'] :=
      sift_of_eq rfl
    have hlast : sift isBrace "super._transfer(from, to, amount);" = [] := sift_of_eq rfl
    simp [hguard, hdeclarations, hhead, hlast, sift_isBrace_close]

theorem balanced_of_mem_transferMember (h : a.Braced)
    (hdeclarations : siftAll isBrace a.frame.declarations = []) :
    ∀ m ∈ a.transferMember, Balanced (siftAll isBrace m) := by
  intro m hm
  by_cases hstages : a.textsAt .transfer = []
  · have hnone : a.transferMember = [] := by
      rw [transferMember, members, hstages]
      rfl
    rw [hnone] at hm
    exact absurd hm List.not_mem_nil
  · obtain ⟨m', hmember, hbraces⟩ := siftAll_transferMember hstages
    obtain rfl := List.mem_singleton.mp (hmember ▸ hm)
    have hguard : Balanced ['{', '}'] := Balanced.of_closes (by decide)
    have hinner := hguard.append (Balanced.flatMap (balanced_of_mem_members h .transfer))
    rw [hbraces, hdeclarations]
    exact hinner.wrap

theorem balanced_of_mem_body (h : a.Braced) (hdeclarations : siftAll isBrace a.frame.declarations = []) :
    ∀ m ∈ a.body, Balanced (siftAll isBrace m) := by
  intro m hm
  simp only [body, List.mem_append, List.mem_singleton] at hm
  rcases hm with ((((hm | rfl) | hm) | hm) | hm) | hm
  · exact balanced_of_mem_members h _ m hm
  · exact balanced_constructor h
  · exact balanced_of_mem_decimalsMember a m hm
  · exact balanced_of_mem_transferMember h hdeclarations m hm
  · exact balanced_of_mem_members h _ m hm
  · exact balanced_of_mem_members h _ m hm

def inner (a : Assembly) : String :=
  "\n" ++ endLines (spaced a.body)

theorem sourceText_eq_inner (a : Assembly) :
    a.sourceText = a.opening ++ "\x7b" ++ a.inner ++ "\x7d\n" := by
  have htext : a.sourceText = endLines a.lines := rfl
  have hend : endLines ["\x7d"] = "\x7d\n" := by simp [endLines]
  have hopen : a.header.contractLine =
      "contract " ++ a.header.contractName ++ " is ERC20, Ownable " ++ "\x7b" := by
    have hbases : " is ERC20, Ownable \x7b" = " is ERC20, Ownable " ++ "\x7b" := by simp
    change "contract " ++ a.header.contractName ++ " is ERC20, Ownable \x7b" = _
    rw [hbases, String.append_assoc, String.append_assoc, String.append_assoc]
  rw [htext, lines_eq_front, endLines_append, endLines_append, endLines_cons, hend, hopen, opening,
    inner]
  simp only [String.append_assoc]

theorem sift_inner (a : Assembly) : sift isBrace a.inner = a.body.flatMap (siftAll isBrace) := by
  have hfeed : sift isBrace "\n" = [] := sift_of_eq rfl
  simp [inner, hfeed]

theorem sift_before (h : a.Braced) (ps : List (List String)) :
    sift isBrace (a.before ps) = '{' :: ps.flatMap (siftAll isBrace) := by
  have hspaced : siftAll isBrace (ps.flatMap (· ++ [""])) = ps.flatMap (siftAll isBrace) := by
    rw [siftAll, List.flatMap_assoc]
    apply List.flatMap_congr
    intro p _
    rw [← siftAll, siftAll_append, siftAll_cons, sift_empty]
    exact List.append_nil _
  simp [before, siftAll_front h, sift_contractLine h, hspaced]

theorem sift_sourceText (h : a.Braced) :
    sift isBrace a.sourceText = '{' :: a.body.flatMap (siftAll isBrace) ++ ['}'] := by
  have hend : sift isBrace "\x7d\n" = ['}'] := sift_of_eq rfl
  simp [sourceText_eq_inner, sift_opening h, sift_inner, sift_isBrace_open, hend]

theorem depth_sourceText (h : a.Braced) (hstages : a.textsAt .transfer ≠ []) :
    depth a.sourceText.toList = depth (siftAll isBrace a.frame.declarations) := by
  obtain ⟨m, hmember, hbraces⟩ := siftAll_transferMember hstages
  have hclosed (hook : Hook) : depth ((a.members hook).flatMap (siftAll isBrace)) = 0 :=
    (Balanced.flatMap (balanced_of_mem_members h hook)).closed
  have hconstructor := (balanced_constructor h).closed
  have hdecimals := (Balanced.flatMap (balanced_of_mem_decimalsMember a)).closed
  have hmember' : depth (siftAll isBrace m) = depth (siftAll isBrace a.frame.declarations) := by
    have hguard : depth ['{', '}'] = 0 := by decide
    rw [hbraces, depth_wrap, depth_append, depth_append, hguard, hclosed]
    omega
  rw [depth_toList, sift_sourceText h, depth_wrap, body, hmember]
  simp only [List.flatMap_append, List.flatMap_singleton, depth_append, hclosed, hconstructor,
    hdecimals, hmember']
  omega

theorem nested_sourceText (h : a.Braced) (hdeclarations : siftAll isBrace a.frame.declarations = []) :
    a.Nested a.sourceText := by
  have hbody := balanced_of_mem_body h hdeclarations
  have hinner : Balanced (sift isBrace a.inner) := by
    rw [sift_inner]
    exact Balanced.flatMap hbody
  refine ⟨?_, ⟨a.inner, sourceText_eq_inner a, ?_⟩, ?_⟩
  · apply balanced_of_sift
    rw [sift_sourceText h, ← sift_inner]
    exact hinner.wrap
  · intro ds hds
    rw [depth_append, depth_toList, sift_opening h]
    have hone := (balanced_of_sift hinner).one_le_depth hds
    rw [depth_nil]
    omega
  · intro ps q qs hparts
    have hq : depth (endLines q).toList = 0 := by
      rw [depth_toList, sift_endLines]
      apply (hbody q _).closed
      rw [hparts]
      exact List.mem_append_right _ List.mem_cons_self
    have hbefore : depth (a.before ps).toList = 1 := by
      have hps : Balanced (ps.flatMap (siftAll isBrace)) := by
        apply Balanced.flatMap
        intro m hm
        apply hbody
        rw [hparts]
        exact List.mem_append_left _ hm
      rw [depth_toList, sift_before h, depth_cons, depth_open, hps.closed]
      rfl
    refine ⟨sourceText_eq_of_body hparts, hbefore, ?_⟩
    rw [String.toList_append, depth_append, hbefore, hq]
    rfl

end TokenContract.Assembly
