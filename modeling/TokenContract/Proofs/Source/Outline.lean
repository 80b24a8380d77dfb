import TokenContract.Artifact
import TokenContract.Proofs.Number.Text
import TokenContract.Proofs.Solidity.Block
import TokenContract.Proofs.Text.Blank

namespace TokenContract

open Text
open Solidity (block importOf literal nonblank_spaced mem_spaced)

namespace Header

variable {h : Header}

theorem isLine_contractLine (hname : '\n' ∉ h.contractName.toList) :
    IsLine h.contractLine.toList := by
  change IsLine ("contract " ++ h.contractName ++ " is ERC20, Ownable \x7b").toList
  apply isLine_append
  · exact notMem_append.mpr ⟨notMem_of_eq rfl (by decide), hname⟩
  · exact isLine_of_eq rfl (by decide)
  · simp

theorem isLine_constructorLine (hname : '\n' ∉ h.tokenName.toList)
    (hsymbol : '\n' ∉ h.tokenSymbol.toList) : IsLine h.constructorLine.toList := by
  have hliteral : '\n' ∉ (literal h.tokenName).toList := by
    have hwords : '\n' ∉ "\"".toList ∧ '\n' ∉ "unicode\"".toList :=
      ⟨notMem_of_eq rfl (by decide), notMem_of_eq rfl (by decide)⟩
    rw [literal]
    split
    · simp only [notMem_append, hwords, hname, not_false_iff, and_self]
    · simp only [notMem_append, hwords, hname, not_false_iff, and_self]
  have hwords : '\n' ∉ tab.toList ∧ '\n' ∉ "constructor() ERC20(".toList ∧ '\n' ∉ ", \"".toList :=
    ⟨notMem_of_eq rfl (by decide), notMem_of_eq rfl (by decide), notMem_of_eq rfl (by decide)⟩
  apply isLine_append
  · simp only [notMem_append, hwords, hliteral, hsymbol, not_false_iff, and_self]
  · exact isLine_of_eq rfl (by decide)
  · simp

theorem mintLine_eq (h : Header) :
    h.mintLine = "        _mint(msg.sender, " ++ h.supply ++ ");" := by
  have htabs : tab ++ tab ++ "_mint(msg.sender, " = "        _mint(msg.sender, " := by simp [tab]
  rw [← htabs, String.append_assoc, String.append_assoc]
  rfl

theorem isLine_mintLine (hsupply : '\n' ∉ h.supply.toList) : IsLine h.mintLine.toList := by
  rw [mintLine_eq]
  apply isLine_append
  · exact notMem_append.mpr ⟨notMem_of_eq rfl (by decide), hsupply⟩
  · exact isLine_of_eq rfl (by decide)
  · simp

/-- Texts of a header that do not break the lines on which they stand. -/
structure Feedless (h : Header) : Prop where
  contractName : '\n' ∉ h.contractName.toList
  tokenName : '\n' ∉ h.tokenName.toList
  tokenSymbol : '\n' ∉ h.tokenSymbol.toList
  supply : '\n' ∉ h.supply.toList

end Header

namespace Assembly

/-- Parts whose breaks are those of the layout. A return breaks a line only right before a feed, and
of the header only the licence stands at the end of a line. -/
structure Tidy (a : Assembly) : Prop where
  header : ∀ t ∈ [a.header.license, a.header.contractName, a.header.tokenName, a.header.tokenSymbol,
    a.header.supply], '\n' ∉ t.toList
  license : a.header.license.toList.getLast? ≠ some '\r'
  fragments : ∀ x ∈ a.fragments, FeedsOnly x.text.toList
  declarations : ∀ d ∈ a.frame.declarations, FeedsOnly d.toList

/-- The lines of the fragments at a hook, in their order and at its margin. -/
def linesAt (a : Assembly) (h : Hook) : List String :=
  (a.textsAt h).flatMap fun t ↦ (nonblank (Text.lines t)).map (margin h.level ++ ·)

/-- The base imports and then those of the fragments, each only where it comes first. -/
def outlineImports (a : Assembly) : List String :=
  (["import \"@openzeppelin/contracts/token/ERC20/ERC20.sol\";",
    "import \"@openzeppelin/contracts/access/Ownable.sol\";"] ++
    (a.textsAt .imports).flatMap fun t ↦ (nonblank (Text.lines t)).map trim).eraseDups

def outlineConstructor (a : Assembly) : List String :=
  ["    constructor() ERC20(" ++ literal a.header.tokenName ++ ", \"" ++ a.header.tokenSymbol ++
      "\") \x7b",
    "        _mint(msg.sender, " ++ a.header.supply ++ ");"] ++
    a.linesAt .construction ++ ["    \x7d"]

def outlineDecimals (a : Assembly) : List String :=
  if a.header.decimals = 18 then []
  else ["    function decimals() public pure override returns (uint8) \x7b",
    "        return " ++ toString a.header.decimals.toNat ++ ";",
    "    \x7d"]

def outlineGuard (swapGuard : Bool) : List String :=
  ["        if (" ++ (if swapGuard then "_inSwap || " else "") ++
      "from == owner() || to == owner()) \x7b",
    "            super._transfer(from, to, amount);",
    "            return;",
    "        \x7d"]

def outlineTransfer (a : Assembly) : List String :=
  if a.textsAt .transfer = [] then []
  else
    ["    function _transfer(address from, address to, uint256 amount) internal override \x7b"] ++
      outlineGuard a.frame.swapGuard ++
      (a.frame.declarations.flatMap fun d ↦ (nonblank (Text.lines d)).map ("        " ++ ·)) ++
      a.linesAt .transfer ++
      ["        super._transfer(from, to, amount);", "    \x7d"]

def outline (a : Assembly) : List String :=
  ["// SPDX-License-Identifier: " ++ a.header.license, "pragma solidity ^0.8.19;"] ++
    a.outlineImports ++
    ["contract " ++ a.header.contractName ++ " is ERC20, Ownable \x7b"] ++
    a.linesAt .state ++ a.outlineConstructor ++ a.outlineDecimals ++ a.outlineTransfer ++
    a.linesAt .admin ++ a.linesAt .helpers ++ ["\x7d"]

variable {a : Assembly}

theorem nonblank_members (a : Assembly) (h : Hook) :
    (a.members h).flatMap nonblank = a.linesAt h := by
  rw [members, List.flatMap_map, linesAt]
  apply List.flatMap_congr
  intro t _
  exact nonblank_indent h.level t

theorem nonblank_imports (a : Assembly) : nonblank a.imports = a.outlineImports := by
  have htexts (ts : List String) : ((ts.flatMap Text.lines).map trim).filter (· != "") =
      ts.flatMap fun t ↦ (nonblank (Text.lines t)).map trim := by
    rw [List.map_flatMap, List.filter_flatMap]
    apply List.flatMap_congr
    intro t _
    rw [List.filter_map, nonblank]
    apply congrArg
    apply List.filter_congr
    intro l _
    rw [Function.comp_apply, Bool.eq_iff_iff, bne_iff_ne, ne_eq, trim_eq_empty_iff]
    simp
  have himports : a.imports = a.outlineImports := by
    rw [imports, htexts]
    rfl
  rw [himports, nonblank, List.filter_eq_self]
  intro l hl
  rw [outlineImports, List.mem_eraseDups, List.mem_append, List.mem_flatMap] at hl
  rcases hl with hl | ⟨t, -, hl⟩
  · revert l
    simp (disch := rfl) [blank_of_eq, isBlank]
  · obtain ⟨m, hm, rfl⟩ := List.mem_map.mp hl
    rw [blank_trim]
    exact (List.mem_filter.mp hm).2

theorem nonblank_eq_self {ls : List String} (h : ∀ l ∈ ls, blank l = false) : nonblank ls = ls := by
  rw [nonblank, List.filter_eq_self]
  intro l hl
  rw [h l hl]
  rfl

theorem nonblank_constructorBody (a : Assembly) :
    nonblank a.constructorBody = a.linesAt .construction := by
  rw [← nonblank_members, ← nonblank_spaced, constructorBody]
  split
  · rename_i hlone
    rw [hlone]
    decide
  · rfl

theorem nonblank_constructor (a : Assembly) : nonblank a.constructor = a.outlineConstructor := by
  have hbody : nonblank (if a.constructorBody = [] then [] else "" :: a.constructorBody) =
      a.linesAt .construction := by
    rw [← nonblank_constructorBody]
    split
    · rename_i hnil
      rw [hnil]
    · rw [nonblank_cons]
      exact if_pos (by decide)
  have hhead : nonblank [a.header.constructorLine, a.header.mintLine] =
      ["    constructor() ERC20(" ++ literal a.header.tokenName ++ ", \"" ++ a.header.tokenSymbol ++
        "\") \x7b",
      "        _mint(msg.sender, " ++ a.header.supply ++ ");"] := by
    have hopen : tab ++ "constructor() ERC20(" = "    constructor() ERC20(" := by simp [tab]
    rw [Header.mintLine_eq, Header.constructorLine, hopen]
    apply nonblank_eq_self
    have hwords : blank "    constructor() ERC20(" = false ∧
        blank "        _mint(msg.sender, " = false := ⟨blank_of_eq rfl, blank_of_eq rfl⟩
    simp [blank_append, hwords]
  have hclose : nonblank [tab ++ "\x7d"] = ["    \x7d"] := by
    simp (disch := rfl) [nonblank, tab, blank_of_eq, isBlank]
  have hparts : a.constructor = [a.header.constructorLine, a.header.mintLine] ++
      (if a.constructorBody = [] then [] else "" :: a.constructorBody) ++ [tab ++ "\x7d"] := rfl
  rw [hparts, nonblank_append, nonblank_append, hhead, hbody, hclose, outlineConstructor]

theorem nonblank_decimalsMember (a : Assembly) :
    a.header.decimalsMember.flatMap nonblank = a.outlineDecimals := by
  by_cases husual : a.header.decimals = 18
  · have hnone : a.header.decimalsMember = [] := if_pos husual
    rw [hnone, outlineDecimals, if_pos husual]
    rfl
  · have hreturn : tab ++ (tab ++ s!"return {a.header.decimals.toNat};") =
        "        return " ++ toString a.header.decimals.toNat ++ ";" := by
      have htabs : tab ++ (tab ++ "return ") = "        return " := by simp [tab]
      rw [← htabs]
      simp only [String.append_assoc]
      rfl
    have hlines : a.header.decimalsMember =
        [["    function decimals() public pure override returns (uint8) \x7b",
          tab ++ (tab ++ s!"return {a.header.decimals.toNat};"), "    \x7d"]] := by
      have hhead : tab ++ ("function decimals() public pure override returns (uint8)" ++ " \x7b") =
          "    function decimals() public pure override returns (uint8) \x7b" := by simp [tab]
      have hclose : tab ++ "\x7d" = "    \x7d" := by simp [tab]
      rw [← hhead, ← hclose]
      exact if_neg husual
    rw [hlines, hreturn, outlineDecimals, if_neg husual, List.flatMap_singleton]
    apply nonblank_eq_self
    have hwords : blank "    function decimals() public pure override returns (uint8) \x7b" = false ∧
        blank "        return " = false ∧ blank "    \x7d" = false :=
      ⟨blank_of_eq rfl, blank_of_eq rfl, blank_of_eq rfl⟩
    simp [blank_append, hwords]

theorem transferGuard_eq (a : Assembly) : a.transferGuard =
    [if a.frame.swapGuard then "if (_inSwap || from == owner() || to == owner()) \x7b"
      else "if (from == owner() || to == owner()) \x7b",
    "    super._transfer(from, to, amount);", "    return;", "\x7d"] := by
  rw [transferGuard]
  cases a.frame.swapGuard with
  | true => simp [block, deeper, tab, Router.swapFlag, toString]
  | false => simp [block, deeper, tab, toString]

theorem nonblank_guard (a : Assembly) :
    nonblank (a.transferGuard.map (padLine Hook.transfer.level)) = outlineGuard a.frame.swapGuard := by
  have hwords : blank "if (_inSwap || from == owner() || to == owner()) \x7b" = false ∧
      blank "if (from == owner() || to == owner()) \x7b" = false ∧
      blank "    super._transfer(from, to, amount);" = false ∧ blank "    return;" = false ∧
      blank "\x7d" = false :=
    ⟨blank_of_eq rfl, blank_of_eq rfl, blank_of_eq rfl, blank_of_eq rfl, blank_of_eq rfl⟩
  rw [nonblank_map_padLine, transferGuard_eq]
  cases a.frame.swapGuard with
  | true => simp [nonblank, hwords, margin, Hook.level, tab, outlineGuard]
  | false => simp [nonblank, hwords, margin, Hook.level, tab, outlineGuard]

theorem nonblank_declarations (h : a.Tidy) :
    a.declarations.flatMap nonblank =
      a.frame.declarations.flatMap fun d ↦ (nonblank (Text.lines d)).map ("        " ++ ·) := by
  have hmargin : margin Hook.transfer.level = "        " := by simp [margin, Hook.level, tab]
  rw [declarations]
  split
  · rename_i hnil
    rw [hnil]
    rfl
  · rw [List.flatMap_singleton, nonblank_indent, nonblank_lines_joinLines h.declarations, hmargin,
      List.map_flatMap]

theorem nonblank_transferMember (h : a.Tidy) :
    a.transferMember.flatMap nonblank = a.outlineTransfer := by
  by_cases hnone : a.textsAt .transfer = []
  · have hmembers : a.members .transfer = [] := by rw [members, hnone, List.map_nil]
    rw [transferMember, hmembers, outlineTransfer, if_pos hnone]
    rfl
  · rw [transferMember]
    split
    · rename_i hmembers
      exact absurd (List.map_eq_nil_iff.mp hmembers) hnone
    · have hlast : nonblank (["super._transfer(from, to, amount);"].map
          (padLine Hook.transfer.level)) = ["        super._transfer(from, to, amount);"] := by
        have hword : ∀ l ∈ ["super._transfer(from, to, amount);"], blank l = false :=
          List.forall_mem_singleton.mpr (blank_of_eq rfl)
        rw [nonblank_map_padLine, nonblank_eq_self hword]
        simp [margin, Hook.level, tab]
      have hhead : nonblank [tab ++
          "function _transfer(address from, address to, uint256 amount) internal override \x7b"] =
          ["    function _transfer(address from, address to, uint256 amount) internal override \x7b"] := by
        simp (disch := rfl) [nonblank, blank_of_eq, isBlank, tab]
      have hclose : nonblank [tab ++ "\x7d"] = ["    \x7d"] := by
        simp (disch := rfl) [nonblank, blank_of_eq, isBlank, tab]
      rw [List.flatMap_singleton, ← List.singleton_append, nonblank_append, nonblank_append, hhead,
        hclose, nonblank_spaced, List.flatMap_append, List.flatMap_append, List.flatMap_append,
        List.flatMap_singleton, List.flatMap_singleton, nonblank_guard, nonblank_declarations h,
        nonblank_members, hlast, outlineTransfer, if_neg hnone]
      simp only [List.append_assoc, List.cons_append, List.nil_append]

theorem nonblank_lines (h : a.Tidy) : nonblank a.lines = a.outline := by
  have hfront : nonblank ["// SPDX-License-Identifier: " ++ a.header.license, languageVersion, ""] =
      ["// SPDX-License-Identifier: " ++ a.header.license, "pragma solidity ^0.8.19;"] := by
    have hwords : blank "// SPDX-License-Identifier: " = false ∧
        blank "pragma solidity ^0.8.19;" = false := ⟨blank_of_eq rfl, blank_of_eq rfl⟩
    have hempty : nonblank [""] = [] := by decide
    have hlines : ["// SPDX-License-Identifier: " ++ a.header.license, languageVersion, ""] =
        ["// SPDX-License-Identifier: " ++ a.header.license, "pragma solidity ^0.8.19;"] ++ [""] := rfl
    rw [hlines, nonblank_append, hempty, List.append_nil]
    apply nonblank_eq_self
    simp [blank_append, hwords]
  have hcontract : nonblank ["", a.header.contractLine] =
      ["contract " ++ a.header.contractName ++ " is ERC20, Ownable \x7b"] := by
    have hword : blank "contract " = false := blank_of_eq rfl
    rw [nonblank_cons, if_pos (by decide)]
    apply nonblank_eq_self
    change ∀ l ∈ ["contract " ++ a.header.contractName ++ " is ERC20, Ownable \x7b"], blank l = false
    simp [blank_append, hword]
  have hclose : nonblank ["\x7d"] = ["\x7d"] := by simp (disch := rfl) [nonblank, blank_of_eq, isBlank]
  rw [lines, nonblank_append, nonblank_append, nonblank_append, nonblank_append, hfront, hcontract,
    hclose, nonblank_imports, nonblank_spaced, body]
  simp only [List.flatMap_append, List.flatMap_singleton, nonblank_members, nonblank_constructor,
    nonblank_decimalsMember, nonblank_transferMember h, outline, List.append_assoc]

theorem isLine_of_mem_members (h : a.Tidy) (hook : Hook) :
    ∀ m ∈ a.members hook, ∀ l ∈ m, IsLine l.toList := by
  intro m hm
  obtain ⟨t, ht, rfl⟩ := List.mem_map.mp hm
  obtain ⟨x, hx, rfl⟩ := List.mem_map.mp ht
  apply isLine_of_mem_indent
  intro l
  exact isLine_of_mem_lines (h.fragments x (List.mem_of_mem_filter hx))

theorem isLine_of_mem_imports (a : Assembly) : ∀ l ∈ a.imports, IsLine l.toList := by
  have himport {path : String} (hpath : '\n' ∉ path.toList) : IsLine (importOf path).toList :=
    isLine_append (notMem_append.mpr ⟨notMem_of_eq rfl (by decide), hpath⟩)
      (isLine_of_eq rfl (by decide)) (by simp)
  intro l hl
  rw [imports, List.mem_eraseDups, List.mem_append] at hl
  rcases hl with hl | hl
  · revert l
    simp only [baseImports, List.forall_mem_cons, List.not_mem_nil, false_imp_iff, implies_true, and_true]
    exact ⟨himport (notMem_of_eq rfl (by decide)), himport (notMem_of_eq rfl (by decide))⟩
  · obtain ⟨m, hm, rfl⟩ := List.mem_map.mp (List.mem_of_mem_filter hl)
    obtain ⟨t, -, hm⟩ := List.mem_flatMap.mp hm
    exact isLine_trim (notMem_of_mem_lines hm)

theorem isLine_of_mem_constructor (h : a.Tidy) : ∀ l ∈ a.constructor, IsLine l.toList := by
  have hbody : ∀ l ∈ a.constructorBody, IsLine l.toList := by
    intro l hl
    rw [constructorBody] at hl
    split at hl
    · exact absurd hl List.not_mem_nil
    · rcases mem_spaced hl with rfl | ⟨m, hm, hl⟩
      · decide
      · exact isLine_of_mem_members h _ m hm l hl
  intro l hl
  rw [constructor, List.cons_append, List.cons_append, List.mem_cons, List.mem_cons,
    List.mem_append] at hl
  rcases hl with rfl | rfl | hl | hl
  · exact Header.isLine_constructorLine (h.header _ (by simp)) (h.header _ (by simp))
  · exact Header.isLine_mintLine (h.header _ (by simp))
  · split at hl
    · exact absurd hl List.not_mem_nil
    · rcases List.mem_cons.mp hl with rfl | hl
      · decide
      · exact hbody l hl
  · rw [List.mem_singleton.mp hl]
    exact isLine_tab (isLine_of_eq rfl (by decide)) (by simp)

theorem isLine_of_mem_decimalsMember (a : Assembly) :
    ∀ m ∈ a.header.decimalsMember, ∀ l ∈ m, IsLine l.toList := by
  intro m hm
  rw [Header.decimalsMember] at hm
  split at hm
  · exact absurd hm List.not_mem_nil
  · obtain rfl := List.mem_singleton.mp hm
    have hdigits : '\n' ∉ (toString a.header.decimals.toNat).toList := by
      intro hfeed
      exact absurd (isDigit_of_mem_toString hfeed) (by decide)
    have hreturn : IsLine (tab ++ (tab ++ s!"return {a.header.decimals.toNat};")).toList := by
      have hwords : '\n' ∉ tab.toList ∧ '\n' ∉ "return ".toList :=
        ⟨notMem_of_eq rfl (by decide), notMem_of_eq rfl (by decide)⟩
      change IsLine (tab ++ (tab ++ ("return " ++ toString a.header.decimals.toNat ++ ";"))).toList
      rw [← String.append_assoc, ← String.append_assoc]
      apply isLine_append
      · simp only [notMem_append, hwords, hdigits, not_false_iff, and_self]
      · exact isLine_of_eq rfl (by decide)
      · simp
    have hhead : IsLine ("function decimals() public pure override returns (uint8)" ++ " \x7b").toList :=
      isLine_append (notMem_of_eq rfl (by decide)) (isLine_of_eq rfl (by decide)) (by simp)
    intro l hl
    simp only [deeper, block, List.map_cons, List.map_nil, List.cons_append, List.nil_append] at hl
    rcases List.mem_cons.mp hl with rfl | hl
    · exact isLine_tab hhead (by simp)
    · rcases List.mem_cons.mp hl with rfl | hl
      · exact hreturn
      · rw [List.mem_singleton.mp hl]
        exact isLine_tab (isLine_of_eq rfl (by decide)) (by simp)

theorem isLine_of_mem_transferMember (h : a.Tidy) :
    ∀ m ∈ a.transferMember, ∀ l ∈ m, IsLine l.toList := by
  have hguard : ∀ l ∈ a.transferGuard, IsLine l.toList := by
    rw [transferGuard_eq]
    simp only [List.forall_mem_cons, List.not_mem_nil, false_imp_iff, implies_true, and_true]
    refine ⟨?_, isLine_of_eq rfl (by decide), isLine_of_eq rfl (by decide), isLine_of_eq rfl (by decide)⟩
    cases a.frame.swapGuard with
    | true => exact isLine_of_eq rfl (by decide)
    | false => exact isLine_of_eq rfl (by decide)
  have hdeclarations : ∀ m ∈ a.declarations, ∀ l ∈ m, IsLine l.toList := by
    intro m hm
    rw [declarations] at hm
    split at hm
    · exact absurd hm List.not_mem_nil
    · obtain rfl := List.mem_singleton.mp hm
      exact isLine_of_mem_indent (isLine_of_mem_lines_joinLines h.declarations)
  rw [transferMember]
  split
  · exact fun m hm ↦ absurd hm List.not_mem_nil
  · intro m hm l hl
    obtain rfl := List.mem_singleton.mp hm
    rw [List.cons_append, List.mem_cons, List.mem_append] at hl
    rcases hl with rfl | hl | hl
    · exact isLine_tab (isLine_of_eq rfl (by decide)) (by simp)
    · rcases mem_spaced hl with rfl | ⟨m, hm, hl⟩
      · decide
      · simp only [List.mem_append, List.mem_singleton] at hm
        rcases hm with ((rfl | hm) | hm) | rfl
        · obtain ⟨k, hk, rfl⟩ := List.mem_map.mp hl
          exact isLine_padLine (hguard k hk)
        · exact hdeclarations m hm l hl
        · exact isLine_of_mem_members h _ m hm l hl
        · obtain rfl := List.mem_singleton.mp hl
          exact isLine_padLine (isLine_of_eq rfl (by decide))
    · rw [List.mem_singleton.mp hl]
      exact isLine_tab (isLine_of_eq rfl (by decide)) (by simp)

theorem isLine_of_mem_lines (h : a.Tidy) : ∀ l ∈ a.lines, IsLine l.toList := by
  have hbody : ∀ m ∈ a.body, ∀ l ∈ m, IsLine l.toList := by
    intro m hm
    simp only [body, List.mem_append, List.mem_singleton] at hm
    rcases hm with ((((hm | rfl) | hm) | hm) | hm) | hm
    · exact isLine_of_mem_members h _ m hm
    · exact isLine_of_mem_constructor h
    · exact isLine_of_mem_decimalsMember a m hm
    · exact isLine_of_mem_transferMember h m hm
    · exact isLine_of_mem_members h _ m hm
    · exact isLine_of_mem_members h _ m hm
  have hconstant : ∀ l ∈ [languageVersion, "", "\x7d"], IsLine l.toList := by
    simp only [List.forall_mem_cons, List.not_mem_nil, false_imp_iff, implies_true, and_true]
    exact ⟨isLine_of_eq rfl (by decide), isLine_of_eq rfl (by decide), isLine_of_eq rfl (by decide)⟩
  have hlicense : IsLine ("// SPDX-License-Identifier: " ++ a.header.license).toList := by
    by_cases hempty : a.header.license = ""
    · rw [hempty, String.append_empty]
      exact isLine_of_eq rfl (by decide)
    · exact isLine_append (notMem_of_eq rfl (by decide)) ⟨h.header _ List.mem_cons_self, h.license⟩ hempty
  intro l hl
  simp only [lines, List.mem_append, List.mem_cons, List.not_mem_nil, or_false] at hl
  rcases hl with ((((rfl | rfl | rfl) | hl) | rfl | rfl) | hl) | rfl
  · exact hlicense
  · exact hconstant _ (by simp)
  · exact hconstant _ (by simp)
  · exact isLine_of_mem_imports a l hl
  · exact hconstant _ (by simp)
  · exact Header.isLine_contractLine (h.header _ (by simp))
  · rcases mem_spaced hl with rfl | ⟨m, hm, hl⟩
    · exact hconstant _ (by simp)
    · exact hbody m hm l hl
  · exact hconstant _ (by simp)

/-- The lines of a contract that are not blank, one after another. -/
theorem nonblank_lines_sourceText (h : a.Tidy) :
    nonblank (Text.lines (Artifact.ofAssembly a).sourceText) = a.outline := by
  have htext : (Artifact.ofAssembly a).sourceText = endLines a.lines := rfl
  rw [htext, lines_endLines (isLine_of_mem_lines h), nonblank_lines h]

def ragged : Assembly where
  header := ⟨"MIT", "Moon", "Moon", "MOON", 9, "1000 * 10 ** 9"⟩
  fragments := [
    ⟨.helpers, .base, "function f() private \x7b\n    g();\n\x7d\n"⟩,
    ⟨.imports, .base, "  import \"a.sol\";\n\n\timport \"b.sol\";"⟩,
    ⟨.state, .base, ""⟩,
    ⟨.transfer, .base, "fee = 1;\n \n    amount -= fee;"⟩,
    ⟨.imports, .base, "import \"b.sol\";\nimport \"@openzeppelin/contracts/access/Ownable.sol\";"⟩,
    ⟨.state, .base, "\nuint256 public x;\n\n"⟩]
  frame := ⟨true, ["uint256 fee;", "", "uint256 rest;"]⟩
  enabled := []

theorem nonblank_lines_ragged : ragged.Tidy ∧
    nonblank (Text.lines (Artifact.ofAssembly ragged).sourceText) = [
      "// SPDX-License-Identifier: MIT",
      "pragma solidity ^0.8.19;",
      "import \"@openzeppelin/contracts/token/ERC20/ERC20.sol\";",
      "import \"@openzeppelin/contracts/access/Ownable.sol\";",
      "import \"a.sol\";",
      "import \"b.sol\";",
      "contract Moon is ERC20, Ownable \x7b",
      "    uint256 public x;",
      "    constructor() ERC20(\"Moon\", \"MOON\") \x7b",
      "        _mint(msg.sender, 1000 * 10 ** 9);",
      "    \x7d",
      "    function decimals() public pure override returns (uint8) \x7b",
      "        return 9;",
      "    \x7d",
      "    function _transfer(address from, address to, uint256 amount) internal override \x7b",
      "        if (_inSwap || from == owner() || to == owner()) \x7b",
      "            super._transfer(from, to, amount);",
      "            return;",
      "        \x7d",
      "        uint256 fee;",
      "        uint256 rest;",
      "        fee = 1;",
      "            amount -= fee;",
      "        super._transfer(from, to, amount);",
      "    \x7d",
      "    function f() private \x7b",
      "        g();",
      "    \x7d",
      "\x7d"] := by
  have htidy : ragged.Tidy :=
    ⟨by decide +kernel, by decide +kernel, by decide +kernel, by decide +kernel⟩
  have houtline := nonblank_lines_sourceText htidy
  refine ⟨htidy, houtline.trans ?_⟩
  decide +kernel

end Assembly

end TokenContract
