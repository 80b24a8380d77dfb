import TokenContract.Proofs.Generation.Timelock
import TokenContract.Proofs.Solidity.Literal
import TokenContract.Proofs.Source.Outline
import TokenContract.Proofs.Source.Parts
import TokenContract.Proofs.Spec.Supply

namespace TokenContract

open Text
open Solidity (literal readLiteral spaced_append_cons)

namespace Assembly

def middle (a : Assembly) : List String :=
  (a.members .state).flatMap (· ++ [""])

def back (a : Assembly) : List String :=
  a.constructor.tail ++
    (a.header.decimalsMember ++ a.transferMember ++ a.members .admin ++
      a.members .helpers).flatMap ("" :: ·) ++ ["\x7d"]

theorem lines_eq (a : Assembly) :
    a.lines = a.front ++ a.header.contractLine :: a.middle ++ a.header.constructorLine :: a.back := by
  have hbody : a.body = a.members .state ++ a.constructor ::
      (a.header.decimalsMember ++ a.transferMember ++ a.members .admin ++ a.members .helpers) := by
    simp only [body, List.append_assoc, List.cons_append, List.nil_append]
  have hconstructor : a.constructor = a.header.constructorLine :: a.constructor.tail := rfl
  rw [lines_eq_front, hbody, spaced_append_cons, middle, back, hconstructor]
  simp only [List.append_assoc, List.cons_append, List.tail_cons]

theorem lines_sourceText {a : Assembly} (h : a.header.Feedless) :
    Text.lines a.sourceText = Text.lines (endLines a.front) ++ a.header.contractLine ::
      Text.lines (endLines a.middle) ++ a.header.constructorLine ::
      Text.lines (endLines a.back) := by
  have hhead := lines_endLines_singleton (Header.isLine_contractLine h.contractName)
  have hconstructor :=
    lines_endLines_singleton (Header.isLine_constructorLine h.tokenName h.tokenSymbol)
  have htext : a.sourceText = endLines a.lines := rfl
  rw [htext, lines_eq, lines_endLines_append, lines_endLines_append, lines_endLines_cons,
    lines_endLines_cons a.header.constructorLine, hhead, hconstructor]
  rfl

def renamed (a : Assembly) (contractName tokenName tokenSymbol : String) : Assembly :=
  { a with header := { a.header with contractName, tokenName, tokenSymbol } }

theorem front_renamed (a : Assembly) (contractName tokenName tokenSymbol : String) :
    (a.renamed contractName tokenName tokenSymbol).front = a.front :=
  rfl

theorem middle_renamed (a : Assembly) (contractName tokenName tokenSymbol : String) :
    (a.renamed contractName tokenName tokenSymbol).middle = a.middle :=
  rfl

theorem back_renamed (a : Assembly) (contractName tokenName tokenSymbol : String) :
    (a.renamed contractName tokenName tokenSymbol).back = a.back :=
  rfl

theorem eq_renamed_of_assemble {a b : Assembly} {p : Plan} {s t : Spec} {settings : Settings}
    (hsupply : s.totalSupply = t.totalSupply) (hdecimals : s.decimals = t.decimals)
    (ha : p.assemble s settings = .ok a) (hb : p.assemble t settings = .ok b) :
    b = a.renamed t.contractName (trim t.name) (trim t.symbol) := by
  have hexpression : s.supplyExpression = t.supplyExpression := by
    rw [Spec.supplyExpression, Spec.supplyExpression, hsupply, hdecimals]
  obtain ⟨os, hos, fss, hfss, rfl⟩ := Plan.assemble_eq_ok_iff.mp ha
  obtain ⟨os', hos', fss', hfss', rfl⟩ := Plan.assemble_eq_ok_iff.mp hb
  rw [Spec.environment, hexpression, ← Spec.environment] at hos
  obtain rfl : os = os' := Except.ok.inj (hos.symm.trans hos')
  obtain rfl : fss = fss' := Except.ok.inj (hfss.symm.trans hfss')
  rw [renamed, Spec.header, Spec.header, hexpression, hdecimals]

end Assembly

namespace Spec

variable {s t : Spec}

/-- What two lines of a contract tell of the names of a token: an identifier, and two literals that
say no more than the names. -/
structure NamedBy (s : Spec) (head constructor : String) : Prop where
  head : head = "contract " ++ s.contractName ++ " is ERC20, Ownable \x7b"
  identifier : ∀ c ∈ s.contractName.toList, isNameChar c
  plain : ∀ c ∈ (trim s.name).toList, c ≠ '"' ∧ c ≠ '\\' ∧ isControl c = false
  constructor : ∃ rest rest', constructor.toList = "    constructor() ERC20(".toList ++ rest ∧
    readLiteral rest = some ((trim s.name).toList, ", ".toList ++ rest') ∧
    readLiteral rest' = some ((trim s.symbol).toList, ") \x7b".toList)

/-- Lines of contracts that agree one by one, apart from the two on which the names stand. -/
def Apart (s t : Spec) (ls ms : List String) : Prop :=
  ∃ front middle back l l' m m',
    ls = front ++ l :: middle ++ l' :: back ∧ s.NamedBy l l' ∧
    ms = front ++ m :: middle ++ m' :: back ∧ t.NamedBy m m'

theorem Apart.length_eq {ls ms : List String} (h : s.Apart t ls ms) : ls.length = ms.length := by
  obtain ⟨front, middle, back, l, l', m, m', rfl, -, rfl, -⟩ := h
  simp only [List.length_append, List.length_cons]

theorem namedBy_header (h : s.Admissible) (settings : Settings) :
    s.NamedBy (s.header settings).contractLine (s.header settings).constructorLine := by
  have hplain := h.name.plain
  have halphanum := h.symbol.alphanum
  have hopen : tab ++ "constructor() ERC20(" = "    constructor() ERC20(" := rfl
  have hcomma : ", \"" = ", " ++ "\"" := rfl
  have hclose : "\") \x7b" = "\"" ++ ") \x7b" := rfl
  have hline : (s.header settings).constructorLine = "    constructor() ERC20(" ++
      (literal (trim s.name) ++ (", " ++ (literal (trim s.symbol) ++ ") \x7b"))) := by
    rw [Header.constructorLine, hopen, hcomma, hclose, Solidity.literal_of_alphanum halphanum]
    simp only [String.append_assoc]
    rfl
  refine ⟨rfl, isNameChar_of_mem_identifierOf, hplain, ?_⟩
  refine ⟨(literal (trim s.name) ++ (", " ++ (literal (trim s.symbol) ++ ") \x7b"))).toList,
    (literal (trim s.symbol) ++ ") \x7b").toList, ?_, ?_, ?_⟩
  · rw [hline, String.toList_append]
  · rw [String.toList_append, Solidity.readLiteral_literal (Solidity.shown_of_plain hplain),
      String.toList_append]
  · rw [String.toList_append, Solidity.readLiteral_literal (Solidity.shown_of_alphanum halphanum)]

end Spec

namespace Catalog

variable {c : Catalog} {s t : Spec} {settings : Settings} {art art' : Artifact}

theorem feedless_header (h : c.validate s = .ok ()) (settings : Settings) :
    (s.header settings).Feedless := by
  have hs := admissible_of_validate h
  constructor
  · intro hfeed
    exact absurd (isNameChar_of_mem_identifierOf _ hfeed) (by decide)
  · exact (Solidity.shown_of_plain hs.name.plain).notMem_feed
  · exact (Solidity.shown_of_alphanum hs.symbol.alphanum).notMem_feed
  · intro hfeed
    exact (hs.supplied.unbroken_supplyExpression _ hfeed).1 rfl

theorem exists_lines_of_generate (h : c.generate s settings = .ok art) : ∃ p a, c.plan s = .ok p ∧
    p.assemble s settings = .ok a ∧ s.NamedBy a.header.contractLine a.header.constructorLine ∧
    Text.lines art.sourceText = Text.lines (endLines a.front) ++ a.header.contractLine ::
      Text.lines (endLines a.middle) ++ a.header.constructorLine ::
      Text.lines (endLines a.back) := by
  have hs := admissible_of_generate h
  obtain ⟨p, a, hp, ha, rfl⟩ := exists_assemble_of_generate h
  have hheader := Plan.header_of_assemble ha
  refine ⟨p, a, hp, ha, hheader ▸ Spec.namedBy_header hs settings, ?_⟩
  apply Assembly.lines_sourceText (a := a)
  rw [hheader]
  exact feedless_header (validate_of_generate h) settings

theorem plan_eq_of_features (h : s.features = t.features) : c.plan s = c.plan t := by
  cases s
  cases t
  cases h
  rfl

/-- Renaming a token changes two lines of its contract, and on these nothing but the name. -/
theorem apart_of_generate (hsupply : s.totalSupply = t.totalSupply)
    (hdecimals : s.decimals = t.decimals) (hfeatures : s.features = t.features)
    (hs : c.generate s settings = .ok art) (ht : c.generate t settings = .ok art') :
    art.lineCount = art'.lineCount ∧
      s.Apart t (Text.lines art.sourceText) (Text.lines art'.sourceText) := by
  obtain ⟨p, a, hp, ha, hl, hlines⟩ := exists_lines_of_generate hs
  obtain ⟨q, b, hq, hb, hm, hlines'⟩ := exists_lines_of_generate ht
  obtain rfl : p = q := by
    rw [plan_eq_of_features hfeatures, hq] at hp
    exact (Except.ok.inj hp).symm
  obtain rfl := Assembly.eq_renamed_of_assemble hsupply hdecimals ha hb
  rw [Assembly.front_renamed, Assembly.middle_renamed, Assembly.back_renamed] at hlines'
  have happart : s.Apart t (Text.lines art.sourceText) (Text.lines art'.sourceText) :=
    ⟨_, _, _, _, _, _, _, hlines, hl, hlines', hm⟩
  exact ⟨happart.length_eq, happart⟩

def disguised : Spec :=
  { paired.token with
    name := "  Möbius // \x7d contract '7' \x7b "
    symbol := " MOB7\t" }

theorem apart_disguised : ∃ art art',
    standard.generate paired.token {} = .ok art ∧ standard.generate disguised {} = .ok art' ∧
      art.lineCount = art'.lineCount ∧
      paired.token.Apart disguised (Text.lines art.sourceText) (Text.lines art'.sourceText) := by
  have hs : (standard.generate paired.token {}).toOption.any fun _ ↦ true := by decide +kernel
  have ht : (standard.generate disguised {}).toOption.any fun _ ↦ true := by decide +kernel
  obtain ⟨art, hs, -⟩ := Results.exists_ok_of_any hs
  obtain ⟨art', ht, -⟩ := Results.exists_ok_of_any ht
  exact ⟨art, art', hs, ht, apart_of_generate rfl rfl rfl hs ht⟩

end Catalog

end TokenContract
