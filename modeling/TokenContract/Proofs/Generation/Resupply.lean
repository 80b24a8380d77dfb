import TokenContract.Proofs.Feature.Shares
import TokenContract.Proofs.Generation.Lines
import TokenContract.Proofs.Generation.Overlay
import TokenContract.Proofs.Spec.Supply

namespace TokenContract

open Results
open Solidity (publicNumber)
open Text (AlikeBut Solid Unbroken endLines forall₂_alikeBut joinLines margin unbroken_append
  unbroken_of_eq)

theorem Dict.rel_find?_ofList {α β : Type} {R : α → β → Prop} {es : List (String × α)}
    {fs : List (String × β)} (h : List.Forall₂ (fun e f ↦ e.1 = f.1 ∧ R e.2 f.2) es fs)
    (k : String) : Option.Rel R ((Dict.ofList es).find? k) ((Dict.ofList fs).find? k) := by
  -- Later entries replace earlier ones, so the dictionaries that were filled before vary.
  suffices hfrom : ∀ (d : Dict α) (d' : Dict β), Option.Rel R (d.find? k) (d'.find? k) →
      Option.Rel R ((es.foldl (fun d e ↦ d.insert e.1 e.2) d).find? k)
        ((fs.foldl (fun d e ↦ d.insert e.1 e.2) d').find? k) from hfrom _ _ .none
  induction h with
  | nil => exact fun _ _ hd ↦ hd
  | cons hef _ ih =>
    intro d d' hd
    refine ih _ _ ?_
    rw [find?_insert, find?_insert, ← hef.1]
    split
    · exact .some hef.2
    · exact hd

theorem rel_cases {α β : Type} {R : α → β → Prop} {x : Option α} {y : Option β}
    (h : Option.Rel R x y) : x = none ∧ y = none ∨ ∃ a b, x = some a ∧ y = some b ∧ R a b := by
  cases h with
  | none => exact .inl ⟨rfl, rfl⟩
  | some hab => exact .inr ⟨_, _, rfl, rfl, hab⟩

theorem setter?_congr {o o' : Output} (h : o.setters = o'.setters) : o.setter? = o'.setter? := by
  funext name
  rw [Output.setter?, Output.setter?, h]

/-- Fragments of one place. They differ at most among the variables, in lines that stand in a
relation. -/
structure Fragment.AlikeBut (R : String → String → Prop) (x y : Fragment) : Prop where
  hook : x.hook = y.hook
  text : x.hook ≠ .state → x.text = y.text
  lines : List.Forall₂ (Text.AlikeBut R) (Text.lines x.text) (Text.lines y.text)

namespace Plan

variable {p : Plan} {e e' : Environment} {os os' : Dict Output}

def Restarts (p : Plan) (e e' : Environment) (l l' : String) : Prop :=
  ∃ f ∈ p.features, f.kind.Restarts f.parameters e e' l l'

theorem solid_restarts (h : Unbroken e.supply.toList) (h' : Unbroken e'.supply.toList) :
    Solid (p.Restarts e e') := by
  constructor
  · intro l l' hl
    obtain ⟨f, -, v, b, hgives, rfl, rfl⟩ := hl
    have hname := f.kind.unbroken_shares v hgives.mem
    exact ⟨Solidity.unbroken_publicNumber hname (Environment.unbroken_share h b),
      Solidity.unbroken_publicNumber hname (Environment.unbroken_share h' b)⟩
  · intro l l' hl
    obtain ⟨f, -, v, b, -, rfl, rfl⟩ := hl
    exact ⟨Solidity.blank_publicNumber _ _, Solidity.blank_publicNumber _ _⟩

theorem resupplied_of_outputs (hrouter : e.swapRouter = e'.swapRouter) (hos : p.outputs e = .ok os)
    (hos' : p.outputs e' = .ok os') (id : FeatureId) :
    Option.Rel (fun o o' ↦ ∃ f ∈ p.features, f.kind.Resupplied f.parameters e e' o o')
      (os.find? id) (os'.find? id) := by
  obtain ⟨xs, hxs, h⟩ := bind_eq_ok_iff.mp hos
  cases h
  obtain ⟨ys, hys, h⟩ := bind_eq_ok_iff.mp hos'
  cases h
  have hmem := (List.forall₂_and_left _ _).mpr
    ⟨fun f (hf : f ∈ p.features) ↦ hf, mapM_eq_ok_iff.mp hxs⟩
  refine Dict.rel_find?_ofList (forall₂_of_common hmem (mapM_eq_ok_iff.mp hys) ?_) id
  intro f x y hx hy
  obtain ⟨hf, hx⟩ := hx
  obtain ⟨o, ho, -, rfl⟩ := outputOf_eq_ok_iff.mp hx
  obtain ⟨o', ho', -, rfl⟩ := outputOf_eq_ok_iff.mp hy
  obtain ⟨_, hwrite, hresupplied⟩ := FeatureKind.exists_output_resupplied hrouter ho
  rw [ho'] at hwrite
  cases hwrite
  exact ⟨rfl, f, hf, hresupplied⟩

theorem forall₂_fragments_self {R : String → String → Prop} (fs : List Fragment) :
    List.Forall₂ (Fragment.AlikeBut R) fs fs :=
  List.forall₂_same.mpr fun _ _ ↦ ⟨rfl, fun _ ↦ rfl, forall₂_alikeBut _⟩

theorem written_of_output {id : FeatureId} {o : Output} (ho : os.find? id = some o) {h : Hook}
    (hne : h ≠ .admin) :
    p.written os h (.feature id) = ((o.text? h).map (Fragment.mk h (.feature id))).toList := by
  cases h with
  | admin => exact absurd rfl hne
  | imports | state | construction | transfer | helpers =>
    simp only [written, fragmentsOf, ho]
    split
    · rename_i htext
      rw [htext]
      rfl
    · rename_i htext
      rw [htext]
      rfl

theorem resupplied_written (hsolid : Solid (p.Restarts e e'))
    (hos : ∀ id, Option.Rel (fun o o' ↦ ∃ f ∈ p.features, f.kind.Resupplied f.parameters e e' o o')
      (os.find? id) (os'.find? id)) (h : Hook) (x : Contributor) :
    List.Forall₂ (Fragment.AlikeBut (p.Restarts e e')) (p.written os h x) (p.written os' h x) := by
  cases x with
  | base | capability cap owner => exact forall₂_fragments_self _
  | feature id =>
    rcases rel_cases (hos id) with ⟨ho, ho'⟩ | ⟨o, o', ho, ho', f, hf, hresupplied⟩
    · simp only [written, fragmentsOf, ho, ho']
      exact forall₂_fragments_self _
    -- The setters are the same, and of the sections only that of the variables is not.
    · by_cases hadmin : h = .admin
      · subst hadmin
        simp only [written, fragmentsOf, ho, ho', setter?_congr hresupplied.setters]
        exact forall₂_fragments_self _
      · rw [written_of_output ho hadmin, written_of_output ho' hadmin]
        by_cases hstate : h = .state
        · subst hstate
          rcases rel_cases hresupplied.state with ⟨hls, hls'⟩ | ⟨ls, ls', hls, hls', halike⟩
          · rw [Output.text?, Output.text?, hls, hls']
            exact .nil
          · rw [Output.text?, Output.text?, hls, hls']
            refine .cons ⟨rfl, fun hne ↦ absurd rfl hne, ?_⟩ .nil
            refine hsolid.forall₂_lines_joinLines (halike.imp fun l l' hl ↦ ?_)
            exact hl.imp fun _ _ hrestarts ↦ ⟨f, hf, hrestarts⟩
        · rw [Output.text?, Output.text?, hresupplied.sections h hstate]
          exact forall₂_fragments_self _

theorem resupplied_of_assemble {s t : Spec} {settings : Settings} {a b : Assembly}
    (hsolid : Solid (p.Restarts (s.environment p) (t.environment p)))
    (ha : p.assemble s settings = .ok a) (hb : p.assemble t settings = .ok b) :
    List.Forall₂ (Fragment.AlikeBut (p.Restarts (s.environment p) (t.environment p))) a.fragments
      b.fragments := by
  obtain ⟨os, hos, fss, hfss, rfl⟩ := assemble_eq_ok_iff.mp ha
  obtain ⟨os', hos', gss, hgss, rfl⟩ := assemble_eq_ok_iff.mp hb
  rw [flatten_eq_of_assemble hfss, flatten_eq_of_assemble hgss]
  exact forall₂_flatMap fun h _ ↦ forall₂_flatMap fun x _ ↦
    resupplied_written hsolid (resupplied_of_outputs rfl hos hos') h x

end Plan

namespace Assembly

variable {a b : Assembly} {R : String → String → Prop}

/-- Assemblies that agree apart from the supply in the header and from lines of the variables. -/
structure Resupplied (R : String → String → Prop) (a b : Assembly) : Prop where
  header : b.header = { a.header with supply := b.header.supply }
  frame : a.frame = b.frame
  fragments : List.Forall₂ (Fragment.AlikeBut R) a.fragments b.fragments

theorem Resupplied.fragmentsAt (h : Resupplied R a b) (hook : Hook) :
    List.Forall₂ (Fragment.AlikeBut R) (a.fragments.filter (·.hook == hook))
      (b.fragments.filter (·.hook == hook)) :=
  List.rel_filter (fun x y hxy ↦ by simp only [hxy.hook]) h.fragments

theorem Resupplied.textsAt_eq (h : Resupplied R a b) {hook : Hook} (hne : hook ≠ .state) :
    a.textsAt hook = b.textsAt hook := by
  rw [textsAt, textsAt, ← List.forall₂_eq_eq_eq, List.forall₂_map_left_iff,
    List.forall₂_map_right_iff]
  have hmem := (List.forall₂_and_left _ _).mpr ⟨fun x hx ↦ hx, h.fragmentsAt hook⟩
  refine hmem.imp fun x y hxy ↦ hxy.2.text ?_
  have hhook : x.hook = hook := by simpa using (List.mem_filter.mp hxy.1).2
  rw [hhook]
  exact hne

theorem Resupplied.middle {S : String → String → Prop} (h : Resupplied R a b) (hR : Solid R)
    (hS : ∀ l m, R l m → S ("    " ++ l) ("    " ++ m)) :
    List.Forall₂ (AlikeBut S) a.middle b.middle := by
  rw [Assembly.middle, Assembly.middle, members, members, textsAt, textsAt, List.map_map,
    List.map_map, List.flatMap_map, List.flatMap_map]
  refine List.rel_flatMap (h.fragmentsAt .state) fun x y hxy ↦
    List.rel_append (hR.forall₂_indent (fun l m hlm ↦ ?_) hxy.lines) (forall₂_alikeBut _)
  rw [margin_state]
  exact hS l m hlm

theorem Resupplied.frame_eq (h : Resupplied R a b) : a.front = b.front ∧
    a.header.contractLine = b.header.contractLine ∧
    a.header.constructorLine = b.header.constructorLine ∧
    ∃ rest, a.back = a.header.mintLine :: rest ∧ b.back = b.header.mintLine :: rest := by
  have htexts {hook : Hook} (hne : hook ≠ .state) := h.textsAt_eq hne
  have hmembers {hook : Hook} (hne : hook ≠ .state) : a.members hook = b.members hook := by
    rw [members, members, htexts hne]
  have himports : a.imports = b.imports := by
    rw [imports, imports, htexts (by decide)]
  have hbody : a.constructorBody = b.constructorBody := by
    rw [constructorBody, constructorBody, hmembers (by decide)]
  have hstages : a.members .transfer = b.members .transfer := hmembers (by decide)
  have htransfer : a.transferMember = b.transferMember := by
    simp only [transferMember, hstages, transferGuard, declarations, h.frame]
  have hadmin : a.members .admin = b.members .admin := hmembers (by decide)
  have hhelpers : a.members .helpers = b.members .helpers := hmembers (by decide)
  refine ⟨?_, ?_, ?_, _, rfl, ?_⟩
  · rw [front, front, himports, h.header]
  · rw [h.header]
    rfl
  · rw [h.header]
    rfl
  · have hdecimals : a.header.decimalsMember = b.header.decimalsMember := by
      rw [h.header]
      rfl
    rw [hbody, hdecimals, htransfer, hadmin, hhelpers]
    rfl

end Assembly

namespace Spec

variable {s : Spec}

def mintLine (s : Spec) : String :=
  "        _mint(msg.sender, " ++ s.supplyExpression ++ ");"

def shareLine (s : Spec) (v : ShareVariable) (basisPoints : Nat) : String :=
  "    " ++ publicNumber v.name (s.share basisPoints)

theorem mintLine_header (s : Spec) (settings : Settings) :
    (s.header settings).mintLine = s.mintLine := by
  rw [Header.mintLine_eq]
  rfl

theorem blank_shareLine (s : Spec) (v : ShareVariable) (basisPoints : Nat) :
    Text.blank (s.shareLine v basisPoints) = false := by
  rw [shareLine, Text.blank_append, Solidity.blank_publicNumber, Bool.and_false]

theorem Supplied.unbroken_share (h : s.Supplied) (basisPoints : Nat) :
    Unbroken (s.share basisPoints).toList :=
  Environment.unbroken_share (e := ⟨s.supplyExpression, false⟩) h.unbroken_supplyExpression
    basisPoints

theorem Supplied.unbroken_shareLine (h : s.Supplied) {v : ShareVariable}
    (hv : Unbroken v.name.toList) (basisPoints : Nat) :
    Unbroken (s.shareLine v basisPoints).toList := by
  rw [shareLine, unbroken_append]
  exact ⟨unbroken_of_eq rfl (by decide),
    Solidity.unbroken_publicNumber hv (h.unbroken_share basisPoints)⟩

theorem Supplied.isLine_mintLine (h : s.Supplied) : Text.IsLine s.mintLine.toList := by
  rw [← s.mintLine_header {}]
  exact Header.isLine_mintLine fun hfeed ↦ (h.unbroken_supplyExpression _ hfeed).1 rfl

end Spec

namespace Plan

def TellShare (p : Plan) (s t : Spec) (l m : String) : Prop :=
  ∃ f ∈ p.features, ∃ v b, f.kind.Gives f.parameters v b ∧
    l = s.shareLine v b ∧ m = t.shareLine v b

/-- Lines in which the contracts of two tokens tell their supplies. -/
def TellSupply (p : Plan) (s t : Spec) (l m : String) : Prop :=
  l = s.mintLine ∧ m = t.mintLine ∨ p.TellShare s t l m

theorem solid_tellShare {p : Plan} {s t : Spec} (hs : s.Supplied) (ht : t.Supplied) :
    Solid (p.TellShare s t) := by
  constructor
  · intro l m hlm
    obtain ⟨f, -, v, b, hgives, rfl, rfl⟩ := hlm
    have hname := f.kind.unbroken_shares v hgives.mem
    exact ⟨hs.unbroken_shareLine hname b, ht.unbroken_shareLine hname b⟩
  · intro l m hlm
    obtain ⟨f, -, v, b, -, rfl, rfl⟩ := hlm
    exact ⟨s.blank_shareLine v b, t.blank_shareLine v b⟩

end Plan

namespace Catalog

variable {c : Catalog} {s t : Spec} {settings : Settings} {art art' : Artifact}

theorem supplied_of_validate (h : c.validate s = .ok ()) : s.Supplied :=
  (admissible_of_validate h).supplied

theorem resupplied_of_generate (hname : s.name = t.name) (hsymbol : s.symbol = t.symbol)
    (hdecimals : s.decimals = t.decimals) (hfeatures : s.features = t.features)
    (hs : c.generate s settings = .ok art) (ht : c.generate t settings = .ok art') :
    ∃ p, c.plan s = .ok p ∧ List.Forall₂ (AlikeBut (p.TellSupply s t)) (Text.lines art.sourceText)
      (Text.lines art'.sourceText) := by
  obtain ⟨p, a, hp, ha, -, hlines⟩ := exists_lines_of_generate hs
  obtain ⟨q, b, hq, hb, -, hlines'⟩ := exists_lines_of_generate ht
  obtain rfl : p = q := by
    rw [plan_eq_of_features hfeatures, hq] at hp
    exact (Except.ok.inj hp).symm
  have hsupplied := supplied_of_validate (validate_of_generate hs)
  have hsupplied' := supplied_of_validate (validate_of_generate ht)
  have hsolid : Solid (p.Restarts (s.environment p) (t.environment p)) :=
    Plan.solid_restarts hsupplied.unbroken_supplyExpression hsupplied'.unbroken_supplyExpression
  have hfragments := Plan.resupplied_of_assemble hsolid ha hb
  have hresupplied : Assembly.Resupplied (p.Restarts (s.environment p) (t.environment p)) a b := by
    refine ⟨?_, ?_, hfragments⟩
    · rw [Plan.header_of_assemble ha, Plan.header_of_assemble hb]
      simp only [Spec.header, Spec.contractName, hname, hsymbol, hdecimals]
    · obtain ⟨_, -, _, -, rfl⟩ := Plan.assemble_eq_ok_iff.mp ha
      obtain ⟨_, -, _, -, rfl⟩ := Plan.assemble_eq_ok_iff.mp hb
      rfl
  obtain ⟨hfront, hcontract, hconstructor, rest, hback, hback'⟩ := hresupplied.frame_eq
  have hmiddle : List.Forall₂ (AlikeBut (p.TellShare s t)) (Text.lines (endLines a.middle))
      (Text.lines (endLines b.middle)) := by
    refine (Plan.solid_tellShare hsupplied hsupplied').forall₂_lines_endLines
      (hresupplied.middle hsolid fun l m hlm ↦ ?_)
    obtain ⟨f, hf, v, n, hgives, rfl, rfl⟩ := hlm
    exact ⟨f, hf, v, n, hgives, rfl, rfl⟩
  have hmint (x : Spec) (hx : x.Supplied) (ls : List String) :
      Text.lines (endLines ((x.header settings).mintLine :: ls)) =
        x.mintLine :: Text.lines (endLines ls) := by
    rw [Text.lines_endLines_cons, Spec.mintLine_header,
      Text.lines_endLines_singleton hx.isLine_mintLine, List.singleton_append]
  refine ⟨p, hp, ?_⟩
  rw [hlines, hlines', hback, hback', ← hfront, ← hcontract, ← hconstructor,
    Plan.header_of_assemble ha, Plan.header_of_assemble hb, hmint s hsupplied,
    hmint t hsupplied']
  refine List.rel_append (List.rel_append (forall₂_alikeBut _) (.cons (.inl rfl) ?_)) ?_
  · exact hmiddle.imp fun l m hlm ↦ hlm.imp fun _ _ ↦ .inr
  · exact .cons (.inl rfl) (.cons (.inr (.inl ⟨rfl, rfl⟩)) (forall₂_alikeBut _))

end Catalog

end TokenContract
