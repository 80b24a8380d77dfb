import TokenContract.Proofs.Json.Compact
import TokenContract.Spec.Fingerprint

namespace TokenContract

open Json (Tells bare_writeBool bare_writeReal)

namespace Value

/-- Equal values, and any two numbers that are not finite. -/
def Alike (v w : Value) : Prop :=
  v = w ∨ ∃ x y, v = .number x ∧ w = .number y ∧ x.isFinite = false ∧ y.isFinite = false

theorem tells (v w : Value) : Tells v.toJson w.toJson (v.Alike w) := by
  intro x y hx hy h
  cases v with
  | bool a =>
    cases w with
    | bool b =>
      obtain ⟨rfl, hxy⟩ := Json.tells_bool a b x y hx hy h
      exact ⟨.inl rfl, hxy⟩
    | number n =>
      have heq := ((bare_writeBool a).append_inj (bare_writeReal n) hx hy h).1
      exact absurd heq.symm (Json.writeReal_ne_bool n a)
    | text t => exact absurd h (bare_writeBool a).append_ne_quote
  | number m =>
    cases w with
    | bool b =>
      have heq := ((bare_writeReal m).append_inj (bare_writeBool b) hx hy h).1
      exact absurd heq (Json.writeReal_ne_bool m b)
    | number n =>
      obtain ⟨heq, hxy⟩ := (bare_writeReal m).append_inj (bare_writeReal n) hx hy h
      refine ⟨?_, hxy⟩
      rcases Json.writeReal_inj heq with rfl | ⟨hm, hn⟩
      · exact .inl rfl
      · exact .inr ⟨m, n, rfl, rfl, hm, hn⟩
    | text t => exact absurd h (bare_writeReal m).append_ne_quote
  | text s =>
    cases w with
    | bool b => exact absurd h (bare_writeBool b).append_ne_quote'
    | number n => exact absurd h (bare_writeReal n).append_ne_quote'
    | text t =>
      obtain ⟨rfl, hxy⟩ := Json.quote_append_inj h
      exact ⟨.inl rfl, hxy⟩

theorem Alike.compactChars_eq {v w : Value} (h : v.Alike w) :
    Json.compactChars v.toJson = Json.compactChars w.toJson := by
  have hnull {x : Binary64} (hx : x.isFinite = false) : Json.writeReal x = "null".toList := by
    cases x with
    | finite s n hn => cases hx
    | nan | infinite s => rfl
  obtain rfl | ⟨x, y, rfl, rfl, hx, hy⟩ := h
  · rfl
  · simp only [toJson, Json.compactChars, hnull hx, hnull hy]

end Value

/-- Dictionaries with the same keys and related values under them. -/
def Dict.Related {α : Type} (R : α → α → Prop) (d e : Dict α) : Prop :=
  List.Forall₂ (fun a b ↦ a.1 = b.1 ∧ R a.2 b.2) d.entries e.entries

theorem Dict.Related.compactChars_eq {α : Type} {R : α → α → Prop} {d e : Dict α}
    (h : d.Related R e) {f : α → Json}
    (hf : ∀ a b, R a b → Json.compactChars (f a) = Json.compactChars (f b)) :
    Json.compactChars (.object (d.map f).entries) =
      Json.compactChars (.object (e.map f).entries) := by
  refine Json.compactChars_object_congr ?_
  rw [map, map, List.forall₂_map_left_iff, List.forall₂_map_right_iff]
  exact h.imp fun a b hab ↦ ⟨hab.1, hf _ _ hab.2⟩

namespace Selection

structure Alike (s t : Selection) : Prop where
  enabled : s.enabled = t.enabled
  parameters : s.parameters.Related Value.Alike t.parameters

theorem tells (s t : Selection) : Tells s.toJson t.toJson (s.Alike t) := by
  intro x y hx hy h
  obtain ⟨-, henabled, h⟩ := Json.more_cons_inj (Json.tells_bool _ _) (Json.more_of_object h)
  obtain ⟨-, hparameters, h⟩ := Json.more_cons_inj (Json.tells_object Value.tells _ _) h
  exact ⟨⟨henabled, hparameters⟩, Json.eq_of_more_nil h⟩

theorem Alike.compactChars_eq {s t : Selection} (h : s.Alike t) :
    Json.compactChars s.toJson = Json.compactChars t.toJson := by
  have hparameters := h.parameters.compactChars_eq fun _ _ ↦ Value.Alike.compactChars_eq
  rw [toJson, toJson, h.enabled]
  exact Json.compactChars_object_congr (.cons ⟨rfl, rfl⟩ (.cons ⟨rfl, hparameters⟩ .nil))

end Selection

namespace Spec

/-- Specifications that differ at most in numbers that are not finite. -/
structure Alike (s t : Spec) : Prop where
  name : s.name = t.name
  symbol : s.symbol = t.symbol
  totalSupply : s.totalSupply = t.totalSupply
  decimals : s.decimals = t.decimals
  features : s.features.Related Selection.Alike t.features

theorem tells (s t : Spec) : Tells s.toJson t.toJson (s.Alike t) := by
  intro x y hx hy h
  obtain ⟨-, hname, h⟩ := Json.more_cons_inj (Json.tells_text _ _) (Json.more_of_object h)
  obtain ⟨-, hsymbol, h⟩ := Json.more_cons_inj (Json.tells_text _ _) h
  obtain ⟨-, hsupply, h⟩ := Json.more_cons_inj (Json.tells_text _ _) h
  obtain ⟨-, hdecimals, h⟩ := Json.more_cons_inj (Json.tells_nat _ _) h
  obtain ⟨-, hfeatures, h⟩ := Json.more_cons_inj (Json.tells_object Selection.tells _ _) h
  exact ⟨⟨hname, hsymbol, hsupply, UInt8.toNat_inj.mp hdecimals, hfeatures⟩, Json.eq_of_more_nil h⟩

/-- Specifications with one canonical text are alike. -/
theorem alike_of_canonical_eq {s t : Spec} (h : s.canonical = t.canonical) : s.Alike t := by
  have hchars : Json.compactChars s.toJson = Json.compactChars t.toJson := String.ofList_inj.mp h
  have hend : Json.Delimited ['}'] := ⟨[], .inr rfl⟩
  exact (tells s t ['}'] ['}'] hend hend (by rw [hchars])).1

theorem Alike.canonical_eq {s t : Spec} (h : s.Alike t) : s.canonical = t.canonical := by
  have hfeatures := h.features.compactChars_eq fun _ _ ↦ Selection.Alike.compactChars_eq
  rw [canonical, canonical, toJson, toJson, h.name, h.symbol, h.totalSupply, h.decimals]
  refine congrArg String.ofList (Json.compactChars_object_congr ?_)
  exact .cons ⟨rfl, rfl⟩ (.cons ⟨rfl, rfl⟩ (.cons ⟨rfl, rfl⟩ (.cons ⟨rfl, rfl⟩
    (.cons ⟨rfl, hfeatures⟩ .nil))))

theorem canonical_eq_iff_alike {s t : Spec} : s.canonical = t.canonical ↔ s.Alike t :=
  ⟨alike_of_canonical_eq, Alike.canonical_eq⟩

end Spec

end TokenContract
