import TokenContract.Json.Writer
import TokenContract.Proofs.Number.Text
import Mathlib.Data.List.Forall2

namespace TokenContract.Json

def hexWeight (c : Char) : Nat :=
  (digitValue c).getD 0

/-- Reads back one character of a quoted text. -/
def unescape : List Char → Option (Char × List Char)
  | '\\' :: 'u' :: '0' :: '0' :: a :: b :: cs =>
    some (Char.ofNat (16 * hexWeight a + hexWeight b), cs)
  | '\\' :: 'n' :: cs => some ('\n', cs)
  | '\\' :: 'r' :: cs => some ('\r', cs)
  | '\\' :: 't' :: cs => some ('\t', cs)
  | '\\' :: 'b' :: cs => some ('\x08', cs)
  | '\\' :: 'f' :: cs => some ('\x0c', cs)
  | '\\' :: c :: cs => some (c, cs)
  | '"' :: _ => none
  | c :: cs => some (c, cs)
  | [] => none

theorem unescape_control : ∀ n < 32,
    Char.ofNat (16 * hexWeight (hexDigit (n / 16)) + hexWeight (hexDigit n)) = Char.ofNat n := by
  decide +kernel

theorem unescape_escape (c : Char) (r : List Char) : unescape (escape c ++ r) = some (c, r) := by
  unfold escape
  split
  · rfl
  · rfl
  · rfl
  · rfl
  · rfl
  · rfl
  · rfl
  · rename_i hquote hslash hn hr ht hb hf
    split
    · rename_i hlow
      have hcontrol := unescape_control c.toNat hlow
      rw [Char.ofNat_toNat] at hcontrol
      exact congrArg (fun d ↦ some (d, r)) hcontrol
    · rw [List.singleton_append]
      unfold unescape
      split <;> simp_all

theorem flatMap_escape_inj {as bs x y : List Char}
    (h : as.flatMap escape ++ '"' :: x = bs.flatMap escape ++ '"' :: y) : as = bs ∧ x = y := by
  induction as generalizing bs with
  | nil =>
    cases bs with
    | nil => simpa using h
    | cons b bs =>
      -- A quote by itself is not the beginning of an escaped character.
      have hread := congrArg unescape h
      rw [List.flatMap_cons, List.append_assoc, unescape_escape] at hread
      cases hread
  | cons a as ih =>
    cases bs with
    | nil =>
      have hread := congrArg unescape h
      rw [List.flatMap_cons, List.append_assoc, unescape_escape] at hread
      cases hread
    | cons b bs =>
      have hread := congrArg unescape h
      rw [List.flatMap_cons, List.flatMap_cons, List.append_assoc, List.append_assoc,
        unescape_escape, unescape_escape] at hread
      injection hread with hread
      injection hread with hab hrest
      obtain ⟨rfl, hxy⟩ := ih hrest
      exact ⟨hab ▸ rfl, hxy⟩

theorem quote_append_inj {s t : String} {x y : List Char} (h : quote s ++ x = quote t ++ y) :
    s = t ∧ x = y := by
  simp only [quote, List.cons_append, List.append_assoc, List.nil_append, List.cons.injEq,
    true_and] at h
  obtain ⟨hst, hxy⟩ := flatMap_escape_inj h
  exact ⟨String.toList_inj.mp hst, hxy⟩

/-- What follows a value in an object. -/
def Delimited (x : List Char) : Prop :=
  ∃ t, x = ',' :: t ∨ x = '}' :: t

/-- The texts of two documents tell whether `r` holds, whatever follows them. -/
def Tells (j k : Json) (r : Prop) : Prop :=
  ∀ x y, Delimited x → Delimited y → compactChars j ++ x = compactChars k ++ y → r ∧ x = y

def isMark (c : Char) : Bool :=
  c == ',' || c == '}' || c == '"'

/-- A text that holds no delimiter and no quote. -/
structure Bare (w : List Char) : Prop where
  ne_nil : w ≠ []
  unmarked : w.all (!isMark ·) = true

theorem Bare.append_inj {v w x y : List Char} (hv : Bare v) (hw : Bare w) (hx : Delimited x)
    (hy : Delimited y) (h : v ++ x = w ++ y) : v = w ∧ x = y := by
  have hcut {u z : List Char} (hu : Bare u) (hz : Delimited z) :
      (u ++ z).takeWhile (!isMark ·) = u ∧ (u ++ z).dropWhile (!isMark ·) = z := by
    have hall := List.all_eq_true.mp hu.unmarked
    rw [List.takeWhile_append_of_pos hall, List.dropWhile_append_of_pos hall]
    obtain ⟨t, rfl | rfl⟩ := hz
    · simp [isMark]
    · simp [isMark]
  obtain ⟨hv₁, hx₁⟩ := hcut hv hx
  obtain ⟨hw₁, hy₁⟩ := hcut hw hy
  exact ⟨by rw [← hv₁, h, hw₁], by rw [← hx₁, h, hy₁]⟩

theorem Bare.append_ne_quote {w x y : List Char} {s : String} (hw : Bare w) :
    w ++ x ≠ quote s ++ y := by
  obtain ⟨c, cs, rfl⟩ := List.exists_cons_of_ne_nil hw.ne_nil
  have hc := List.all_eq_true.mp hw.unmarked c List.mem_cons_self
  intro h
  injection h with h
  subst h
  cases hc

theorem Bare.append_ne_quote' {w x y : List Char} {s : String} (hw : Bare w) :
    quote s ++ y ≠ w ++ x :=
  fun h ↦ hw.append_ne_quote h.symm

theorem bare_writeBool (b : Bool) : Bare (compactChars (.bool b)) := by
  cases b with
  | false => exact ⟨by simp [compactChars], rfl⟩
  | true => exact ⟨by simp [compactChars], rfl⟩

theorem bare_of_isNumeral {w : List Char} (hne : w ≠ []) (h : ∀ c ∈ w, isNumeral c) : Bare w := by
  refine ⟨hne, List.all_eq_true.mpr fun c hc ↦ ?_⟩
  have hnumeral := h c hc
  rw [Bool.not_eq_true', isMark, Bool.or_eq_false_iff, Bool.or_eq_false_iff]
  refine ⟨⟨?_, ?_⟩, ?_⟩
  · refine beq_eq_false_iff_ne.mpr fun he ↦ ?_
    subst he
    cases hnumeral
  · refine beq_eq_false_iff_ne.mpr fun he ↦ ?_
    subst he
    cases hnumeral
  · refine beq_eq_false_iff_ne.mpr fun he ↦ ?_
    subst he
    cases hnumeral

theorem bare_writeReal (x : Binary64) : Bare (writeReal x) := by
  have hnull : Bare "null".toList := ⟨by simp, rfl⟩
  cases x with
  | nan => exact hnull
  | infinite s => exact hnull
  | finite s n h =>
    exact bare_of_isNumeral (Binary64.Layout.write_ne_nil _ _ _)
      Binary64.Layout.isNumeral_of_mem_write

theorem bare_digitChars (n : Nat) : Bare (digitChars n) :=
  bare_of_isNumeral (digitChars_ne_nil n) fun _ hc ↦
    isNumeral_of_isDigit (isDigit_of_mem_digitChars hc)

theorem writeReal_inj {x y : Binary64} (h : writeReal x = writeReal y) :
    x = y ∨ x.isFinite = false ∧ y.isFinite = false := by
  have hnull : 'n' ∈ "null".toList := by decide
  have hword {s : Bool} {n : Nat} : numberLayout.write s n ≠ "null".toList := fun he ↦ by
    cases Binary64.Layout.isNumeral_of_mem_write _ (he ▸ hnull)
  cases x with
  | nan | infinite s =>
    cases y with
    | nan | infinite t => exact .inr ⟨rfl, rfl⟩
    | finite t m hm => exact absurd h.symm hword
  | finite s n hn =>
    cases y with
    | nan | infinite t => exact absurd h hword
    | finite t m hm =>
      obtain ⟨rfl, rfl⟩ := Binary64.Layout.write_injective numberLayout hn hm h
      exact .inl rfl

theorem writeReal_ne_bool (x : Binary64) (b : Bool) : writeReal x ≠ compactChars (.bool b) := by
  intro h
  have hhead : (compactChars (.bool b)).head? ∈ [some 't', some 'f'] := by
    cases b with
    | false => decide
    | true => decide
  rw [← h] at hhead
  have hnull : ("null".toList).head? ∉ [some 't', some 'f'] := by decide
  cases x with
  | nan | infinite s => exact hnull hhead
  | finite s n hn =>
    obtain ⟨c, cs, hc⟩ := List.exists_cons_of_ne_nil
      (Binary64.Layout.write_ne_nil numberLayout s n)
    have hnum : isNumeral c := Binary64.Layout.isNumeral_of_mem_write c (hc ▸ List.mem_cons_self)
    rw [writeReal, hc] at hhead
    simp only [List.head?_cons, List.mem_cons, Option.some.injEq, List.not_mem_nil, or_false] at hhead
    rcases hhead with rfl | rfl
    · cases hnum
    · cases hnum

section Fields

variable {α : Type} {f : α → Json} {R : α → α → Prop}

def moreFields : List (String × Json) → List Char
  | [] => []
  | fs => ',' :: compactFields fs

theorem compactFields_cons (k : String) (j : Json) (fs : List (String × Json)) :
    compactFields ((k, j) :: fs) = quote k ++ ':' :: (compactChars j ++ moreFields fs) := by
  cases fs with
  | nil => simp [compactFields, moreFields]
  | cons g fs => simp [compactFields, moreFields]

theorem compactChars_object_congr {fs gs : List (String × Json)}
    (h : List.Forall₂ (fun f g ↦ f.1 = g.1 ∧ compactChars f.2 = compactChars g.2) fs gs) :
    compactChars (.object fs) = compactChars (.object gs) := by
  have hfields : moreFields fs = moreFields gs ∧ compactFields fs = compactFields gs := by
    induction h with
    | nil => exact ⟨rfl, rfl⟩
    | @cons f g fs gs hfg _ ih =>
      obtain ⟨k, i⟩ := f
      obtain ⟨l, j⟩ := g
      obtain ⟨hkey, hvalue⟩ : k = l ∧ compactChars i = compactChars j := hfg
      have hcons : compactFields ((k, i) :: fs) = compactFields ((l, j) :: gs) := by
        rw [compactFields_cons, compactFields_cons, hkey, hvalue, ih.1]
      exact ⟨congrArg (',' :: ·) hcons, hcons⟩
  simp only [compactChars, hfields.2]

theorem delimited_more (fs : List (String × Json)) (x : List Char) :
    Delimited (moreFields fs ++ '}' :: x) := by
  cases fs with
  | nil => exact ⟨x, .inr rfl⟩
  | cons g fs => exact ⟨compactFields (g :: fs) ++ '}' :: x, .inl rfl⟩

def fieldsOf (f : α → Json) (es : List (String × α)) : List (String × Json) :=
  es.map fun e ↦ (e.1, f e.2)

theorem more_cons_inj {k l : String} {i j : Json} {r : Prop} {fs gs : List (String × Json)}
    {x y : List Char} (h : Tells i j r)
    (heq : moreFields ((k, i) :: fs) ++ '}' :: x = moreFields ((l, j) :: gs) ++ '}' :: y) :
    k = l ∧ r ∧ moreFields fs ++ '}' :: x = moreFields gs ++ '}' :: y := by
  simp only [moreFields, compactFields_cons, List.cons_append, List.append_assoc, List.cons.injEq,
    true_and] at heq
  obtain ⟨hkey, heq⟩ := quote_append_inj heq
  injection heq with _ heq
  obtain ⟨hr, heq⟩ := h _ _ (delimited_more _ _) (delimited_more _ _) heq
  exact ⟨hkey, hr, heq⟩

theorem more_of_object {f g : String × Json} {fs gs : List (String × Json)} {x y : List Char}
    (h : compactChars (.object (f :: fs)) ++ x = compactChars (.object (g :: gs)) ++ y) :
    moreFields (f :: fs) ++ '}' :: x = moreFields (g :: gs) ++ '}' :: y := by
  simp only [compactChars, List.cons_append, List.append_assoc, List.nil_append, List.cons.injEq,
    true_and] at h
  exact congrArg (',' :: ·) h

theorem eq_of_more_nil {x y : List Char}
    (h : moreFields [] ++ '}' :: x = moreFields [] ++ '}' :: y) : x = y := by
  simpa [moreFields] using h

theorem moreFields_inj (h : ∀ a b, Tells (f a) (f b) (R a b)) {es gs : List (String × α)}
    {x y : List Char}
    (heq : moreFields (fieldsOf f es) ++ '}' :: x = moreFields (fieldsOf f gs) ++ '}' :: y) :
    List.Forall₂ (fun e g ↦ e.1 = g.1 ∧ R e.2 g.2) es gs ∧ x = y := by
  induction es generalizing gs with
  | nil =>
    cases gs with
    | nil => exact ⟨.nil, eq_of_more_nil heq⟩
    | cons g gs => simp [fieldsOf, moreFields] at heq
  | cons e es ih =>
    cases gs with
    | nil => simp [fieldsOf, moreFields] at heq
    | cons g gs =>
      obtain ⟨hkey, hvalue, heq⟩ := more_cons_inj (h _ _) heq
      obtain ⟨hrest, hxy⟩ := ih heq
      exact ⟨.cons ⟨hkey, hvalue⟩ hrest, hxy⟩

theorem tells_object (h : ∀ a b, Tells (f a) (f b) (R a b)) (es gs : List (String × α)) :
    Tells (.object (fieldsOf f es)) (.object (fieldsOf f gs))
      (List.Forall₂ (fun e g ↦ e.1 = g.1 ∧ R e.2 g.2) es gs) := by
  intro x y _ _ heq
  cases es with
  | nil =>
    cases gs with
    | nil => exact ⟨.nil, by simpa [fieldsOf, compactChars, compactFields] using heq⟩
    | cons g gs =>
      simp [fieldsOf, compactChars, compactFields, compactFields_cons, quote] at heq
  | cons e es =>
    cases gs with
    | nil => simp [fieldsOf, compactChars, compactFields, compactFields_cons, quote] at heq
    | cons g gs => exact moreFields_inj h (more_of_object heq)

end Fields

theorem tells_text (s t : String) : Tells (.text s) (.text t) (s = t) :=
  fun _ _ _ _ heq ↦ quote_append_inj heq

theorem tells_bool (a b : Bool) : Tells (.bool a) (.bool b) (a = b) := by
  intro x y hx hy heq
  obtain ⟨hab, hxy⟩ := (bare_writeBool a).append_inj (bare_writeBool b) hx hy heq
  refine ⟨?_, hxy⟩
  have hwords : "true".toList ≠ "false".toList := by decide
  cases a with
  | false =>
    cases b with
    | false => rfl
    | true => exact absurd hab.symm hwords
  | true =>
    cases b with
    | false => exact absurd hab hwords
    | true => rfl

theorem tells_nat (m n : Nat) : Tells (.integer m) (.integer n) (m = n) := by
  intro x y hx hy heq
  obtain ⟨hmn, hxy⟩ := (bare_digitChars m).append_inj (bare_digitChars n) hx hy heq
  have hread := congrArg (Nat.ofDigitChars 10 · 0) hmn
  simp only [ofDigitChars_digitChars] at hread
  exact ⟨hread, hxy⟩

end TokenContract.Json
