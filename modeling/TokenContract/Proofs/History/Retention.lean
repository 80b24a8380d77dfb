import TokenContract.Proofs.History.Transparency
import Mathlib.Data.List.DropRight

namespace TokenContract

/-- The last record of a list under a fingerprint. -/
def Latest (rs : List Record) (fingerprint : String) (r : Record) : Prop :=
  ∃ older newer, rs = older ++ r :: newer ∧ r.fingerprint = fingerprint ∧
    ∀ x ∈ newer, x.fingerprint ≠ fingerprint

namespace Record

theorem artifact?_eq_some_iff {r : Record} {a : Artifact} :
    r.artifact? = some a ↔ r.outcome = .ok a := by
  rw [artifact?]
  cases r.outcome with
  | error e => simp [Except.toOption]
  | ok b => simp [Except.toOption]

theorem isSome_errorMessage?_iff (r : Record) : r.errorMessage?.isSome ↔ ¬r.artifact?.isSome := by
  rw [artifact?, errorMessage?]
  cases r.outcome with
  | error e => simp [Except.toOption]
  | ok a => simp [Except.toOption]

end Record

namespace History

variable {c : Catalog} {settings : Settings} {h : History} {s : Spec} {rs : List Record} {n : Nat}

/-- The record of a request that is not counted as a hit. -/
def entry (c : Catalog) (settings : Settings) (h : History) (s : Spec) : List Record :=
  let (answer, next) := h.generate c settings s
  if next.hits = h.hits then [.ofResult s answer] else []

/-- The records of the requests of a run that are not counted as hits, in their order. -/
def log (c : Catalog) (settings : Settings) (h : History) : List Spec → List Record
  | [] => []
  | s :: ss => h.entry c settings s ++ log c settings (h.generate c settings s).2 ss

/-- What a history is after a number of requests that left the log `rs`, and what the next request
does to it. -/
structure Law (c : Catalog) (settings : Settings) (requests : Nat) (rs : List Record)
    (h : History) : Prop where
  records : h.records = rs.rtake (min settings.capacity rs.length)
  misses : h.misses = rs.length
  requests : h.hits + h.misses = requests
  bounded : h.records.length ≤ settings.capacity
  hit : ∀ s, (h.generate c settings s).2.hits = h.hits + 1 ↔
    ∃ r a, Latest h.records s.fingerprint r ∧ r.outcome = .ok a
  served : ∀ s, (h.generate c settings s).2.hits = h.hits + 1 →
    (h.generate c settings s).2 = { h with hits := h.hits + 1 } ∧
      ∃ r a, Latest h.records s.fingerprint r ∧ r.outcome = .ok a ∧
        (h.generate c settings s).1 = .ok a
  missed : ∀ s, (h.generate c settings s).2.hits ≠ h.hits + 1 →
    (h.generate c settings s).2.hits = h.hits ∧
      (h.generate c settings s).2.misses = h.misses + 1 ∧
      (h.generate c settings s).1 = c.generate s settings
  find : ∀ s r, h.find? s = some r ↔ Latest h.records s.fingerprint r
  summary : h.summary = {
    tracked := h.records.length
    successful := h.records.countP (·.artifact?.isSome)
    failed := h.records.countP (·.errorMessage?.isSome)
    hits := h.hits
    misses := h.misses }
  tracked : h.summary.successful + h.summary.failed = h.summary.tracked
  nothing : settings.capacity = 0 → h.records = [] ∧ h.hits = 0

theorem find?_eq_some_iff {r : Record} :
    h.find? s = some r ↔ Latest h.records s.fingerprint r := by
  rw [find?, latest?, List.find?_eq_some_iff_append]
  constructor
  · intro hx
    obtain ⟨hr, newer, older, he, hnewer⟩ := hx
    refine ⟨older.reverse, newer.reverse, ?_, by simpa using hr, fun x hx ↦ ?_⟩
    · rw [← List.reverse_reverse h.records, he]
      simp
    · simpa using hnewer x (List.mem_reverse.mp hx)
  · intro hx
    obtain ⟨older, newer, he, hr, hnewer⟩ := hx
    refine ⟨by simpa using hr, newer.reverse, older.reverse, ?_, fun x hx ↦ ?_⟩
    · rw [he]
      simp
    · simpa using hnewer x (List.mem_reverse.mp hx)

theorem generate_of_latest {r : Record} {a : Artifact} (hr : Latest h.records s.fingerprint r)
    (ha : r.outcome = .ok a) :
    h.generate c settings s = (.ok a, { h with hits := h.hits + 1 }) := by
  rw [generate, find?_eq_some_iff.mpr hr, Option.bind_some, Record.artifact?_eq_some_iff.mpr ha]

theorem generate_of_not_latest
    (hnone : ¬∃ r a, Latest h.records s.fingerprint r ∧ r.outcome = .ok a) :
    h.generate c settings s = (c.generate s settings, { h with misses := h.misses + 1 }.record
      settings.capacity (.ofResult s (c.generate s settings))) := by
  have hbind : (h.find? s).bind Record.artifact? = none := by
    refine Option.bind_eq_none_iff.mpr fun r hr ↦ ?_
    cases ha : r.artifact? with
    | none => rfl
    | some a =>
      exact absurd ⟨r, a, find?_eq_some_iff.mp hr, Record.artifact?_eq_some_iff.mp ha⟩ hnone
  rw [generate, hbind]

@[simp]
theorem hits_record (h : History) (capacity : Nat) (r : Record) :
    (h.record capacity r).hits = h.hits := by
  unfold record
  split <;> rfl

@[simp]
theorem misses_record (h : History) (capacity : Nat) (r : Record) :
    (h.record capacity r).misses = h.misses := by
  unfold record
  split <;> rfl

theorem records_record {capacity : Nat} (hrs : h.records = rs.rtake (min capacity rs.length))
    (r : Record) : (h.record capacity r).records =
      (rs ++ [r]).rtake (min capacity (rs ++ [r]).length) := by
  have hlength : h.records.length = min capacity rs.length := by
    rw [hrs, List.rtake, List.length_drop]
    omega
  rw [record, List.length_append, List.length_singleton]
  by_cases hzero : capacity = 0
  · subst hzero
    simpa [List.rtake] using hrs
  rw [if_neg hzero, hlength]
  by_cases hfull : capacity ≤ rs.length
  · -- The oldest record gives way.
    have hcut : rs.length + 1 - capacity = rs.length - capacity + 1 := by omega
    have hroom : rs.length - capacity + 1 ≤ rs.length := by omega
    rw [if_pos (by omega), hrs, List.rtake, List.rtake, Nat.min_eq_left hfull,
      Nat.min_eq_left (by omega), List.drop_drop, List.length_append, List.length_singleton, hcut,
      List.drop_append_of_le_length hroom]
  · have hall : rs.rtake rs.length = rs := by simp [List.rtake]
    rw [if_neg (by omega), hrs, Nat.min_eq_right (by omega), hall, Nat.min_eq_right (by omega)]
    simp [List.rtake]

/-- The part of the law that one request hands on to the next. -/
structure Kept (settings : Settings) (requests : Nat) (rs : List Record) (h : History) :
    Prop where
  records : h.records = rs.rtake (min settings.capacity rs.length)
  misses : h.misses = rs.length
  requests : h.hits + h.misses = requests
  nothing : settings.capacity = 0 → h.hits = 0

theorem kept_empty (settings : Settings) : Kept settings 0 [] {} :=
  ⟨by simp [List.rtake], rfl, rfl, fun _ ↦ rfl⟩

theorem Kept.length_records (hh : Kept settings n rs h) :
    h.records.length = min settings.capacity rs.length := by
  rw [hh.records, List.rtake, List.length_drop]
  omega

theorem not_latest_nil {fingerprint : String} {r : Record} : ¬Latest [] fingerprint r := by
  intro hr
  obtain ⟨older, newer, he, -⟩ := hr
  cases older <;> cases he

theorem Kept.generate (hh : Kept settings n rs h) (c : Catalog) (s : Spec) :
    Kept settings (n + 1) (rs ++ h.entry c settings s) (h.generate c settings s).2 := by
  by_cases hex : ∃ r a, Latest h.records s.fingerprint r ∧ r.outcome = .ok a
  · obtain ⟨r, a, hr, ha⟩ := hex
    have hgen : h.generate c settings s = _ := generate_of_latest hr ha
    have hentry : h.entry c settings s = [] := by simp [entry, hgen]
    have hrequests := hh.requests
    rw [hentry, List.append_nil, hgen]
    refine ⟨hh.records, hh.misses, by simp only; omega, fun hzero ↦ ?_⟩
    have hempty : h.records = [] := by
      rw [hh.records, hzero, Nat.zero_min, List.rtake, Nat.sub_zero, List.drop_length]
    rw [hempty] at hr
    exact absurd hr not_latest_nil
  · have hgen : h.generate c settings s = _ := generate_of_not_latest hex
    have hentry : h.entry c settings s = [.ofResult s (c.generate s settings)] := by
      simp [entry, hgen]
    have hrequests := hh.requests
    have hmisses := hh.misses
    have hrecords : ({ h with misses := h.misses + 1 } : History).records =
        rs.rtake (min settings.capacity rs.length) := hh.records
    rw [hentry, hgen]
    refine ⟨records_record hrecords _, ?_, ?_, fun hzero ↦ ?_⟩
    · simp only [misses_record, List.length_append, List.length_singleton]
      omega
    · simp only [hits_record, misses_record]
      omega
    · simpa only [hits_record] using hh.nothing hzero

theorem Kept.run (hh : Kept settings n rs h) (c : Catalog) (ss : List Spec) :
    Kept settings (n + ss.length) (rs ++ h.log c settings ss) (h.run c settings ss).2 := by
  induction ss generalizing h rs n with
  | nil =>
    rw [log, List.append_nil]
    exact hh
  | cons s ss ih =>
    have hnext := ih (hh.generate c s)
    rw [List.append_assoc] at hnext
    rw [List.length_cons, Nat.add_comm ss.length, ← Nat.add_assoc]
    exact hnext

theorem countP_failures_eq (rs : List Record) :
    rs.length - rs.countP (·.artifact?.isSome) = rs.countP (·.errorMessage?.isSome) := by
  have hsplit := rs.length_eq_countP_add_countP (·.artifact?.isSome)
  have hfailures : rs.countP (fun r ↦ ¬r.artifact?.isSome) = rs.countP (·.errorMessage?.isSome) :=
    List.countP_congr fun r _ ↦ by simpa using (Record.isSome_errorMessage?_iff r).symm
  omega

theorem Kept.law (hh : Kept settings n rs h) (c : Catalog) : Law c settings n rs h := by
  have hserved {s : Spec} {r : Record} {a : Artifact} (hr : Latest h.records s.fingerprint r)
      (ha : r.outcome = .ok a) : (h.generate c settings s).2.hits = h.hits + 1 := by
    rw [generate_of_latest hr ha]
  have hmissed {s : Spec} (hnone : ¬∃ r a, Latest h.records s.fingerprint r ∧ r.outcome = .ok a) :
      (h.generate c settings s).2.hits = h.hits := by
    rw [generate_of_not_latest hnone, hits_record]
  have hhit (s : Spec) : (h.generate c settings s).2.hits = h.hits + 1 ↔
      ∃ r a, Latest h.records s.fingerprint r ∧ r.outcome = .ok a := by
    refine ⟨fun hs ↦ ?_, fun ⟨r, a, hr, ha⟩ ↦ hserved hr ha⟩
    by_contra hnone
    rw [hmissed hnone] at hs
    omega
  have hlength := hh.length_records
  refine {
    records := hh.records
    misses := hh.misses
    requests := hh.requests
    bounded := by omega
    hit := hhit
    served := fun s hs ↦ ?_
    missed := fun s hs ↦ ?_
    find := fun s r ↦ find?_eq_some_iff
    summary := ?_
    tracked := ?_
    nothing := fun hzero ↦ ⟨?_, hh.nothing hzero⟩ }
  · obtain ⟨r, a, hr, ha⟩ := (hhit s).mp hs
    rw [generate_of_latest hr ha]
    exact ⟨rfl, r, a, hr, ha, rfl⟩
  · have hnone := fun hex ↦ hs ((hhit s).mpr hex)
    rw [generate_of_not_latest hnone, hits_record, misses_record]
    exact ⟨rfl, rfl, rfl⟩
  · rw [History.summary, countP_failures_eq]
  · have hle := List.countP_le_length (p := (·.artifact?.isSome)) (l := h.records)
    simp only [History.summary]
    omega
  · rw [← List.length_eq_zero_iff]
    omega

/-- Whatever was requested of a new history, it holds the end of the log of what it did not answer
itself. -/
theorem law_run (c : Catalog) (settings : Settings) (ss : List Spec) :
    Law c settings ss.length (({} : History).log c settings ss)
      (({} : History).run c settings ss).2 := by
  have hkept := (kept_empty settings).run c ss
  rw [List.nil_append, Nat.zero_add] at hkept
  exact hkept.law c

end History

end TokenContract
