import Mathlib.Data.Finset.Basic
import Mathlib.Data.List.Nodup

/-!
# Files and the records that name them

A file is put first and recorded later, so one file may be waiting for its
record; a record is dropped together with its file, which may not be removed.
`Claimed` says that each file has its record or waits for it. An operation
keeps that exactly if it is lossless: it does not abandon a file that waits,
nor drop a record whose file stays (`claimed_apply_iff`).
-/

namespace SynapsNotes.Framework

structure Deposits (ν : Type*) where
  files : Finset ν
  records : List ν
  /-- The file that waits for its record. -/
  pending : Option ν

namespace Deposits

inductive Op (ν : Type*)
  | put (name : ν)
  | record
  | abandon
  | drop (name : ν) (removed : Bool)

variable {ν : Type*}

/-- No file has two records, and the one that waits for a record has none. -/
structure WellKept (d : Deposits ν) : Prop where
  nodup : d.records.Nodup
  pending_mem : ∀ name ∈ d.pending, name ∈ d.files
  pending_notMem : ∀ name ∈ d.pending, name ∉ d.records

/-- Each file has a record or waits for it. -/
def Claimed (d : Deposits ν) : Prop := ∀ name ∈ d.files, name ∈ d.records ∨ name ∈ d.pending

/-- A file is put under a new name, and only a record that exists is
dropped. -/
def Allowed (d : Deposits ν) : Op ν → Prop
  | .put name => d.pending = none ∧ name ∉ d.files ∧ name ∉ d.records
  | .record => True
  | .abandon => True
  | .drop name _ => name ∈ d.records

/-- No file is left without a record to come. -/
def Lossless (d : Deposits ν) : Op ν → Prop
  | .put _ => True
  | .record => True
  | .abandon => d.pending = none
  | .drop name removed => removed = true ∨ name ∉ d.files

variable [DecidableEq ν]

def apply (d : Deposits ν) : Op ν → Deposits ν
  | .put name => { d with files := insert name d.files, pending := some name }
  | .record => { d with records := d.records ++ d.pending.toList, pending := none }
  | .abandon => { d with pending := none }
  | .drop name removed =>
    { d with
      files := if removed then d.files.erase name else d.files
      records := d.records.filter (· ≠ name) }

variable {d : Deposits ν} {op : Op ν}

theorem apply_abandon (h : d.pending = none) : d.apply .abandon = d := by
  cases d
  cases h
  rfl

theorem mem_files_apply {name : ν} (h : name ∈ (d.apply op).files) : name ∈ d.files ∨ op = .put name := by
  cases op with
  | put other => exact (Finset.mem_insert.mp h).elim (fun heq => .inr (heq ▸ rfl)) .inl
  | record => exact .inl h
  | abandon => exact .inl h
  | drop other removed =>
    cases removed with
    | false => exact .inl h
    | true => exact .inl (Finset.mem_of_mem_erase h)

theorem mem_records_apply {name : ν} (h : name ∈ (d.apply op).records) : name ∈ d.records ∨ name ∈ d.pending := by
  cases op with
  | put other => exact .inl h
  | record => exact (List.mem_append.mp h).imp_right Option.mem_toList.mp
  | abandon => exact .inl h
  | drop other removed => exact .inl (List.mem_of_mem_filter h)

/-- Dropping a record takes no other file away. -/
theorem mem_files_drop {name other : ν} {removed : Bool} (hne : other ≠ name) :
    other ∈ (d.apply (.drop name removed)).files ↔ other ∈ d.files := by
  cases removed with
  | false => exact Iff.rfl
  | true => exact Finset.mem_erase.trans (and_iff_right hne)

theorem WellKept.apply (h : d.WellKept) (hop : d.Allowed op) : (d.apply op).WellKept := by
  cases op with
  | put name =>
    refine ⟨h.nodup, fun other hother => ?_, fun other hother => ?_⟩
    · obtain rfl := Option.mem_some_iff.mp hother
      exact Finset.mem_insert_self _ _
    · obtain rfl := Option.mem_some_iff.mp hother
      exact hop.2.2
  | record =>
    refine ⟨?_, fun _ hname => (nomatch hname), fun _ hname => (nomatch hname)⟩
    refine List.nodup_append'.mpr ⟨h.nodup, ?_, fun name hrecord hpending => ?_⟩
    · cases d.pending <;> simp
    · exact h.pending_notMem name (Option.mem_toList.mp hpending) hrecord
  | abandon => exact ⟨h.nodup, fun _ hname => (nomatch hname), fun _ hname => (nomatch hname)⟩
  | drop name removed =>
    refine ⟨h.nodup.filter _, fun other hother => ?_, fun other hother hrecord => ?_⟩
    · have hne : other ≠ name := fun heq => h.pending_notMem other hother (heq ▸ hop)
      exact (mem_files_drop hne).mpr (h.pending_mem other hother)
    · exact h.pending_notMem other hother (List.mem_of_mem_filter hrecord)

theorem claimed_put_iff {name : ν} (hop : d.Allowed (.put name)) : (d.apply (.put name)).Claimed ↔ d.Claimed := by
  obtain ⟨hnone, hfresh, -⟩ := hop
  simp only [Claimed, apply, hnone, Finset.mem_insert, Option.mem_some_iff, Option.not_mem_none, or_false]
  constructor
  · intro hc other hother
    refine (hc other (.inr hother)).resolve_right ?_
    rintro rfl
    exact hfresh hother
  · rintro hc other (rfl | hother)
    · exact .inr rfl
    · exact .inl (hc other hother)

theorem claimed_abandon_iff (h : d.WellKept) : (d.apply .abandon).Claimed ↔ d.Claimed ∧ d.pending = none := by
  constructor
  · intro hc
    refine ⟨fun name hname => .inl ((hc name hname).resolve_right (Option.not_mem_none _)), ?_⟩
    refine Option.eq_none_iff_forall_not_mem.mpr fun name hname => ?_
    rcases hc name (h.pending_mem name hname) with hrecord | hnone
    · exact h.pending_notMem name hname hrecord
    · exact nomatch hnone
  · rintro ⟨hc, hnone⟩
    rwa [apply_abandon hnone]

theorem claimed_drop_iff {name : ν} {removed : Bool} (h : d.WellKept) (hop : name ∈ d.records) :
    (d.apply (.drop name removed)).Claimed ↔ d.Claimed ∧ (removed = true ∨ name ∉ d.files) := by
  constructor
  · intro hc
    refine ⟨fun other hother => ?_, ?_⟩
    · by_cases heq : other = name
      · exact .inl (heq ▸ hop)
      · exact (hc other ((mem_files_drop heq).mpr hother)).imp_left List.mem_of_mem_filter
    · by_contra hloss
      obtain ⟨hremoved, hname⟩ := not_or.mp hloss
      have hstays : name ∈ (d.apply (.drop name removed)).files := by simpa [apply, hremoved] using not_not.mp hname
      rcases hc name hstays with hrecord | hwaits
      · simp [apply] at hrecord
      · exact h.pending_notMem name hwaits hop
  · rintro ⟨hc, hloss⟩ other hother
    have hne : other ≠ name := by
      rintro rfl
      rcases hloss with rfl | hnone
      · exact Finset.notMem_erase _ _ hother
      · exact hnone ((mem_files_apply hother).resolve_right nofun)
    refine (hc other ((mem_files_drop hne).mp hother)).imp_left fun hrecord => List.mem_filter.mpr ⟨hrecord, ?_⟩
    simpa using hne

/-- What is left without a record stays so, and only an operation that is not
lossless leaves a file without one. -/
theorem claimed_apply_iff (h : d.WellKept) (hop : d.Allowed op) :
    (d.apply op).Claimed ↔ d.Claimed ∧ d.Lossless op := by
  cases op with
  | put name => exact (claimed_put_iff hop).trans (and_iff_left trivial).symm
  | record => simp [Claimed, apply, Lossless, Option.mem_toList]
  | abandon => exact claimed_abandon_iff h
  | drop name removed => exact claimed_drop_iff h hop

/-- Each record's file is there. -/
def Stocked (d : Deposits ν) : Prop := ∀ name ∈ d.records, name ∈ d.files

/-- A file goes with its own record only. -/
theorem Stocked.apply (hs : d.Stocked) (h : d.WellKept) (hop : d.Allowed op) : (d.apply op).Stocked := by
  intro name hname
  cases op with
  | put other => exact Finset.mem_insert_of_mem (hs name hname)
  | record =>
    rcases List.mem_append.mp hname with hrecord | hpending
    · exact hs name hrecord
    · exact h.pending_mem name (Option.mem_toList.mp hpending)
  | abandon => exact hs name hname
  | drop other removed =>
    obtain ⟨hrecord, hne⟩ := List.mem_filter.mp hname
    exact (mem_files_drop (of_decide_eq_true hne)).mpr (hs name hrecord)

end Deposits

end SynapsNotes.Framework
