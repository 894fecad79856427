import Mathlib.Data.List.Basic

/-!
# Lists of enclosed parts

`enclose` writes parts one after the other, each between an opening and a
closing mark with a gap behind it, and one last part that is left open. `read`
takes such a list apart again. It gets back the parts that were written if no
mark stands in one of them (`read_enclose`), and if one does, what it reads
cannot be as many parts (`unmarked_of_read_enclose`).
-/

namespace SynapsNotes.Framework

variable {σ : Type*}

def enclose (opening closing gap : σ) (parts : List (List σ)) (last : List σ) : List σ :=
  parts.flatMap (fun part => opening :: (part ++ [closing, gap])) ++ opening :: last

variable {opening closing gap : σ} {parts ps : List (List σ)} {part last l p : List σ}

theorem enclose_cons : enclose opening closing gap (part :: parts) last =
    opening :: (part ++ closing :: gap :: enclose opening closing gap parts last) := by
  simp [enclose]

/-- No mark stands in the part. -/
def Unmarked (opening closing : σ) (part : List σ) : Prop := opening ∉ part ∧ closing ∉ part

theorem unmarked_cons {s : σ} : Unmarked opening closing (s :: part) ↔
    (opening ≠ s ∧ closing ≠ s) ∧ Unmarked opening closing part := by
  simp only [Unmarked, List.mem_cons, not_or]
  exact and_and_and_comm

variable [DecidableEq σ]

/-- Reads on, between two parts (`none`) or inside one, of which some symbols
have been read. -/
def readFrom (opening closing gap : σ) : Option (List σ) → List σ → Option (List (List σ) × List σ)
  | none, [] => none
  | none, s :: rest =>
    if s = opening then readFrom opening closing gap (some []) rest
    else if s = gap then readFrom opening closing gap none rest
    else none
  | some part, [] => some ([], part)
  | some part, s :: rest =>
    if s = closing then (readFrom opening closing gap none rest).map fun r => (part :: r.1, r.2)
    else if s = opening then none
    else readFrom opening closing gap (some (part ++ [s])) rest

def read (opening closing gap : σ) (l : List σ) : Option (List (List σ) × List σ) :=
  readFrom opening closing gap none l

/-! ## Reading what was written -/

/-- A part is read symbol by symbol. -/
theorem readFrom_append (gap : σ) (h : Unmarked opening closing part) (l : List σ) :
    readFrom opening closing gap (some p) (part ++ l) = readFrom opening closing gap (some (p ++ part)) l := by
  induction part generalizing p with
  | nil => rw [List.nil_append, List.append_nil]
  | cons s part ih =>
    obtain ⟨⟨ho, hc⟩, hpart⟩ := unmarked_cons.mp h
    rw [List.cons_append, readFrom, if_neg hc.symm, if_neg ho.symm, ih hpart, List.append_assoc]
    rfl

theorem read_enclose (hgap : gap ≠ opening) (hparts : ∀ part ∈ parts, Unmarked opening closing part)
    (hlast : Unmarked opening closing last) :
    read opening closing gap (enclose opening closing gap parts last) = some (parts, last) := by
  induction parts with
  | nil =>
    have hread := readFrom_append gap (p := []) hlast []
    rw [List.append_nil] at hread
    rw [read, enclose, List.flatMap_nil, List.nil_append, readFrom, if_pos rfl, hread]
    rfl
  | cons part parts ih =>
    obtain ⟨hpart, hparts⟩ := List.forall_mem_cons.mp hparts
    rw [enclose_cons, read, readFrom, if_pos rfl, readFrom_append gap hpart, readFrom, if_pos rfl, readFrom,
      if_neg hgap, if_pos rfl, ← read, ih hparts]
    rfl

/-! ## Counting the marks -/

/-- As many parts are read as there are marks. -/
theorem count_of_readFrom (hne : opening ≠ closing) (hgap : gap ≠ closing) {part : Option (List σ)}
    (h : readFrom opening closing gap part l = some (ps, last)) :
    l.count opening + part.toList.length = ps.length + 1 ∧ l.count closing = ps.length := by
  induction l generalizing part ps last with
  | nil =>
    cases part with
    | none => cases h
    | some part =>
      cases h
      exact ⟨rfl, rfl⟩
  | cons s l ih =>
    cases part with
    | none =>
      rw [readFrom] at h
      split at h
      · rename_i hs
        subst hs
        obtain ⟨ho, hc⟩ := ih h
        rw [List.count_cons_self, List.count_cons_of_ne hne]
        exact ⟨ho, hc⟩
      · rename_i hs
        split at h
        · rename_i hg
          subst hg
          rw [List.count_cons_of_ne hs, List.count_cons_of_ne hgap]
          exact ih h
        · cases h
    | some part =>
      rw [readFrom] at h
      split at h
      · rename_i hs
        subst hs
        obtain ⟨⟨ps', last'⟩, hr, heq⟩ := Option.map_eq_some_iff.mp h
        cases heq
        obtain ⟨ho, hc⟩ := ih hr
        rw [List.count_cons_of_ne hne.symm, List.count_cons_self]
        exact ⟨congrArg (· + 1) ho, congrArg (· + 1) hc⟩
      · rename_i hs
        split at h
        · cases h
        · rename_i ho
          rw [List.count_cons_of_ne ho, List.count_cons_of_ne hs]
          exact (ih h :)

/-- Every part is written with two marks, besides those that stand in it. -/
theorem count_enclose (parts : List (List σ)) (last : List σ) (hne : opening ≠ closing) (hgap : gap ≠ opening)
    (hgap' : gap ≠ closing) :
    (enclose opening closing gap parts last).count opening =
      parts.flatten.count opening + last.count opening + parts.length + 1 ∧
    (enclose opening closing gap parts last).count closing =
      parts.flatten.count closing + last.count closing + parts.length := by
  induction parts with
  | nil => simp [enclose, hne]
  | cons part parts ih =>
    obtain ⟨ho, hc⟩ := ih
    simp only [enclose_cons, List.count_cons_self, List.count_append, List.count_cons_of_ne hne,
      List.count_cons_of_ne hne.symm, List.count_cons_of_ne hgap, List.count_cons_of_ne hgap', ho, hc,
      List.flatten_cons, List.length_cons]
    omega

/-- Where a mark stands in a part, other than the parts that were written are
read. -/
theorem unmarked_of_read_enclose (hne : opening ≠ closing) (hgap : gap ≠ opening) (hgap' : gap ≠ closing)
    (h : read opening closing gap (enclose opening closing gap parts last) = some (ps, p))
    (hlength : ps.length = parts.length) :
    (∀ part ∈ parts, Unmarked opening closing part) ∧ Unmarked opening closing last := by
  obtain ⟨ho, hc⟩ := count_of_readFrom hne hgap' h
  obtain ⟨ho', hc'⟩ := count_enclose parts last hne hgap hgap'
  rw [Option.toList_none, List.length_nil, ho'] at ho
  rw [hc'] at hc
  have habsent : ∀ s : σ, parts.flatten.count s = 0 → ∀ part ∈ parts, s ∉ part := fun s hs part hpart hmem =>
    List.count_eq_zero.mp hs (List.mem_flatten_of_mem hpart hmem)
  exact ⟨fun part hpart => ⟨habsent opening (by omega) part hpart, habsent closing (by omega) part hpart⟩,
    List.count_eq_zero.mp (by omega), List.count_eq_zero.mp (by omega)⟩

end SynapsNotes.Framework
