import Mathlib.Data.List.Basic
import Mathlib.Data.List.Infix

/-!
# Paths in a tree of names

A path is a list of moves: into a named place, up to the one that holds it, or
nowhere. `follow` is where it leads, and a place is below another one if its
list of names goes on from the other's. A path without a move up leads below
the place it starts from (`prefix_follow`).

A path written as a text is split at its separators. What is said of every
piece, and of two pieces joined, is said of the pieces of two texts joined
(`forall_mem_splitOn_append`).
-/

namespace SynapsNotes.Framework

variable {α : Type*}

inductive Move (α : Type*)
  | here
  | up
  | into (name : α)
  deriving DecidableEq

def Move.apply (place : List α) : Move α → List α
  | here => place
  | up => place.dropLast
  | into name => place ++ [name]

/-- Where a path leads from a place. -/
def follow (place : List α) (path : List (Move α)) : List α := path.foldl Move.apply place

theorem follow_append (place : List α) (path path' : List (Move α)) :
    follow place (path ++ path') = follow (follow place path) path' := List.foldl_append

theorem follow_into (place names : List α) : follow place (names.map Move.into) = place ++ names := by
  induction names generalizing place with
  | nil => exact (List.append_nil place).symm
  | cons name names ih =>
    rw [List.map_cons, follow, List.foldl_cons]
    exact (ih _).trans (List.append_assoc ..)

/-- Without a move up, a path leads below its start. -/
theorem prefix_follow {place : List α} {path : List (Move α)} (h : Move.up ∉ path) : place <+: follow place path := by
  induction path generalizing place with
  | nil => exact List.prefix_refl place
  | cons m path ih =>
    rw [List.mem_cons, not_or] at h
    obtain ⟨hm, hpath⟩ := h
    refine List.IsPrefix.trans ?_ (ih hpath)
    cases m with
    | here => exact List.prefix_refl place
    | up => exact absurd rfl hm
    | into name => exact List.prefix_append place [name]

/-- Without a move up, what a path leads to is below all it leads through. -/
theorem follow_mono {place : List α} {way path : List (Move α)} (hway : way <+: path) (h : Move.up ∉ path) :
    follow place way <+: follow place path := by
  obtain ⟨rest, rfl⟩ := hway
  rw [follow_append]
  exact prefix_follow fun hup => h (List.mem_append_right way hup)

/-! ## Pieces of a text -/

variable [BEq α] {sep : α}

/-- Two texts joined: the last piece of the one and the first piece of the
other become one. -/
theorem splitOn_append (sep : α) (u t : List α) : ∃ us p h ts, u.splitOn sep = us ++ [p] ∧ t.splitOn sep = h :: ts ∧
    (u ++ t).splitOn sep = us ++ (p ++ h) :: ts := by
  induction u with
  | nil =>
    obtain ⟨h, ts, ht⟩ := List.exists_cons_of_ne_nil (List.splitOn_ne_nil sep t)
    exact ⟨[], [], h, ts, by simp, ht, ht⟩
  | cons c u ih =>
    obtain ⟨us, p, h, ts, hu, ht, hut⟩ := ih
    rw [List.cons_append, List.splitOn_cons_eq_if_modifyHead, List.splitOn_cons_eq_if_modifyHead, hu, hut]
    split
    · exact ⟨[] :: us, p, h, ts, rfl, ht, rfl⟩
    · cases us with
      | nil => exact ⟨[], c :: p, h, ts, rfl, ht, rfl⟩
      | cons a us => exact ⟨(c :: a) :: us, p, h, ts, rfl, ht, rfl⟩

theorem forall_mem_splitOn_append {Q : List α → Prop} (hQ : ∀ p q, Q p → Q q → Q (p ++ q)) {u t : List α}
    (hu : ∀ p ∈ u.splitOn sep, Q p) (ht : ∀ p ∈ t.splitOn sep, Q p) : ∀ p ∈ (u ++ t).splitOn sep, Q p := by
  obtain ⟨us, p, h, ts, hsu, hst, hsut⟩ := splitOn_append sep u t
  rw [hsu] at hu
  rw [hst] at ht
  rw [hsut]
  intro q hq
  rcases List.mem_append.mp hq with hq | hq
  · exact hu q (List.mem_append_left _ hq)
  rcases List.mem_cons.mp hq with rfl | hq
  · exact hQ p h (hu p (List.mem_append_right _ List.mem_cons_self)) (ht h List.mem_cons_self)
  · exact ht q (List.mem_cons_of_mem _ hq)

/-- The pieces around a part that begins and ends with a separator. -/
theorem mem_splitOn_around [ReflBEq α] {b x y p : List α} (h : p ∈ x.splitOn sep ∨ p ∈ y.splitOn sep) :
    p ∈ (x ++ (sep :: b ++ [sep]) ++ y).splitOn sep := by
  have hsplit : (x ++ (sep :: b ++ [sep]) ++ y).splitOn sep = x.splitOn sep ++ (b.splitOn sep ++ y.splitOn sep) := by
    rw [show x ++ (sep :: b ++ [sep]) ++ y = x ++ sep :: (b ++ sep :: y) by simp,
      List.splitOn_append_cons_self, List.splitOn_append_cons_self]
  rw [hsplit]
  rcases h with h | h
  · exact List.mem_append_left _ h
  · exact List.mem_append_right _ (List.mem_append_right _ h)

end SynapsNotes.Framework
