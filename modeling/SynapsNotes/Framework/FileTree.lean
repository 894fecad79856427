import Mathlib.Data.List.Infix
import Mathlib.Data.List.Perm.Basic
import Mathlib.Data.List.Pairwise

/-!
# Files by their paths

A tree of files is the list of its files, each with the names on the way to
it. No file lies on the way to another, so two files may be there together
only if they are `Apart`.

`add` makes a file where nothing is, `copy` one in place of whatever is there;
done for many files that are apart, both put these files into the tree and
change no other (`addAll_eq`, `copyAll_eq`).
-/

namespace SynapsNotes.Framework

abbrev FileTree (ν β : Type*) := List (List ν × β)

namespace FileTree

variable {ν β : Type*}

/-- Neither path leads through the other. -/
def Apart (p q : List ν) : Prop := ¬ p <+: q ∧ ¬ q <+: p

/-- Files that can be there together. -/
def Proper (t : FileTree ν β) : Prop := t.Pairwise fun f g => Apart f.1 g.1

theorem Apart.symm {p q : List ν} (h : Apart p q) : Apart q p := And.symm h

/-- What lies below two places that are apart is apart. -/
theorem Apart.append {p q : List ν} (h : Apart p q) (r s : List ν) : Apart (p ++ r) (q ++ s) := by
  constructor
  · intro hp
    rcases List.prefix_or_prefix_of_prefix ((List.prefix_append p r).trans hp) (List.prefix_append q s) with hpq | hqp
    · exact h.1 hpq
    · exact h.2 hqp
  · intro hq
    rcases List.prefix_or_prefix_of_prefix ((List.prefix_append q s).trans hq) (List.prefix_append p r) with hqp | hpq
    · exact h.2 hqp
    · exact h.1 hpq

theorem apart_append_left_iff {root p q : List ν} : Apart (root ++ p) (root ++ q) ↔ Apart p q := by
  simp only [Apart, List.prefix_append_right_inj]

/-- Paths that part at their first name. -/
theorem apart_cons {c d : ν} (h : c ≠ d) {p q : List ν} : Apart (c :: p) (d :: q) :=
  ⟨fun hp => h (List.cons_prefix_cons.mp hp).1, fun hq => h (List.cons_prefix_cons.mp hq).1.symm⟩

theorem Proper.nodup {t : FileTree ν β} (h : Proper t) : t.Nodup := by
  refine List.Pairwise.imp ?_ h
  rintro f g hfg rfl
  exact hfg.1 (List.prefix_refl _)

/-- A path leads to one file. -/
theorem Proper.eq_of_path {t : FileTree ν β} (h : Proper t) {f g : List ν × β} (hf : f ∈ t) (hg : g ∈ t)
    (heq : f.1 = g.1) : f = g := by
  induction t with
  | nil => cases hf
  | cons k t ih =>
    obtain ⟨hk, ht⟩ := List.pairwise_cons.mp h
    rcases List.mem_cons.mp hf with hfk | hf <;> rcases List.mem_cons.mp hg with hgk | hg
    · rw [hfk, hgk]
    · exact absurd (hfk ▸ heq ▸ List.prefix_refl _) (hk g hg).1
    · exact absurd (hgk ▸ heq ▸ List.prefix_refl _) (hk f hf).1
    · exact ih ht hf hg

variable [DecidableEq ν]

instance (p q : List ν) : Decidable (Apart p q) := inferInstanceAs (Decidable (¬ _ ∧ ¬ _))

/-- The rest of a path that leads through `root`. -/
def strip (root p : List ν) : Option (List ν) := if root <+: p then some (p.drop root.length) else none

/-- The files below a place, by the rest of the way. -/
def below (root : List ν) (t : FileTree ν β) : FileTree ν β :=
  t.filterMap fun f => (strip root f.1).map fun rest => (rest, f.2)

/-- A new file, unless there is something already or a file on the way. -/
def add (t : FileTree ν β) (f : List ν × β) : Option (FileTree ν β) :=
  if ∀ g ∈ t, Apart f.1 g.1 then some (t ++ [f]) else none

/-- All that is at a place or below it is removed. -/
def removeBelow (root : List ν) (t : FileTree ν β) : FileTree ν β := t.filter fun g => ¬ root <+: g.1

/-- What is in the file at a place. -/
def read (t : FileTree ν β) (p : List ν) : Option β := (t.find? fun f => f.1 = p).map Prod.snd

/-- A file copied in place of what is there, file or directory. -/
def copy (t : FileTree ν β) (src dest : List ν) : FileTree ν β :=
  let cleared := removeBelow dest t
  match read cleared src with
  | none => cleared
  | some x => (add cleared (dest, x)).getD cleared

variable {t files : FileTree ν β} {root p q : List ν} {x : β}

theorem strip_append (root p : List ν) : strip root (root ++ p) = some p := by
  rw [strip, if_pos (List.prefix_append root p), List.drop_left]

theorem strip_eq_some_iff : strip root p = some q ↔ p = root ++ q := by
  constructor
  · intro h
    unfold strip at h
    split at h
    · rename_i hp
      obtain ⟨rest, rfl⟩ := hp
      rw [List.drop_left] at h
      rw [Option.some.inj h]
    · exact nomatch h
  · rintro rfl
    exact strip_append root q

theorem strip_eq_none (h : ¬ root <+: p) : strip root p = none := if_neg h

theorem below_append (root : List ν) (t u : FileTree ν β) : below root (t ++ u) = below root t ++ below root u :=
  List.filterMap_append

/-- Files put below a place are found there. -/
theorem below_map (root : List ν) (files : FileTree ν β) :
    below root (files.map fun f => (root ++ f.1, f.2)) = files := by
  rw [below, List.filterMap_map]
  refine (List.filterMap_congr fun f _ => ?_).trans List.filterMap_some
  show (strip root (root ++ f.1)).map _ = some f
  rw [strip_append]
  rfl

/-- Files elsewhere are not. -/
theorem below_eq_nil (h : ∀ f ∈ t, ¬ root <+: f.1) : below root t = [] := by
  refine List.filterMap_eq_nil_iff.mpr fun f hf => ?_
  rw [strip_eq_none (h f hf)]
  rfl

theorem mem_below {f : List ν × β} : f ∈ below root t ↔ (root ++ f.1, f.2) ∈ t := by
  constructor
  · intro h
    obtain ⟨g, hg, hf⟩ := List.mem_filterMap.mp h
    obtain ⟨rest, hrest, rfl⟩ := Option.map_eq_some_iff.mp hf
    rw [← strip_eq_some_iff.mp hrest]
    exact hg
  · intro h
    refine List.mem_filterMap.mpr ⟨_, h, ?_⟩
    rw [strip_append]
    rfl

theorem Proper.below (h : Proper t) (root : List ν) : Proper (below root t) := by
  refine List.Pairwise.filterMap _ (fun f g hfg f' hf' g' hg' => ?_) h
  obtain ⟨r, hr, rfl⟩ := Option.map_eq_some_iff.mp hf'
  obtain ⟨s, hs, rfl⟩ := Option.map_eq_some_iff.mp hg'
  rw [strip_eq_some_iff.mp hr, strip_eq_some_iff.mp hs] at hfg
  exact apart_append_left_iff.mp hfg

omit [DecidableEq ν] in
theorem Proper.map_append (h : Proper files) (root : List ν) : Proper (files.map fun f => (root ++ f.1, f.2)) :=
  List.pairwise_map.mpr (h.imp fun hfg => apart_append_left_iff.mpr hfg)

theorem removeBelow_eq_self (h : ∀ g ∈ t, ¬ root <+: g.1) : removeBelow root t = t :=
  List.filter_eq_self.mpr fun g hg => decide_eq_true (h g hg)

theorem removeBelow_eq_nil (h : ∀ g ∈ t, root <+: g.1) : removeBelow root t = [] :=
  List.filter_eq_nil_iff.mpr fun g hg => by simpa using h g hg

theorem removeBelow_append (root : List ν) (t u : FileTree ν β) :
    removeBelow root (t ++ u) = removeBelow root t ++ removeBelow root u := List.filter_append ..

theorem mem_removeBelow {g : List ν × β} : g ∈ removeBelow root t ↔ g ∈ t ∧ ¬ root <+: g.1 := by
  rw [removeBelow, List.mem_filter, decide_eq_true_iff]

/-- What is below a place is found there, also from further above. -/
theorem below_below (p q : List ν) (t : FileTree ν β) : below q (below p t) = below (p ++ q) t := by
  unfold below
  rw [List.filterMap_filterMap]
  refine List.filterMap_congr fun f _ => ?_
  rw [Option.bind_map]
  cases hp : strip p f.1 with
  | none =>
    have hpq : strip (p ++ q) f.1 = none := strip_eq_none fun h => by
      obtain ⟨rest, hrest⟩ := (List.prefix_append p q).trans h
      rw [← hrest, strip_append] at hp
      exact nomatch hp
    rw [hpq]
    rfl
  | some rest =>
    rw [strip_eq_some_iff] at hp
    rw [Option.bind_some, Function.comp_apply, hp]
    by_cases hq : q <+: rest
    · obtain ⟨s, rfl⟩ := hq
      rw [strip_append, ← List.append_assoc, strip_append]
    · rw [strip_eq_none hq, strip_eq_none fun h => hq ((List.prefix_append_right_inj p).mp h)]

/-- A file is read as it is in the tree. -/
theorem read_of_mem (ht : Proper t) (h : (p, x) ∈ t) : read t p = some x := by
  induction t with
  | nil => cases h
  | cons g t ih =>
    obtain ⟨hg, ht⟩ := List.pairwise_cons.mp ht
    unfold read
    rw [List.find?_cons]
    rcases List.mem_cons.mp h with rfl | h
    · rw [decide_eq_true rfl]
      rfl
    · have hne : g.1 ≠ p := fun he => (hg _ h).1 (he ▸ List.prefix_refl _)
      rw [decide_eq_false hne]
      exact ih ht h

/-! ## Many files -/

/-- Files made one after the other. -/
def addAll (t : FileTree ν β) (files : FileTree ν β) : Option (FileTree ν β) := files.foldlM add t

theorem add_eq (h : ∀ g ∈ t, Apart p g.1) : add t (p, x) = some (t ++ [(p, x)]) := if_pos h

theorem addAll_eq (hfiles : Proper files) (h : ∀ f ∈ files, ∀ g ∈ t, Apart f.1 g.1) :
    addAll t files = some (t ++ files) := by
  induction files generalizing t with
  | nil => rw [List.append_nil]; rfl
  | cons f files ih =>
    obtain ⟨hf, hfiles⟩ := List.pairwise_cons.mp hfiles
    have hadd : add t f = some (t ++ [f]) := add_eq (h f List.mem_cons_self)
    have hrest := ih hfiles (t := t ++ [f]) fun g hg k hk => by
      rcases List.mem_append.mp hk with hk | hk
      · exact h g (List.mem_cons_of_mem f hg) k hk
      · exact List.mem_singleton.mp hk ▸ (hf g hg).symm
    rw [List.append_assoc] at hrest
    rw [addAll, List.foldlM_cons, hadd]
    exact hrest

/-- A copy, where no file is on the way. -/
theorem copy_eq {src dest : List ν} (ht : Proper t) (hsrc : (src, x) ∈ t) (hapart : Apart src dest)
    (hway : ∀ g ∈ t, g.1 <+: dest → g.1 = dest) : copy t src dest = removeBelow dest t ++ [(dest, x)] := by
  have hread : read (removeBelow dest t) src = some x :=
    read_of_mem (ht.filter _) (mem_removeBelow.mpr ⟨hsrc, hapart.2⟩)
  have hadd : add (removeBelow dest t) (dest, x) = some (removeBelow dest t ++ [(dest, x)]) := add_eq fun g hg => by
    obtain ⟨hg, hout⟩ := mem_removeBelow.mp hg
    exact ⟨hout, fun hpre => hout (hway g hg hpre ▸ List.prefix_refl _)⟩
  unfold copy
  simp only [hread, hadd, Option.getD_some]

/-- Copies made one after the other, each of a file and the place for it. -/
def copyAll (t : FileTree ν β) (files : List (List ν × List ν)) : FileTree ν β :=
  files.foldl (fun t f => copy t f.1 f.2) t

/-- Files copied from one directory to another, where no file is on the way. -/
theorem copyAll_eq {from_ to_ : List ν} (hfiles : Proper files) (hapart : Apart from_ to_) (ht : Proper t)
    (hsrc : ∀ f ∈ files, (from_ ++ f.1, f.2) ∈ t)
    (hway : ∀ f ∈ files, ∀ g ∈ t, g.1 <+: to_ ++ f.1 → g.1 = to_ ++ f.1) :
    copyAll t (files.map fun f => (from_ ++ f.1, to_ ++ f.1)) =
      (t.filter fun g => ∀ f ∈ files, ¬ to_ ++ f.1 <+: g.1) ++ files.map fun f => (to_ ++ f.1, f.2) := by
  induction files generalizing t with
  | nil =>
    rw [List.map_nil, List.map_nil, List.append_nil]
    exact (List.filter_eq_self.mpr fun g _ => by simp).symm
  | cons f files ih =>
    obtain ⟨hf, hfiles⟩ := List.pairwise_cons.mp hfiles
    have hf' : ∀ g ∈ files, Apart (to_ ++ f.1) (to_ ++ g.1) := fun g hg => apart_append_left_iff.mpr (hf g hg)
    have hcopy := copy_eq ht (hsrc f List.mem_cons_self) (hapart.append f.1 f.1) (hway f List.mem_cons_self)
    have hout : ∀ g ∈ removeBelow (to_ ++ f.1) t, Apart g.1 (to_ ++ f.1) := fun g hg => by
      obtain ⟨hg, hout⟩ := mem_removeBelow.mp hg
      exact ⟨fun hpre => hout (hway f List.mem_cons_self g hg hpre ▸ List.prefix_refl _), hout⟩
    have hproper : Proper (removeBelow (to_ ++ f.1) t ++ [(to_ ++ f.1, f.2)]) :=
      List.pairwise_append.mpr ⟨ht.filter _, List.pairwise_singleton _ _, fun g hg k hk =>
        List.mem_singleton.mp hk ▸ hout g hg⟩
    have hrest := ih hfiles hproper
      (fun g hg => List.mem_append_left _ (mem_removeBelow.mpr
        ⟨hsrc g (List.mem_cons_of_mem f hg), (hapart.append g.1 f.1).2⟩))
      fun g hg k hk => by
        rcases List.mem_append.mp hk with hk | hk
        · exact hway g (List.mem_cons_of_mem f hg) k (mem_removeBelow.mp hk).1
        · rw [List.mem_singleton.mp hk]
          exact fun hpre => absurd hpre (hf' g hg).1
    have hkept : [(to_ ++ f.1, f.2)].filter (fun g => ∀ k ∈ files, ¬ to_ ++ k.1 <+: g.1) = [(to_ ++ f.1, f.2)] :=
      List.filter_eq_self.mpr fun g hg => decide_eq_true fun k hk => by
        rw [List.mem_singleton.mp hg]
        exact (hf' k hk).2
    rw [List.map_cons, copyAll, List.foldl_cons, hcopy]
    refine hrest.trans ?_
    rw [List.filter_append, hkept, removeBelow, List.filter_filter, List.append_assoc, List.map_cons,
      List.singleton_append]
    congr 1
    refine List.filter_congr fun g _ => ?_
    simp only [List.forall_mem_cons, Bool.decide_and, Bool.and_comm]

end FileTree

end SynapsNotes.Framework
