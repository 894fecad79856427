import Mathlib.Data.Set.Insert
import SynapsNotes.Framework.Transition

/-!
# What a run has passed

An invariant may relate the state of a run to the states that the run has
passed: what is kept now was so in one of them. `Meets.passed` is the
induction for such an invariant, which a step keeps while its state is added
to those passed.
-/

namespace SynapsNotes.Framework.Machine

variable {σ α : Type*} (M : Machine σ α)

/-- The states that a run goes through, the first and the last included. -/
def Passed (s : σ) (as : List α) : Set σ := {v | ∃ bs, bs <+: as ∧ M.run s bs = some v}

variable {M}

theorem mem_passed_self (s : σ) (as : List α) : s ∈ M.Passed s as := ⟨[], List.nil_prefix, rfl⟩

theorem passed_nil (s : σ) : M.Passed s [] = {s} := by
  ext v
  constructor
  · rintro ⟨bs, hbs, hv⟩
    rw [List.prefix_nil.mp hbs] at hv
    exact (Option.some.inj hv).symm
  · rintro rfl
    exact mem_passed_self _ _

theorem passed_cons {s s' : σ} {a : α} (h : M.step s a = some s') (as : List α) :
    M.Passed s (a :: as) = insert s (M.Passed s' as) := by
  ext v
  constructor
  · rintro ⟨bs, hbs, hv⟩
    rcases List.prefix_cons_iff.mp hbs with rfl | ⟨cs, rfl, hcs⟩
    · exact Or.inl (Option.some.inj hv).symm
    · obtain ⟨t, ht, hv⟩ := run_cons.mp hv
      cases h.symm.trans ht
      exact Or.inr ⟨cs, hcs, hv⟩
  · rintro (rfl | ⟨bs, hbs, hv⟩)
    · exact mem_passed_self _ _
    · exact ⟨a :: bs, (List.prefix_cons_inj a).mpr hbs, run_cons.mpr ⟨s', h, hv⟩⟩

/-- A condition on the actions alone. -/
theorem meets_of_forall_mem {ok : α → Prop} {s : σ} {as : List α} (h : ∀ a ∈ as, ok a) :
    M.Meets (fun _ a => ok a) s as := by
  induction as generalizing s with
  | nil => trivial
  | cons a as ih => exact fun _ _ => ⟨h a List.mem_cons_self, ih fun b hb => h b (List.mem_cons_of_mem a hb)⟩

section

variable {I : Set σ → σ → Prop} {ok : σ → α → Prop}

theorem passed_from (hstep : ∀ past s a s', s ∈ past → I past s → ok s a → M.step s a = some s' → I (insert s' past) s')
    {past : Set σ} {s t : σ} {as : List α} (hs : s ∈ past) (h₀ : I past s) (hok : M.Meets ok s as)
    (hr : M.run s as = some t) : I (past ∪ M.Passed s as) t := by
  induction as generalizing past s with
  | nil =>
    cases hr
    rwa [passed_nil, Set.union_eq_self_of_subset_right (Set.singleton_subset_iff.mpr hs)]
  | cons a as ih =>
    obtain ⟨s', he, hr⟩ := run_cons.mp hr
    have hrest := ih (Set.mem_insert s' past) (hstep past s a s' hs h₀ (hok s' he).1 he) (hok s' he).2 hr
    have hpassed : insert s' past ∪ M.Passed s' as = past ∪ M.Passed s (a :: as) := by
      have hnew : s' ∈ past ∪ M.Passed s' as := Or.inr (mem_passed_self s' as)
      have hold : s ∈ past ∪ M.Passed s' as := Or.inl hs
      rw [passed_cons he, Set.insert_union, Set.insert_eq_of_mem hnew, Set.union_insert, Set.insert_eq_of_mem hold]
    rwa [hpassed] at hrest

/-- An invariant of the state and the states passed, which every step that
meets a condition keeps, by induction on the run. -/
theorem Meets.passed
    (hstep : ∀ past s a s', s ∈ past → I past s → ok s a → M.step s a = some s' → I (insert s' past) s')
    {s t : σ} {as : List α} (h₀ : I {s} s) (hok : M.Meets ok s as) (hr : M.run s as = some t) :
    I (M.Passed s as) t := by
  have h := passed_from hstep (Set.mem_singleton s) h₀ hok hr
  rwa [Set.union_eq_self_of_subset_left (Set.singleton_subset_iff.mpr (mem_passed_self s as))] at h

/-- The same where every step keeps it. -/
theorem passed_of_invariant (hstep : ∀ past s a s', s ∈ past → I past s → M.step s a = some s' → I (insert s' past) s')
    {s t : σ} {as : List α} (h₀ : I {s} s) (hr : M.run s as = some t) : I (M.Passed s as) t := by
  have hok : M.Meets (fun _ _ => True) s as := meets_of_forall_mem fun _ _ => trivial
  exact Meets.passed (fun past s a s' hs hI _ => hstep past s a s' hs hI) h₀ hok hr

end

end SynapsNotes.Framework.Machine
