import SynapsNotes.Runtime.Segments

/-!
# Loaded flags and the models the actor holds

A flag goes up when a load returns, and stays up until a later load fails,
an unload returns or the scene goes to the background. The background takes
the flags down at once and unloads in a task of its own, and clearing
`isChatModelLoading` lets a second load start beside the first: so a load may
return after the actor has lost its model.

`backed_iff` is exact: the flags that are up are backed by the actor, or by a
call that has been performed and will settle the flag when it returns, if and
only if every load returns to the model it loaded and the background unloads
nothing that a flag stands for, such calls aside. `loaded_of_settled` follows
for the states in which nothing is pending.
-/

namespace SynapsNotes.Runtime

open Framework

variable {α : Type}

/-- The flag, if it is up, is right: the actor holds the current model, with
its context. -/
def FlagRight (s : State α) (k : Slot) : Prop :=
  s.main.isLoaded k = true → ∃ id ∈ s.main.currentId k, s.actor.Holds k id

/-- Whenever no call is pending, both flags are right. -/
def Loaded (s : State α) : Prop := s.Quiet → ∀ k, FlagRight s k

instance (s : State α) : DecidablePred (FlagRight s) := fun k =>
  match h : s.main.currentId k with
  | none => decidable_of_iff (s.main.isLoaded k = false) <| by
    unfold FlagRight
    rw [h]
    simp
  | some id => decidable_of_iff (s.main.isLoaded k = true → s.actor.Holds k id) <| by
    unfold FlagRight
    rw [h]
    simp

instance (s : State α) : Decidable (Loaded s) := inferInstanceAs (Decidable (s.Quiet → ∀ k, FlagRight s k))

/-! ## The condition -/

/-- A result that sets the flag of the slot when its task goes on. -/
def Return.settles (k : Slot) : Return α → Bool
  | .load k' _ _ _ => k' = k
  | .unload k' _ => k' = k
  | _ => false

/-- A task whose call has been performed and will settle the flag. -/
def Settles (k : Slot) (t : Task (Op α) Call (Return α)) : Prop :=
  match t.at_ with
  | .returned result => result.settles k = true
  | _ => False

instance (k : Slot) : DecidablePred (Settles (α := α) k)
  | ⟨.ready, _, _⟩ => isFalse id
  | ⟨.calling _, _, _⟩ => isFalse id
  | ⟨.returned result, _, _⟩ => inferInstanceAs (Decidable (result.settles k = true))

/-- A load that succeeded returns while the actor still holds its model, or
another call is still to settle the flag. -/
def LoadStands (s : State α) (i : Nat) : Return α → Prop
  | .load k item _ (.ok ()) => s.actor.Holds k item.id ∨ ∃ t ∈ s.tasks.eraseIdx i, Settles k t
  | _ => True

/-- The background unloads a slot whose flag is down, or a call is still to
settle it. -/
def UnloadsUnused (s : State α) : Call → Prop
  | .unloadAll => ∀ k, s.main.isLoaded k = true → ∃ t ∈ s.tasks, Settles k t
  | _ => True

instance (s : State α) (i : Nat) : DecidablePred (LoadStands s i)
  | .load k item _ (.ok ()) =>
    inferInstanceAs (Decidable (s.actor.Holds k item.id ∨ ∃ t ∈ s.tasks.eraseIdx i, Settles k t))
  | .load _ _ _ (.error _) => isTrue trivial
  | .unload _ _ => isTrue trivial
  | .unloadAll => isTrue trivial
  | .embed _ _ => isTrue trivial

instance (s : State α) : DecidablePred (UnloadsUnused s)
  | .unloadAll => inferInstanceAs (Decidable (∀ k, s.main.isLoaded k = true → ∃ t ∈ s.tasks, Settles k t))
  | .load _ _ _ _ => isTrue trivial
  | .unload _ _ => isTrue trivial
  | .embed _ _ => isTrue trivial

def Settled (s : State α) : Event α → Prop
  | .input _ => True
  | .advance i _ => ∀ t ∈ s.tasks[i]?, t.at_.Holds (fun _ => True) (LoadStands s i)
  | .perform i _ => ∀ t ∈ s.tasks[i]?, t.at_.Holds (UnloadsUnused s) fun _ => True

instance (s : State α) (a : Event α) : Decidable (Settled s a) :=
  match a with
  | .input _ => isTrue trivial
  | .advance i _ =>
    inferInstanceAs (Decidable (∀ t ∈ s.tasks[i]?, t.at_.Holds (fun _ => True) (LoadStands s i)))
  | .perform i _ =>
    inferInstanceAs (Decidable (∀ t ∈ s.tasks[i]?, t.at_.Holds (UnloadsUnused s) fun _ => True))

/-- Every flag that is up is right, or is still to be settled. -/
def Backed (s : State α) : Prop := ∀ k, FlagRight s k ∨ ∃ t ∈ s.tasks, Settles k t

section Points

variable {s : State α} {i : Nat} {t : Task (Op α) Call (Return α)} {k : Slot}

theorem not_settles_of_ready (hat : t.at_ = .ready) : ¬ Settles k t := by
  unfold Settles
  rw [hat]
  exact id

theorem not_settles_of_calling {call : Call} (hat : t.at_ = .calling call) : ¬ Settles k t := by
  unfold Settles
  rw [hat]
  exact id

theorem settles_of_returned {result : Return α} (hat : t.at_ = .returned result) :
    Settles k t ↔ result.settles k = true := by
  unfold Settles
  rw [hat]

/-- The condition on the segment of a task, by where the task is. -/
theorem settled_advance_iff {choice : Choice} (ht : s.tasks[i]? = some t) :
    Settled s (.advance i choice) ↔ t.at_.Holds (fun _ => True) (LoadStands s i) := by
  rw [Settled, ht]
  simp only [Option.mem_some_iff, forall_eq']

theorem settled_perform_iff {answer : Answer α} (ht : s.tasks[i]? = some t) :
    Settled s (.perform i answer) ↔ t.at_.Holds (UnloadsUnused s) fun _ => True := by
  rw [Settled, ht]
  simp only [Option.mem_some_iff, forall_eq']

end Points

/-! ## One step -/

/-- A flag stays right while it, the current model and the slot do. -/
theorem FlagRight.congr {s s' : State α} {k : Slot} (h : FlagRight s k)
    (hflag : s'.main.isLoaded k = true → s.main.isLoaded k = true)
    (hid : s'.main.currentId k = s.main.currentId k) (hheld : s'.actor k = s.actor k) : FlagRight s' k := by
  intro hup
  obtain ⟨id, hcurrent, hholds⟩ := h (hflag hup)
  refine ⟨id, by rw [hid]; exact hcurrent, ?_⟩
  unfold LlamaContext.Holds
  rw [hheld]
  exact hholds

theorem flagRight_of_down {s : State α} {k : Slot} (h : s.main.isLoaded k = false) : FlagRight s k :=
  fun hup => nomatch h.symm.trans hup

/-- After a call the flags of the other slot are as they were. -/
theorem resume_flags_of_not_settles (P : Platform) (m : ViewModel α) (choice : Choice) {result : Return α} {k : Slot}
    (h : result.settles k = false) : (m.resume P choice result).1.isLoaded k = m.isLoaded k ∧
      (m.resume P choice result).1.currentId k = m.currentId k := by
  cases result with
  | load k' item persistSelection result =>
    have hne : k ≠ k' := fun he => by simp [Return.settles, he] at h
    cases result <;>
      simp only [ViewModel.resume, ViewModel.modelLoaded, Function.update_of_ne hne, and_self]
  | unload k' clearSelection =>
    have hne : k ≠ k' := fun he => by simp [Return.settles, he] at h
    cases clearSelection <;>
      simp [ViewModel.resume, ViewModel.modelUnloaded, Function.update_of_ne hne]
  | unloadAll => exact ⟨rfl, rfl⟩
  | embed use result =>
    cases use with
    | index => cases result <;> exact ⟨rfl, rfl⟩
    | query => exact ⟨rfl, rfl⟩

/-- A call that sets the flag leaves it down, unless it is a load that
succeeded. -/
theorem resume_flags_of_settles (P : Platform) (m : ViewModel α) (choice : Choice) {result : Return α} {k : Slot}
    (h : result.settles k = true) : (m.resume P choice result).1.isLoaded k = false ∨
      ∃ item persistSelection, result = .load k item persistSelection (.ok ()) ∧
        (m.resume P choice result).1.isLoaded k = true ∧
        (m.resume P choice result).1.currentId k = some item.id := by
  cases result with
  | load k' item persistSelection result =>
    obtain rfl : k' = k := by simpa [Return.settles] using h
    cases result with
    | ok => exact Or.inr ⟨item, persistSelection, rfl, Function.update_self _ _ _, Function.update_self _ _ _⟩
    | error => exact Or.inl (Function.update_self _ _ _)
  | unload k' clearSelection =>
    obtain rfl : k' = k := by simpa [Return.settles] using h
    exact Or.inl (Function.update_self _ _ _)
  | unloadAll => exact nomatch h
  | embed => exact nomatch h

/-- A job that settles no flag of the slot leaves the slot alone, the
background's unload aside. -/
theorem perform_of_not_settles {answer : Answer α} {call : Call} {l : LlamaContext} {k : Slot}
    (hcall : call ≠ .unloadAll) (h : (l.perform answer call).2.settles k = false) :
    (l.perform answer call).1 k = l k := by
  cases call with
  | load k' item persistSelection lowMemory =>
    have hne : k ≠ k' := fun he => by simp [LlamaContext.perform, Return.settles, he] at h
    exact LlamaContext.loadModel_of_ne hne
  | unload k' clearSelection =>
    have hne : k ≠ k' := fun he => by simp [LlamaContext.perform, Return.settles, he] at h
    exact LlamaContext.unloadModel_of_ne hne
  | unloadAll => exact absurd rfl hcall
  | embed => rfl

section Step

variable {P : Platform} {s : State α} {i : Nat} {t : Task (Op α) Call (Return α)}

/-- Calls from outside take flags down at most. -/
theorem backed_receive [FloatLike α] (h : Backed s) (a : Input) : Backed ((program P).receive a s) := by
  intro k
  obtain ⟨hid, hflag⟩ := s.main.input_flags P s.tasks.length a
  rcases h k with h | ⟨t, ht, hk⟩
  · exact Or.inl (h.congr (hflag k) (congrFun hid k) rfl)
  · obtain ⟨t', ht', hat⟩ := exists_mem_cancelTasks ((program P).input a s.tasks.length s.main).cancelled ht
    refine Or.inr ⟨t', List.mem_append_left _ ht', ?_⟩
    unfold Settles
    rw [hat]
    exact hk

/-- A segment that starts an operation changes no flag, and settles none. -/
theorem backed_start (h : Backed s) (ht : s.tasks[i]? = some t) (hat : t.at_ = .ready) {m : ViewModel α}
    (hm : m.isLoaded = s.main.isLoaded ∧ m.currentId = s.main.currentId) (t' : Task (Op α) Call (Return α)) :
    Backed { s with main := m, tasks := s.tasks.set i t' } := by
  obtain ⟨hi, -⟩ := List.getElem?_eq_some_iff.mp ht
  intro k
  rcases h k with h | h
  · exact Or.inl (h.congr (by rw [hm.1]; exact id) (congrFun hm.2 k) rfl)
  · refine Or.inr ((exists_mem_set_iff hi t' _).mpr (Or.inr ?_))
    exact ((exists_mem_iff_eraseIdx ht _).mp h).resolve_left (not_settles_of_ready hat)

/-- When a task goes on after its call, the flags stay backed exactly if a
load that succeeded stands. -/
theorem backed_resume_iff (h : Backed s) (ht : s.tasks[i]? = some t) {result : Return α}
    (hat : t.at_ = .returned result) (choice : Choice) (next : List (Op α)) :
    Backed { s with
      main := (s.main.resume P choice result).1
      tasks := s.tasks.set i { t with at_ := .ready, rest := next } } ↔ LoadStands s i result := by
  obtain ⟨hi, -⟩ := List.getElem?_eq_some_iff.mp ht
  have hset : ∀ k, (∃ x ∈ s.tasks.set i { t with at_ := .ready, rest := next }, Settles k x) ↔
      ∃ x ∈ s.tasks.eraseIdx i, Settles k x := fun k => by
    rw [exists_mem_set_iff hi]
    exact or_iff_right id
  constructor
  · intro h'
    unfold LoadStands
    split
    · rename_i k item persistSelection
      rcases h' k with hright | hsettles
      · obtain ⟨id, hid, hholds⟩ := hright (Function.update_self _ _ _)
        have hid : Function.update s.main.currentId k (some item.id) k = some id := hid
        rw [Function.update_self] at hid
        cases hid
        exact Or.inl hholds
      · exact Or.inr ((hset k).mp hsettles)
    · trivial
  · intro hstands k
    cases hk : result.settles k with
    | true =>
      rcases resume_flags_of_settles P s.main choice hk with hdown | ⟨item, persistSelection, rfl, hup, hid⟩
      · exact Or.inl (flagRight_of_down hdown)
      · rcases hstands with hholds | hsettles
        · exact Or.inl fun _ => ⟨item.id, hid, hholds⟩
        · exact Or.inr ((hset k).mpr hsettles)
    | false =>
      obtain ⟨hflag, hid⟩ := resume_flags_of_not_settles P s.main choice hk
      rcases h k with hright | hsettles
      · exact Or.inl (hright.congr (by rw [hflag]; exact fun h => h) hid rfl)
      · refine Or.inr ((hset k).mpr ?_)
        refine ((exists_mem_iff_eraseIdx ht _).mp hsettles).resolve_left fun hself => ?_
        exact nomatch hk.symm.trans ((settles_of_returned hat).mp hself)

/-- When a call is performed, the flags stay backed exactly if the
background unloads nothing that a flag stands for. -/
theorem backed_perform_iff (h : Backed s) (ht : s.tasks[i]? = some t) {call : Call} (hat : t.at_ = .calling call)
    (answer : Answer α) :
    Backed { s with
      actor := (s.actor.perform answer call).1
      tasks := s.tasks.set i { t with at_ := .returned (s.actor.perform answer call).2 } } ↔
        UnloadsUnused s call := by
  obtain ⟨hi, -⟩ := List.getElem?_eq_some_iff.mp ht
  have hothers : ∀ k, (∃ x ∈ s.tasks, Settles k x) ↔ ∃ x ∈ s.tasks.eraseIdx i, Settles k x := fun k => by
    rw [exists_mem_iff_eraseIdx ht]
    exact or_iff_right (not_settles_of_calling hat)
  have hset : ∀ k, (∃ x ∈ s.tasks.set i { t with at_ := .returned (s.actor.perform answer call).2 }, Settles k x) ↔
      (s.actor.perform answer call).2.settles k = true ∨ ∃ x ∈ s.tasks.eraseIdx i, Settles k x := fun k =>
    exists_mem_set_iff hi _ _
  constructor
  · intro h'
    unfold UnloadsUnused
    split
    · intro k hup
      rcases h' k with hright | hsettles
      · obtain ⟨id, -, hholds⟩ := hright hup
        have hholds : s.actor.unload k = ⟨some id, true⟩ := hholds
        rw [LlamaContext.unload_apply] at hholds
        exact nomatch hholds
      · rcases (hset k).mp hsettles with hself | hsettles
        · exact nomatch hself
        · exact (hothers k).mpr hsettles
    · trivial
  · intro hunused k
    cases hk : (s.actor.perform answer call).2.settles k with
    | true => exact Or.inr ((hset k).mpr (Or.inl hk))
    | false =>
      rcases h k with hright | hsettles
      · by_cases hcall : call = .unloadAll
        · subst hcall
          cases hup : s.main.isLoaded k with
          | false => exact Or.inl (flagRight_of_down hup)
          | true => exact Or.inr ((hset k).mpr (Or.inr ((hothers k).mp (hunused k hup))))
        · exact Or.inl (hright.congr (fun hup => hup) rfl (perform_of_not_settles hcall hk))
      · exact Or.inr ((hset k).mpr (Or.inr ((hothers k).mp hsettles)))

/-- A step keeps the flags backed exactly if it meets the condition. -/
theorem backed_step_iff [FloatLike α] {s' : State α} {a : Event α} (h : Backed s) (hstep : (machine P).step s a = some s') :
    Backed s' ↔ Settled s a := by
  rcases Program.step_cases hstep with ⟨x, rfl, rfl⟩ | ⟨i, choice, t, op, rest, rfl, ht, hat, -, rfl⟩ |
    ⟨i, choice, t, result, rfl, ht, hat, rfl⟩ | ⟨i, answer, t, call, rfl, ht, hat, rfl⟩
  · exact iff_of_true (backed_receive h x) trivial
  · rw [settled_advance_iff ht, hat]
    exact iff_of_true (backed_start h ht hat (s.main.start_flags P choice t.isCancelled op) _) trivial
  · rw [settled_advance_iff ht, hat]
    exact backed_resume_iff h ht hat choice _
  · rw [settled_perform_iff ht, hat]
    exact backed_perform_iff h ht hat answer

end Step

/-! ## Runs -/

/-- From backed flags on: they stay backed if and only if every step meets
the condition. -/
theorem backed_iff [FloatLike α] {P : Platform} {s : State α} (h₀ : Backed s) (as : List (Event α)) :
    (machine P).Always Backed s as ↔ (machine P).Meets Settled s as :=
  Machine.always_iff_meets (fun _ => id) (fun _ _ _ h hok hstep => (backed_step_iff h hstep).mpr hok)
    (fun _ _ _ h hstep h' => (backed_step_iff h hstep).mp h') h₀ as

/-- Where no call is pending, nothing is still to be settled. -/
theorem Backed.loaded {s : State α} (h : Backed s) : Loaded s := by
  intro hquiet k
  rcases h k with hright | ⟨t, ht, hsettles⟩
  · exact hright
  · have hready := hquiet t ht
    unfold Settles at hsettles
    split at hsettles
    · rename_i hat
      rw [hat] at hready
      exact nomatch hready
    · exact hsettles.elim

theorem backed_of_down {s : State α} (h : ∀ k, s.main.isLoaded k = false) : Backed s :=
  fun k => Or.inl (flagRight_of_down (h k))

/-- From a state with both flags down, on every schedule that meets the
condition: whenever no call is pending, a flag that is up says that the actor
holds the current model and its context. -/
theorem loaded_of_settled [FloatLike α] {P : Platform} {s : State α} (h₀ : ∀ k, s.main.isLoaded k = false)
    {as : List (Event α)} (h : (machine P).Meets Settled s as) : (machine P).Always Loaded s as :=
  ((backed_iff (backed_of_down h₀) as).mpr h).mono fun _ => Backed.loaded

/-- The embedding model is loaded and replaced by another one, the scene goes to
the background and comes back. -/
theorem loaded_firstLaunch :
    (machine ⟨.ascii, id⟩).Always Loaded firstLaunch
      [.input (.loadModel .embedding (modelItem "embed-a" .embedding)), .advance 0 promptly, .perform 0 answered,
        .advance 0 promptly, .input (.reloadModel .embedding (modelItem "embed-b" .embedding)),
        .advance 1 promptly, .perform 1 answered, .advance 1 promptly, .advance 1 promptly, .perform 1 answered,
        .advance 1 promptly, .input .sceneDidEnterBackground, .advance 2 promptly, .perform 2 answered,
        .advance 2 promptly, .input .sceneDidBecomeActive, .advance 3 promptly, .advance 3 promptly,
        .advance 3 promptly, .perform 3 answered, .advance 3 promptly] :=
  loaded_of_settled (fun _ => rfl) (by decide +kernel)

/-- The load has been performed when the scene goes to the background, and
returns after the unload: the flag is up and the actor is empty. -/
theorem not_loaded_firstLaunch :
    ¬ (machine ⟨.ascii, id⟩).Always Loaded firstLaunch
      [.input (.loadModel .chat (modelItem "chat" .chat)), .advance 0 promptly, .perform 0 answered,
        .input .sceneDidEnterBackground, .advance 1 promptly, .perform 1 answered, .advance 1 promptly,
        .advance 0 promptly] :=
  Machine.not_always_of_run (by decide +kernel)

end SynapsNotes.Runtime
