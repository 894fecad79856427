import SynapsNotes.Framework.Locks

/-!
# What the holder of a flag owes

A task that has put a flag up works through what it owes and takes the flag
down at the end. `Discharging` is what each piece of a program has to keep,
taken alone: an operation that owes something hands it over with the call that
it makes, or leaves it to the operation that holds the flag after it. Then it
is done whenever the flag is down (`Discharging.always`).

`Finishing` bounds the work: each segment and each job of a task that holds
the flag brings it nearer to its end (`Finishing.run`), and the task can
always go on (`Finishing.exists_step`).
-/

namespace SynapsNotes.Framework

variable {μ ε ο κ ρ ι χ ω : Type*}

/-- What is asked of a schedule: of the calls from outside, of the operations
that start, of the calls that are performed, with their answers, and of the
results that are taken up. -/
structure Conditions (μ ε ο κ ρ ι χ ω : Type*) where
  input : ι → Prop
  start : χ → μ → ο → Prop
  perform : ω → ε → κ → Prop
  resume : ρ → Prop

def Conditions.Permit (c : Conditions μ ε ο κ ρ ι χ ω) (w : World μ ε ο κ ρ) : Action ι χ ω → Prop
  | .input a => c.input a
  | .advance i choice => ∀ t ∈ w.tasks[i]?, t.Starts (c.start choice w.main) ∧ t.at_.Holds (fun _ => True) c.resume
  | .perform i answer => ∀ t ∈ w.tasks[i]?, t.at_.Holds (c.perform answer w.actor) fun _ => True

/-- The call that a task waits for, or its result, carries what is owed. -/
def Point.Carries (carries : κ → Prop) (brings : ρ → Prop) : Point κ ρ → Prop
  | ready => False
  | calling call => carries call
  | returned result => brings result

/-- What is asked of each piece of the program, taken alone: `I` is kept of
the main actor, `C` of every call and `R` of every result; what is done stays
done; what is owed is handed over with a call or left to an operation; what a
result brings is done. -/
structure Discharging (p : Program μ ε ο κ ρ ι χ ω) (c : Conditions μ ε ο κ ρ ι χ ω) (I : μ → Prop) (C : κ → Prop)
    (R : ρ → Prop) (done : μ → Prop) (holds : ο → Bool) (owes : ο → Prop) (carries : κ → Prop)
    (brings : ρ → Prop) : Prop where
  holds_of_owes : ∀ op, owes op → holds op = true
  input : ∀ a n m, I m → c.input a → I (p.input a n m).main ∧ (done m → done (p.input a n m).main)
  start : ∀ choice b op m, I m → c.start choice m op →
    let seg := p.start choice b op m
    I seg.main ∧ (∀ call ∈ seg.call, C call) ∧ (done m → done seg.main) ∧
      (owes op → (∃ op' ∈ seg.next, owes op') ∨
        (∃ call ∈ seg.call, carries call) ∧ ∃ op' ∈ seg.next, holds op' = true)
  perform : ∀ answer call e, C call → c.perform answer e call →
    R (p.perform answer call e).2 ∧ (carries call → brings (p.perform answer call e).2)
  resume : ∀ choice result m, I m → R result → c.resume result →
    let r := p.resume choice result m
    I r.1 ∧ (done m → done r.1) ∧ (brings result → done r.1)

/-- A task owes it: an operation to come does, or it travels with a call
while an operation to come holds the flag. -/
def Task.Owes (holds : ο → Bool) (owes : ο → Prop) (carries : κ → Prop) (brings : ρ → Prop) (t : Task ο κ ρ) : Prop :=
  (∃ op ∈ t.rest, owes op) ∨ t.at_.Carries carries brings ∧ ∃ op ∈ t.rest, holds op = true

/-- Done, or owed by a task. -/
structure Accounted (I : μ → Prop) (C : κ → Prop) (R : ρ → Prop) (done : μ → Prop) (holds : ο → Bool)
    (owes : ο → Prop) (carries : κ → Prop) (brings : ρ → Prop) (w : World μ ε ο κ ρ) : Prop where
  coupled : Coupled I (fun _ => True) C R w
  accounted : done w.main ∨ ∃ t ∈ w.tasks, t.Owes holds owes carries brings

section Discharging

variable {p : Program μ ε ο κ ρ ι χ ω} {c : Conditions μ ε ο κ ρ ι χ ω} {I : μ → Prop} {C : κ → Prop} {R : ρ → Prop}
  {done : μ → Prop} {holds : ο → Bool} {owes : ο → Prop} {carries : κ → Prop} {brings : ρ → Prop}
  {w w' : World μ ε ο κ ρ}

/-- A task that goes on: what it owed it owes still, or it is done. -/
theorem Accounted.set (hw : Accounted I C R done holds owes carries brings w) {i : Nat} {t t' : Task ο κ ρ} {m : μ}
    {e : ε} (ht : w.tasks[i]? = some t) (hm : I m) (hat : t'.at_.Holds C R) (hdone : done w.main → done m)
    (howes : t.Owes holds owes carries brings → done m ∨ t'.Owes holds owes carries brings) :
    Accounted I C R done holds owes carries brings { main := m, actor := e, tasks := w.tasks.set i t' } where
  coupled := hw.coupled.set hm hat fun _ _ => trivial
  accounted := by
    obtain ⟨hi, -⟩ := List.getElem?_eq_some_iff.mp ht
    show done m ∨ ∃ x ∈ w.tasks.set i t', x.Owes holds owes carries brings
    rw [exists_mem_set_iff hi]
    rcases hw.accounted with h | h
    · exact .inl (hdone h)
    · rcases (exists_mem_iff_eraseIdx ht _).mp h with h | h
      · exact (howes h).imp_right .inl
      · exact .inr (.inr h)

theorem Discharging.receive (hp : Discharging p c I C R done holds owes carries brings)
    (hw : Accounted I C R done holds owes carries brings w) {a : ι} (ha : c.input a) :
    Accounted I C R done holds owes carries brings (p.receive a w) := by
  obtain ⟨hm, hdone⟩ := hp.input a w.tasks.length w.main hw.coupled.main ha
  refine ⟨⟨hm, fun t ht => ?_, fun _ _ _ _ => trivial⟩, hw.accounted.imp hdone fun ⟨t, ht, howes⟩ => ?_⟩
  · rcases List.mem_append.mp ht with h | h
    · obtain ⟨t', ht', hat, -⟩ := exists_of_mem_cancelTasks h
      rw [hat]
      exact hw.coupled.at_ t' ht'
    · obtain ⟨ops, -, rfl⟩ := List.mem_map.mp h
      trivial
  · obtain ⟨i, hi, rfl⟩ := List.mem_iff_getElem.mp ht
    refine ⟨_, List.mem_append_left _ (List.mem_mapIdx.mpr ⟨i, hi, rfl⟩), ?_⟩
    split <;> exact howes

/-- One step that the conditions permit. -/
theorem Discharging.step (hp : Discharging p c I C R done holds owes carries brings) {a : Action ι χ ω}
    (hw : Accounted I C R done holds owes carries brings w) (hok : c.Permit w a) (h : p.machine.step w a = some w') :
    Accounted I C R done holds owes carries brings w' := by
  rcases Program.step_cases h with ⟨x, rfl, rfl⟩ | ⟨i, choice, t, op, rest, rfl, ht, hat, hrest, rfl⟩ |
    ⟨i, choice, t, result, rfl, ht, hat, rfl⟩ | ⟨i, answer, t, call, rfl, ht, hat, rfl⟩
  · exact hp.receive hw hok
  · have hstart : c.start choice w.main op := by
      have := (hok t ht).1
      rwa [Task.Starts, hat, hrest] at this
    obtain ⟨hm, hcall, hdone, howes⟩ := hp.start choice t.isCancelled op w.main hw.coupled.main hstart
    refine hw.set ht hm ?_ hdone fun hold => .inr ?_
    · unfold Segment.at_
      split
      · rename_i call he
        exact hcall call he
      · trivial
    · rcases hold with ⟨op', hop', hold⟩ | ⟨hcarries, -⟩
      · rw [hrest] at hop'
        rcases List.mem_cons.mp hop' with rfl | hop'
        · -- What the operation owes it leaves to another, or its call carries it.
          rcases howes hold with ⟨op'', hop'', hnext⟩ | ⟨⟨call, hcall, hcarries⟩, op'', hop'', hholds⟩
          · exact .inl ⟨op'', List.mem_append_left _ hop'', hnext⟩
          · refine .inr ⟨?_, op'', List.mem_append_left _ hop'', hholds⟩
            have hcall : (p.start choice t.isCancelled op' w.main).call = some call := hcall
            unfold Segment.at_
            rw [hcall]
            exact hcarries
        · exact .inl ⟨op', List.mem_append_right _ hop', hold⟩
      · rw [hat] at hcarries
        exact hcarries.elim
  · have hresult := hw.coupled.at_ t (List.mem_of_getElem? ht)
    have hresume := (hok t ht).2
    rw [hat] at hresult hresume
    obtain ⟨hm, hdone, hbrings⟩ := hp.resume choice result w.main hw.coupled.main hresult hresume
    refine hw.set ht hm trivial hdone ?_
    rintro (⟨op, hop, hold⟩ | ⟨hcarries, -⟩)
    · exact .inr (.inl ⟨op, List.mem_append_right _ hop, hold⟩)
    · rw [hat] at hcarries
      exact .inl (hbrings hcarries)
  · have hcall := hw.coupled.at_ t (List.mem_of_getElem? ht)
    have hperform := hok t ht
    rw [hat] at hcall hperform
    obtain ⟨hresult, hbrings⟩ := hp.perform answer call w.actor hcall hperform
    refine hw.set ht hw.coupled.main hresult id ?_
    rintro (hold | ⟨hcarries, hholder⟩)
    · exact .inr (.inl hold)
    · rw [hat] at hcarries
      exact .inr (.inr ⟨hbrings hcarries, hholder⟩)

/-- Where no operation to come holds the flag, nothing is owed. -/
theorem Accounted.done_of_flag {flag : μ → Bool} (hp : Discharging p c I C R done holds owes carries brings)
    (hw : Accounted I C R done holds owes carries brings w) (hlocked : Locked flag holds w)
    (hflag : flag w.main = false) : done w.main := by
  refine hw.accounted.resolve_right fun ⟨t, ht, howes⟩ => ?_
  have hholder : ∃ op ∈ t.rest, holds op = true :=
    howes.elim (fun ⟨op, hop, h⟩ => ⟨op, hop, hp.holds_of_owes op h⟩) And.right
  have hpos : 0 < t.rest.countP holds := List.countP_pos_iff.mpr hholder
  have hle : t.rest.countP holds ≤ w.holders holds := List.le_sum_of_mem (List.mem_map_of_mem ht)
  have hnone : w.holders holds = 0 := by
    rw [hlocked, hflag]
    rfl
  omega

/-- On every schedule that the conditions permit, it is done whenever the
flag is down. -/
theorem Discharging.always {flag : μ → Bool} (hp : Discharging p c I C R done holds owes carries brings)
    (hlock : Locking p flag holds) (hw : Accounted I C R done holds owes carries brings w)
    (hlocked : Locked flag holds w) {as : List (Action ι χ ω)} (h : p.machine.Meets c.Permit w as) :
    p.machine.Always (fun w => flag w.main = false → done w.main) w as := by
  refine (Machine.Meets.always (I := fun w => Accounted I C R done holds owes carries brings w ∧ Locked flag holds w)
    ?_ ⟨hw, hlocked⟩ h).mono fun _ hw hflag => hw.1.done_of_flag hp hw.2 hflag
  exact fun _ _ _ hw hok hstep => ⟨hp.step hw.1 hok hstep, hlock.step hw.2 hstep⟩

end Discharging

/-! ## What each task keeps -/

/-- What is asked of each piece of the program, taken alone: it keeps `T` of
where a task is and what it has to do. -/
structure Keeping (p : Program μ ε ο κ ρ ι χ ω) (T : Point κ ρ → List ο → Prop) : Prop where
  input : ∀ a n m, ∀ ops ∈ (p.input a n m).started, T .ready ops
  start : ∀ choice b op rest m, T .ready (op :: rest) →
    T (p.start choice b op m).at_ ((p.start choice b op m).next ++ rest)
  perform : ∀ answer call rest e, T (.calling call) rest → T (.returned (p.perform answer call e).2) rest
  resume : ∀ choice result rest m, T (.returned result) rest → T .ready ((p.resume choice result m).2 ++ rest)

theorem Keeping.always {p : Program μ ε ο κ ρ ι χ ω} {T : Point κ ρ → List ο → Prop} (hp : Keeping p T)
    {w : World μ ε ο κ ρ} (hw : ∀ t ∈ w.tasks, T t.at_ t.rest) (as : List (Action ι χ ω)) :
    p.machine.Always (fun w => ∀ t ∈ w.tasks, T t.at_ t.rest) w as := by
  refine Machine.always_of_invariant (I := fun w : World μ ε ο κ ρ => ∀ t ∈ w.tasks, T t.at_ t.rest) ?_ hw as
  intro w a w' hw h
  rcases Program.step_cases h with ⟨x, rfl, rfl⟩ | ⟨i, choice, t, op, rest, rfl, ht, hat, hrest, rfl⟩ |
    ⟨i, choice, t, result, rfl, ht, hat, rfl⟩ | ⟨i, answer, t, call, rfl, ht, hat, rfl⟩
  · intro t ht
    rcases List.mem_append.mp ht with h | h
    · obtain ⟨t', ht', hat, hrest⟩ := exists_of_mem_cancelTasks h
      rw [hat, hrest]
      exact hw t' ht'
    · obtain ⟨ops, hops, rfl⟩ := List.mem_map.mp h
      exact hp.input x w.tasks.length w.main ops hops
  all_goals
    intro t' ht'
    have hold := hw t (List.mem_of_getElem? ht)
    rw [hat] at hold
    rcases List.mem_or_eq_of_mem_set ht' with h | rfl
    · exact hw t' h
  · rw [hrest] at hold
    exact hp.start choice t.isCancelled op rest w.main hold
  · exact hp.resume choice result t.rest w.main hold
  · exact hp.perform answer call t.rest w.actor hold

/-! ## How long the flag is held -/

/-- While the flag is up, a task has an operation to come that holds it. -/
theorem Locked.exists_holder {flag : μ → Bool} {holds : ο → Bool} {w : World μ ε ο κ ρ} (hw : Locked flag holds w)
    (h : flag w.main = true) : ∃ t ∈ w.tasks, ∃ op ∈ t.rest, holds op = true := by
  by_contra hnone
  have hzero : ∀ n ∈ w.tasks.map fun t => t.rest.countP holds, n = 0 := by
    intro n hn
    obtain ⟨t, ht, rfl⟩ := List.mem_map.mp hn
    exact List.countP_eq_zero.mpr fun op hop hholds => hnone ⟨t, ht, op, hop, hholds⟩
  have hsum : (w.tasks.map fun t => t.rest.countP holds).sum = 0 := List.sum_eq_zero hzero
  have hone : (w.tasks.map fun t => t.rest.countP holds).sum = 1 := hw.trans (congrArg Bool.toNat h)
  omega

def Action.task? : Action ι χ ω → Option Nat
  | input _ => none
  | advance i _ | perform i _ => some i

/-- What is asked of each piece of the program, taken alone: a task that
holds the flag has an operation to come, and each segment and each job of it
brings it nearer to its end or takes the flag down. -/
structure Finishing (p : Program μ ε ο κ ρ ι χ ω) (flag : μ → Bool) (holding : Point κ ρ → List ο → Prop)
    (rank : Point κ ρ → List ο → Nat) : Prop where
  ne_nil : ∀ x rest, holding x rest → rest ≠ []
  start : ∀ choice b op rest m, holding .ready (op :: rest) →
    let seg := p.start choice b op m
    flag seg.main = false ∨
      holding seg.at_ (seg.next ++ rest) ∧ rank seg.at_ (seg.next ++ rest) < rank .ready (op :: rest)
  perform : ∀ answer call rest e, holding (.calling call) rest →
    let x := Point.returned (p.perform answer call e).2
    holding x rest ∧ rank x rest < rank (.calling call) rest
  resume : ∀ choice result rest m, holding (.returned result) rest →
    let r := p.resume choice result m
    flag r.1 = false ∨ holding .ready (r.2 ++ rest) ∧ rank .ready (r.2 ++ rest) < rank (.returned result) rest

section Finishing

variable {p : Program μ ε ο κ ρ ι χ ω} {flag : μ → Bool} {holding : Point κ ρ → List ο → Prop}
  {rank : Point κ ρ → List ο → Nat} {w w' : World μ ε ο κ ρ} {i : Nat}

/-- A step of another task, or a call from outside, leaves a task where it is. -/
theorem getElem?_step_of_ne {a : Action ι χ ω} (h : p.machine.step w a = some w') (ha : a.task? ≠ some i)
    {t : Task ο κ ρ} (ht : w.tasks[i]? = some t) : ∃ t' ∈ w'.tasks[i]?, t'.at_ = t.at_ ∧ t'.rest = t.rest := by
  rcases Program.step_cases h with ⟨x, rfl, rfl⟩ | ⟨j, choice, t', op, rest, rfl, ht', hat, hrest, rfl⟩ |
    ⟨j, choice, t', result, rfl, ht', hat, rfl⟩ | ⟨j, answer, t', call, rfl, ht', hat, rfl⟩
  · obtain ⟨hi, rfl⟩ := List.getElem?_eq_some_iff.mp ht
    have hi : i < (cancelTasks (p.input x w.tasks.length w.main).cancelled w.tasks).length := by
      simpa [cancelTasks] using hi
    refine ⟨_, (List.getElem?_append_left hi).trans (List.getElem?_eq_getElem hi), ?_⟩
    simp only [cancelTasks, List.getElem_mapIdx]
    split <;> exact ⟨rfl, rfl⟩
  all_goals
    have hne : j ≠ i := fun he => ha (congrArg some he)
    exact ⟨t, (List.getElem?_set_ne hne).trans ht, rfl, rfl⟩

/-- A step of the task itself. -/
theorem Finishing.step (hp : Finishing p flag holding rank) {a : Action ι χ ω} (h : p.machine.step w a = some w')
    (ha : a.task? = some i) {t : Task ο κ ρ} (ht : w.tasks[i]? = some t) (hold : holding t.at_ t.rest) :
    flag w'.main = false ∨
      ∃ t' ∈ w'.tasks[i]?, holding t'.at_ t'.rest ∧ rank t'.at_ t'.rest < rank t.at_ t.rest := by
  rcases Program.step_cases h with ⟨x, rfl, rfl⟩ | ⟨j, choice, t', op, rest, rfl, ht', hat, hrest, rfl⟩ |
    ⟨j, choice, t', result, rfl, ht', hat, rfl⟩ | ⟨j, answer, t', call, rfl, ht', hat, rfl⟩
  · exact nomatch ha
  all_goals
    obtain rfl := Option.some.inj ha
    obtain rfl := Option.some.inj (ht'.symm.trans ht)
    obtain ⟨hj, -⟩ := List.getElem?_eq_some_iff.mp ht
    rw [hat] at hold ⊢
  · rw [hrest] at hold ⊢
    exact (hp.start choice t'.isCancelled op rest w.main hold).imp_right fun hnext =>
      ⟨_, List.getElem?_set_self hj, hnext⟩
  · exact (hp.resume choice result t'.rest w.main hold).imp_right fun hnext =>
      ⟨_, List.getElem?_set_self hj, hnext⟩
  · exact .inr ⟨_, List.getElem?_set_self hj, hp.perform answer call t'.rest w.actor hold⟩

/-- The task can always go on. -/
theorem Finishing.exists_step [Inhabited χ] [Inhabited ω] (hp : Finishing p flag holding rank) {t : Task ο κ ρ}
    (ht : w.tasks[i]? = some t) (hold : holding t.at_ t.rest) :
    ∃ a : Action ι χ ω, a.task? = some i ∧ (p.machine.step w a).isSome = true := by
  obtain ⟨at_, rest, isCancelled⟩ := t
  cases at_ with
  | ready =>
    obtain ⟨op, rest, rfl⟩ := List.exists_cons_of_ne_nil (hp.ne_nil _ _ hold)
    refine ⟨.advance i default, rfl, ?_⟩
    simp [Program.machine, ht, Program.advance]
  | calling call =>
    refine ⟨.perform i default, rfl, ?_⟩
    simp [Program.machine, ht, Program.runCall]
  | returned result =>
    refine ⟨.advance i default, rfl, ?_⟩
    simp [Program.machine, ht, Program.advance]

/-- On every schedule, while the flag is up the task holds it, and takes no
more steps than its rank allows. -/
theorem Finishing.run (hp : Finishing p flag holding rank) {as : List (Action ι χ ω)} {t : Task ο κ ρ}
    (ht : w.tasks[i]? = some t) (hold : holding t.at_ t.rest) (h : p.machine.run w as = some w')
    (hup : p.machine.Always (fun w => flag w.main = true) w as) :
    ∃ t' ∈ w'.tasks[i]?, holding t'.at_ t'.rest ∧
      rank t'.at_ t'.rest + as.countP (fun a => a.task? == some i) ≤ rank t.at_ t.rest := by
  induction as generalizing w t with
  | nil =>
    obtain rfl := Option.some.inj h
    exact ⟨t, ht, hold, Nat.le_refl _⟩
  | cons a as ih =>
    obtain ⟨w₁, hstep, hrun⟩ := Option.bind_eq_some_iff.mp h
    have hup₁ := hup.2 w₁ hstep
    obtain ⟨t₁, ht₁, hold₁, hle⟩ : ∃ t₁ ∈ w₁.tasks[i]?, holding t₁.at_ t₁.rest ∧
        rank t₁.at_ t₁.rest + (if a.task? == some i then 1 else 0) ≤ rank t.at_ t.rest := by
      by_cases ha : a.task? = some i
      · obtain ⟨t₁, ht₁, hold₁, hlt⟩ := (hp.step hstep ha ht hold).resolve_left fun hdown =>
          Bool.false_ne_true (hdown.symm.trans hup₁.head)
        refine ⟨t₁, ht₁, hold₁, ?_⟩
        rw [if_pos (beq_iff_eq.mpr ha)]
        exact hlt
      · obtain ⟨t₁, ht₁, hat, hrest⟩ := getElem?_step_of_ne hstep ha ht
        refine ⟨t₁, ht₁, by rwa [hat, hrest], ?_⟩
        rw [if_neg (mt beq_iff_eq.mp ha), hat, hrest]
        exact Nat.le_refl _
    obtain ⟨t₂, ht₂, hold₂, hle₂⟩ := ih ht₁ hold₁ hrun hup₁
    refine ⟨t₂, ht₂, hold₂, ?_⟩
    rw [List.countP_cons]
    omega

end Finishing

end SynapsNotes.Framework
